/-!
# Failures

Everything that can go wrong, as causes. `Failure.message` is the one place where a cause is put
into words. Inside running code a failure travels as `Raised`, to which every call that it leaves
adds; `Raised.recover` gives back the failure a host call raised, whatever it passed through, and
describes anything else as a failed execution.
-/

namespace UnitHost

/-- Why running code stops. -/
inductive Trap where
  | unreachable
  | divideByZero
  | overflow
  | memoryBounds
  | tableBounds
  | emptySlot
  | signature
  | stackExhausted
  deriving DecidableEq, Repr

/-- A trap in words. -/
def Trap.message : Trap → String
  | unreachable => "wasm trap: wasm `unreachable` instruction executed"
  | divideByZero => "wasm trap: integer divide by zero"
  | overflow => "wasm trap: integer overflow"
  | memoryBounds => "wasm trap: out of bounds memory access"
  | tableBounds => "wasm trap: undefined element: out of bounds table access"
  | emptySlot => "wasm trap: uninitialized element"
  | signature => "wasm trap: indirect call type mismatch"
  | stackExhausted => "wasm trap: call stack exhausted"

/-- What stands for the account of a module or a configuration that is malformed or invalid. -/
def unreadableText : String := "<engine>"

/-- Settings no engine can be built with. -/
inductive EngineFault where
  | noStack
  | simdDisabled
  | bulkForReferences
  | bulkForThreads
  deriving DecidableEq, Repr

/-- An engine fault in words. -/
def EngineFault.message : EngineFault → String
  | noStack => "max_wasm_stack size cannot be zero"
  | simdDisabled => "cannot disable the simd proposal but enable the relaxed simd proposal"
  | bulkForReferences => "feature 'reference_types' requires 'bulk_memory' to be enabled"
  | bulkForThreads => "feature 'threads' requires 'bulk_memory' to be enabled"

/-- Why a base could not be compiled. -/
inductive CompilationFault where
  | invalid
  | engine (fault : EngineFault)
  | other (text : String)
  deriving DecidableEq, Repr

/-- A compilation fault in words. -/
def CompilationFault.message : CompilationFault → String
  | invalid => unreadableText
  | engine fault => "engine: " ++ fault.message
  | other text => text

/-- Why a module could not be instantiated. -/
inductive InstantiationFault where
  /-- The module is malformed or invalid. -/
  | invalid
  /-- Nothing is defined under an imported pair. -/
  | unknownImport (module name : String)
  /-- A pair would be defined a second time. -/
  | definedTwice (module name : String)
  /-- What is defined under an imported pair has another type. -/
  | incompatible (module name : String)
  /-- A segment did not fit or the start function failed. -/
  | raised (text : String)
  | other (text : String)
  deriving DecidableEq, Repr

/-- An instantiation fault in words. -/
def InstantiationFault.message : InstantiationFault → String
  | invalid => unreadableText
  | unknownImport module name => s!"unknown import: `{module}::{name}` has not been defined"
  | definedTwice module name => s!"import of `{module}::{name}` defined twice"
  | incompatible module name => s!"incompatible import type for `{module}::{name}`"
  | raised text => text
  | other text => text

/-- Why memory or table could not grow. -/
inductive GrowthFault where
  | pages (wanted limit : Nat)
  | slots (wanted limit : Nat)
  | memoryRefused (delta : Nat)
  | tableRefused (delta : Nat)
  | tableKind
  | other (text : String)
  deriving DecidableEq, Repr

/-- A growth fault in words. -/
def GrowthFault.message : GrowthFault → String
  | pages wanted limit => s!"unit needs {wanted} memory pages, limit is {limit}"
  | slots wanted limit => s!"unit needs {wanted} table slots, limit is {limit}"
  | memoryRefused delta => s!"memory.grow: failed to grow memory by `{delta}`"
  | tableRefused delta => s!"table.grow: failed to grow table by `{delta}`"
  | tableKind => "table.grow: value does not match table element type"
  | other text => text

/-- Which half of a function's type is at odds. -/
inductive Side where
  | parameters
  | results
  deriving DecidableEq, Repr

/-- The word for it. -/
def Side.name : Side → String
  | parameters => "parameters"
  | results => "results"

/-- Why an export cannot be used. -/
inductive ExportFault where
  | noMemory
  | noTable
  | noFunction (name : String)
  | count (name : String) (side : Side) (expected found : Nat)
  | type (name : String) (side : Side) (expected found : String)
  | other (text : String)
  deriving DecidableEq, Repr

/-- An export fault in words. -/
def ExportFault.message : ExportFault → String
  | noMemory => "base form must export its linear memory"
  | noTable => "base form must export its indirect-call table"
  | noFunction name => s!"failed to find function export `{name}`"
  | count name side expected found =>
    s!"failed to convert function `{name}` to given type: type mismatch with {side.name}: " ++
      s!"expected {expected} types, found {found}"
  | type name side expected found =>
    s!"failed to convert function `{name}` to given type: type mismatch with {side.name}: " ++
      s!"expected {expected} found {found}"
  | other text => text

/-- Why running code failed, if no host call says so. -/
inductive ExecutionFault where
  | trap (trap : Trap)
  | other (text : String)
  deriving DecidableEq, Repr

/-- An execution fault in words. -/
def ExecutionFault.message : ExecutionFault → String
  | trap t => t.message
  | other text => text

/-- The regions a unit is placed in. -/
inductive Region where
  | memory
  | table
  deriving DecidableEq, Repr

/-- The word for it. -/
def Region.name : Region → String
  | memory => "memory"
  | table => "table"

/-- Where a session stands. -/
inductive Lifecycle where
  | loading
  | ready
  | evaluating
  | failed
  deriving DecidableEq, Repr

/-- The word for it. -/
def Lifecycle.name : Lifecycle → String
  | loading => "Loading"
  | ready => "Ready"
  | evaluating => "Evaluating"
  | failed => "Failed"

/-- Everything that can go wrong. -/
inductive Failure where
  /-- A byte range exceeds memory. -/
  | outOfBounds (address count size : Nat)
  /-- A group was closed while none was open. -/
  | unbalancedGroup
  /-- A unit reported an unrecoverable failure. -/
  | fatal (text : String)
  /-- A unit's static initializer returned something other than zero. -/
  | staticInit (unit : Nat) (code : Int32)
  | instantiation (fault : InstantiationFault)
  | compilation (fault : CompilationFault)
  /-- A unit asked for a base below the previous unit's. -/
  | offsetRegression (region : Region) (requested : Int) (previous : Nat)
  | resourceLimit (fault : GrowthFault)
  | missingExport (name : String) (fault : ExportFault)
  | execution (fault : ExecutionFault)
  /-- A host call ran before the base had finished loading. -/
  | programNotLoaded
  /-- A session does not take submissions in its current state. -/
  | notReady (state : Lifecycle)
  | sessionClosed
  | threadSpawn (text : String)
  deriving DecidableEq, Repr

/-- A failure in words. -/
def Failure.message : Failure → String
  | outOfBounds address count size =>
    s!"out of bounds: {count} bytes at {address} exceed memory of {size} bytes"
  | unbalancedGroup => "unbalanced group: group_end called at depth 0"
  | fatal text => text
  | staticInit unit code => s!"static initialization of unit {unit} failed with code {code.toInt}"
  | instantiation fault => "instantiation failed: " ++ fault.message
  | compilation fault => "compilation failed: " ++ fault.message
  | offsetRegression region requested previous =>
    s!"{region.name} base {requested} is below the previous unit's base {previous}"
  | resourceLimit fault => "resource limit exceeded: " ++ fault.message
  | missingExport name fault => s!"missing export `{name}`: {fault.message}"
  | execution fault => "execution failed: " ++ fault.message
  | programNotLoaded => "program not loaded"
  | notReady state => s!"session is {state.name}, not Ready"
  | sessionClosed => "session closed"
  | threadSpawn text => "failed to start session thread: " ++ text

/-- What stops running code on its way out. -/
inductive Raised where
  /-- A host call failed. -/
  | failure (failure : Failure)
  /-- The code trapped. -/
  | trap (trap : Trap)
  /-- An error from elsewhere. No host call and no code raises one. -/
  | foreign (text : String)
  /-- Words put in front by whoever handed it on. No frame does that. -/
  | noted (note : String) (inner : Raised)
  /-- It left a call. The engine's account of the calls left, which is not part of the words, has
  one line more. -/
  | traced (inner : Raised)
  deriving DecidableEq, Repr

namespace Raised

/-- The notes, outermost first, and the cause in words. -/
def text : Raised → String
  | failure f => f.message
  | trap t => t.message
  | foreign text => text
  | noted note inner => note ++ ": " ++ inner.text
  | traced inner => inner.text

/-- The host call's failure inside. -/
def carried? : Raised → Option Failure
  | failure f => some f
  | noted _ inner | traced inner => inner.carried?
  | _ => none

/-- The trap, if there are no other words. -/
def trap? : Raised → Option Trap
  | trap t => some t
  | traced inner => inner.trap?
  | _ => none

/-- What is reported once running code has stopped. -/
def recover (r : Raised) : Failure :=
  match r.carried?, r.trap? with
  | some f, _ => f
  | none, some t => .execution (.trap t)
  | none, none => .execution (.other r.text)

@[simp] theorem recover_traced (r : Raised) : r.traced.recover = r.recover := rfl

end Raised

end UnitHost
