import UnitHost.Memory
import UnitHost.Table
import UnitHost.Wasm.Value

/-!
# Store

The objects of a running program and how a module joins them. Objects live at addresses and are
never removed. `Definitions` says what is found under a pair of module and name; a module is
instantiated by looking up all its imports first, then checking their types, then allocating its
own objects and writing its segments.
-/

namespace UnitHost

open Wasm

/-- A global variable. -/
structure Global where
  type : GlobalType
  value : Value
  deriving DecidableEq, Repr

/-- An object by its address. -/
inductive Extern where
  | func (callee : Callee)
  | memory (address : Nat)
  | table (address : Nat)
  | global (address : Nat)
  deriving DecidableEq, Repr

/-- A module that has joined the store: where each of its indices points, and its exports in order
of declaration. -/
structure Instance where
  funcs : List Callee := []
  memories : List Nat := []
  tables : List Nat := []
  globals : List Nat := []
  exports : List (String × Extern) := []

namespace Instance

/-- The object exported under a name. -/
def export? (i : Instance) (name : String) : Option Extern := i.exports.lookup name

/-- The exports a later unit can import: functions and globals. -/
def symbols (i : Instance) : List (String × Extern) :=
  i.exports.filter fun
    | (_, .func _) | (_, .global _) => true
    | _ => false

end Instance

/-- Code together with the instance it runs in. -/
structure Closure where
  owner : Instance
  func : Func

/-- The objects of a running program. -/
structure Store where
  funcs : Array Closure := #[]
  memories : Array Memory := #[]
  tables : Array Table := #[]
  globals : Array Global := #[]

namespace Store

/-- The memory at an address. -/
def memory (s : Store) (address : Nat) : Memory := s.memories[address]?.getD (.zeroed 0)

/-- The table at an address. -/
def table (s : Store) (address : Nat) : Table := s.tables[address]?.getD (.empty .func 0)

/-- The value of the global at an address. -/
def globalValue (s : Store) (address : Nat) : Value := (s.globals[address]?.map (·.value)).getD .null

/-- Replaces the memory at an address. -/
def setMemory (s : Store) (address : Nat) (m : Memory) : Store :=
  { s with memories := s.memories.setIfInBounds address m }

/-- Replaces the table at an address. -/
def setTable (s : Store) (address : Nat) (t : Table) : Store :=
  { s with tables := s.tables.setIfInBounds address t }

/-- Sets the global at an address. -/
def setGlobal (s : Store) (address : Nat) (v : Value) : Store :=
  { s with globals := s.globals.modify address ({ · with value := v }) }

/-- A new global that never changes, and its address. -/
def constant (s : Store) (n : UInt32) : Nat × Store :=
  (s.globals.size, { s with globals := s.globals.push { type := { type := .i32 }, value := .i32 n } })

/-- The type of what can be called. -/
def calleeType (s : Store) : Callee → FuncType
  | .host call => call.type
  | .code address => (s.funcs[address]?.map (·.func.type)).getD {}

/-- The size is at least the least one asked for. If a greatest one is asked for, the object has one
too and it is not larger. -/
def withinLimits (size : Nat) (maximum : Option Nat) (l : Limits) : Bool :=
  l.min ≤ size && l.max.all fun most => maximum.any (· ≤ most)

/-- Whether an object can serve an import of the given type. -/
def fits (s : Store) (object : Extern) (type : ExternType) : Bool :=
  match object, type with
  | .func callee, .func type => s.calleeType callee == type
  | .memory address, .memory limits =>
    (s.memories[address]?).any fun m => withinLimits m.pages m.maximum limits
  | .table address, .table type =>
    (s.tables[address]?).any fun t =>
      t.kind == type.kind && withinLimits t.size t.maximum type.limits
  | .global address, .global type => (s.globals[address]?).any (·.type == type)
  | _, _ => false

end Store

/-- What is found under pairs of module and name, in order of definition. -/
structure Definitions where
  entries : List ((String × String) × Extern) := []

namespace Definitions

/-- The object under a pair. -/
def find? (d : Definitions) (module name : String) : Option Extern :=
  d.entries.lookup (module, name)

/-- Defines a pair, which must not be defined yet. -/
def define (d : Definitions) (module name : String) (object : Extern) :
    Except InstantiationFault Definitions :=
  match d.find? module name with
  | some _ => .error (.definedTwice module name)
  | none => .ok { entries := d.entries ++ [((module, name), object)] }

/-- The objects for a list of imports: the first that is unknown is reported, then the first whose
type does not fit. -/
def resolve (d : Definitions) (s : Store) (imports : List Import) :
    Except InstantiationFault (List Extern) := do
  let objects ← imports.mapM fun i =>
    match d.find? i.module i.name with
    | some object => .ok object
    | none => .error (.unknownImport i.module i.name)
  match (imports.zip objects).find? fun (i, object) => !s.fits object i.type with
  | some (i, _) => .error (.incompatible i.module i.name)
  | none => .ok objects

end Definitions

namespace Store

/-- The value of a constant, given where the module's globals live. -/
def constantValue (s : Store) (globals : List Nat) : Constant → Value
  | .i32 n => .i32 n
  | .i64 n => .i64 n
  | .null _ => .null
  | .global i => (globals[i]?.map s.globalValue).getD .null

/-- Adds a module's own objects to those it imports. -/
def allocate (s : Store) (m : Module) (imports : List Extern) : Instance × Store :=
  let importedFuncs := imports.filterMap fun | .func f => some f | _ => none
  let importedMemories := imports.filterMap fun | .memory a => some a | _ => none
  let importedTables := imports.filterMap fun | .table a => some a | _ => none
  let importedGlobals := imports.filterMap fun | .global a => some a | _ => none
  let funcs := importedFuncs ++ (List.range' s.funcs.size m.funcs.length).map .code
  let memories := importedMemories ++ List.range' s.memories.size m.memories.length
  let tables := importedTables ++ List.range' s.tables.size m.tables.length
  let globals := importedGlobals ++ List.range' s.globals.size m.globals.length
  let object (e : Export) : Option Extern :=
    match e.kind with
    | .func => funcs[e.index]?.map .func
    | .memory => memories[e.index]?.map .memory
    | .table => tables[e.index]?.map .table
    | .global => globals[e.index]?.map .global
  let exports := m.exports.filterMap fun e => (object e).map (e.name, ·)
  let owner : Instance := { funcs, memories, tables, globals, exports }
  let newGlobals := m.globals.map fun (type, init) =>
    { type, value := s.constantValue importedGlobals init : Global }
  (owner,
    { funcs := s.funcs ++ (m.funcs.map ({ owner, func := · : Closure })).toArray
      memories := s.memories ++ (m.memories.map fun l => Memory.zeroed l.min l.max).toArray
      tables := s.tables ++ (m.tables.map fun t => Table.empty t.kind t.limits.min t.limits.max).toArray
      globals := s.globals ++ newGlobals.toArray })

/-- Writes one element segment; one that does not fit writes nothing. -/
def writeElements (s : Store) (owner : Instance) (e : Elements) : Except Trap Store :=
  let address := owner.tables.getD e.table 0
  let start := (s.constantValue owner.globals e.offset).word.toNat
  match (s.table address).write? start (e.funcs.filterMap (owner.funcs[·]?)) with
  | some t => .ok (s.setTable address t)
  | none => .error .tableBounds

/-- Writes one data segment; one that does not fit writes nothing. -/
def writeData (s : Store) (owner : Instance) (d : Data) : Except Trap Store :=
  let address := owner.memories.getD d.memory 0
  let start := (s.constantValue owner.globals d.offset).word.toNat
  match (s.memory address).write? start d.bytes with
  | some m => .ok (s.setMemory address m)
  | none => .error .memoryBounds

/-- Writes segments in order, up to the first that does not fit. What was written before stays. -/
def writeEach (write : Store → α → Except Trap Store) (s : Store) : List α → Except Trap Unit × Store
  | [] => (.ok (), s)
  | x :: rest =>
    match write s x with
    | .ok s => writeEach write s rest
    | .error t => (.error t, s)

/-- Writes a module's segments, elements before data. -/
def writeSegments (s : Store) (m : Module) (owner : Instance) : Except Trap Unit × Store :=
  match s.writeEach (·.writeElements owner ·) m.elements with
  | (.ok (), s) => s.writeEach (·.writeData owner ·) m.data
  | failed => failed

/-- A module joins the store, up to its start function. -/
def instantiate (s : Store) (d : Definitions) (m : Module) :
    Except InstantiationFault Instance × Store :=
  match d.resolve s m.imports with
  | .error fault => (.error fault, s)
  | .ok imports =>
    let (owner, s) := s.allocate m imports
    match s.writeSegments m owner with
    | (.ok (), s) => (.ok owner, s)
    | (.error trap, s) => (.error (.raised trap.message), s)

end Store

end UnitHost
