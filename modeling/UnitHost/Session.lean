import UnitHost.Machine

/-!
# Sessions

A session owns one program. It is loaded from a compiled base and then answers each submitted text
with exactly one response. Loading and submitting take an amount of fuel and give `none` only if the
code has not ended within it.
-/

namespace UnitHost

open Wasm

namespace Action

/-- The host calls under their configured names, in order, and then the version. -/
def surface : Action Definitions := do
  let abi := (← get).config.abi
  let calls ← HostCall.all.foldlM (fun d call =>
    define d (abi.hostModule call) (abi.hostName call) (.func (.host call))) {}
  let version ← constant surfaceVersion
  define calls abi.envModule surfaceVersionName version

/-- The function a base exports under a name, with exactly the given type. -/
def baseExport (owner : Instance) (name : String) (type : FuncType) : Action Callee := do
  ofExcept (typedExport (← get).store owner name type)

end Action

/-- What the host needs of a base. -/
structure BaseExports where
  memory : Nat
  table : Nat
  initializer : Callee
  evaluate : Callee

namespace Action

/-- The exports the host needs of a base. -/
def baseExports (owner : Instance) : Action BaseExports := do
  let abi := (← get).config.abi
  let memory ← match owner.export? abi.memory with
    | some (.memory address) => pure address
    | _ => throw (.missingExport abi.memory .noMemory)
  let table ← match owner.export? abi.table with
    | some (.table address) => pure address
    | _ => throw (.missingExport abi.table .noTable)
  let initializer ← baseExport owner abi.initializer {}
  let evaluate ← baseExport owner abi.evaluate { params := [.i32, .i32] }
  let _ ← baseExport owner abi.reportResult reportType
  pure { memory, table, initializer, evaluate }

/-- Puts the program in place: its memory and table join the surface, its exports are published. -/
def install (surface : Definitions) (owner : Instance) (e : BaseExports) : Action Unit := do
  let abi := (← get).config.abi
  let surface ← define surface abi.systemModule abi.importMemory (.memory e.memory)
  let surface ← define surface abi.systemModule abi.importTable (.table e.table)
  modify fun w => { w with program := some { base := owner, memory := e.memory, table := e.table, surface } }
  modify (·.publish owner.symbols)

end Action

/-- An action that may run code; `none` if the code has not ended within the fuel. -/
abbrev Run (α : Type) := ExceptT Failure (StateT World Option) α

namespace Run

/-- An action that runs no code. -/
def ofAction (a : Action α) : Run α := ExceptT.mk fun w => some (a.run.run w)

/-- Calls a function; what stops it is described by `fail`. -/
def call (fuel : Nat) (callee : Callee) (args : List Value) (fail : Raised → Failure) :
    Run (List Value) :=
  ExceptT.mk fun w => (w.callFunction fuel callee args).map fun (w, outcome) =>
    (outcome.mapError fail, w)

/-- A module joins the store and its start function runs. -/
def instantiate (fuel : Nat) (d : Definitions) (m : Module) : Run Instance := do
  let owner ← ofAction (.instantiate d m)
  if let some callee := m.start.bind (owner.funcs[·]?) then
    let _ ← call fuel callee [] fun r => .instantiation (.raised r.text)
  pure owner

/-- Puts a base in place, up to its initializer. -/
def place (fuel : Nat) (base : Module) : Run BaseExports := do
  let surface ← ofAction .surface
  let owner ← instantiate fuel surface base
  let e ← ofAction (.baseExports owner)
  ofAction (.install surface owner e)
  pure e

/-- Puts a base in place and runs its initializer. A response posted meanwhile is discarded. -/
def load (fuel : Nat) (base : Module) : Run BaseExports := do
  let e ← place fuel base
  let _ ← call fuel e.initializer [] Raised.recover
  if let some stale := (← get).pending then
    modify fun w => { w with pending := none }
    modify (·.note (.staleResult stale))
  modify fun w => w.note (.ready (w.store.memory e.memory).pages (w.store.table e.table).size)
  pure e

end Run

/-- A submission and its answer. -/
structure HistoryEntry where
  input : String
  response : Response
  deriving DecidableEq, Repr

/-- A loaded session. -/
structure Session where
  world : World
  /-- Address of the shared memory. -/
  memory : Nat
  /-- Address of the shared table. -/
  table : Nat
  /-- The base's evaluator. -/
  evaluate : Callee
  state : Lifecycle := .ready
  /-- Submissions in order. -/
  history : List HistoryEntry := []

/-- What observers see of a program. -/
structure Snapshot where
  memory : Memory
  tableSize : Nat
  units : List UnitSummary
  groupDepth : Nat

/-- Why a session could not be loaded, and what had been recorded by then. -/
structure LoadFailure where
  failure : Failure
  journal : Journal

namespace Session

/-- The text that answers an evaluation without a result. -/
def nothingPosted : String := "evaluation finished without posting a result"

/-- Loads a session from a compiled base. Records made before go in front of its log. -/
def load (fuel : Nat) (engine : Engine) (base : Module) (config : Config)
    (log : Array Notice := #[]) : Option (Except LoadFailure Session) := do
  match ← (Run.load fuel base).run.run { engine, config, journal := { log } } with
  | (.ok e, world) =>
    some (.ok { world, memory := e.memory, table := e.table, evaluate := e.evaluate })
  | (.error failure, world) => some (.error { failure, journal := world.journal })

/-- Builds the engine of a configuration, compiles a base and loads a session from it. -/
def start (fuel : Nat) (config : Config) (base : List UInt8) : Option (Except LoadFailure Session) :=
  match (Engine.build config).bind fun e => (e, ·) <$> e.compileBase base with
  | .error failure => some (.error { failure, journal := {} })
  | .ok (engine, m) =>
    load fuel engine m config #[.compiledBase m.imports.length m.exports.length]

/-- What answers an evaluation that ended: a fatal failure before all else, then the first response
posted, then the failure or the lack of a response. -/
def settle (outcome : Outcome) (posted : Option Response) : Response :=
  match outcome, posted with
  | .ok _, some r => r
  | .ok _, none => .error nothingPosted
  | .error raised, posted =>
    match raised.recover, posted with
    | .fatal text, _ => .error text
    | _, some r => r
    | failure, none => .error failure.message

/-- What the host does after a failed evaluation: it closes every group, and reports a failure that a
posted response hides. -/
def clean (w : World) (raised : Raised) (posted : Option Response) : World :=
  let w := { w with journal := w.journal.unwind }
  match raised.recover, posted with
  | .fatal _, _ => w
  | failure, some _ => w.note (.failedAfterPosting failure)
  | _, none => w

/-- The evaluator about to be called on a text, which has to fit into memory. -/
def evaluation (s : Session) (text : String) : Except Failure Machine := do
  let w := s.world
  let (length, m) ← (w.store.memory s.memory).writeText text
  .ok {
    world := { w with store := w.store.setMemory s.memory m }
    control := .call s.evaluate
      [.i32 (UInt32.ofNat Memory.scratchOffset), .i32 (UInt32.ofNat length)] }

/-- Evaluates a text. One that does not fit into memory is answered at once. -/
def evaluateText (fuel : Nat) (s : Session) (text : String) : Option (Response × World) := do
  match s.evaluation text with
  | .error failure => some (.error failure.message, s.world)
  | .ok m =>
    let (w, outcome) ← m.run fuel
    let (posted, w) := w.takeResponse
    let w := match outcome with
      | .ok _ => w
      | .error raised => clean w raised posted
    some (settle outcome posted, w)

/-- Answers a submission. Only a session that is ready takes one. -/
def submit (fuel : Nat) (s : Session) (text : String) : Option (Except Failure Response × Session) :=
  if s.state ≠ .ready then some (.error (.notReady s.state), s)
  else (s.evaluateText fuel text).map fun (response, w) =>
    (.ok response,
      { s with
        world := w.note (.submission s.history.length response)
        state := .ready
        history := s.history ++ [{ input := text, response }] })

/-- The console entries since the last drain. -/
def drainConsole (s : Session) : Array Event × Session :=
  let (events, journal) := s.world.journal.drain
  (events, { s with world := { s.world with journal } })

/-- The log records since they were last taken. -/
def takeLog (s : Session) : Array Notice × Session :=
  let (log, journal) := s.world.journal.takeLog
  (log, { s with world := { s.world with journal } })

/-- Sets the time that marks of the next submission carry. -/
def atTime (s : Session) (nanos : Nat) : Session :=
  { s with world := { s.world with clock := nanos } }

/-- The number of groups open. -/
def groupDepth (s : Session) : Nat := s.world.depth

/-- The units linked so far. -/
def units (s : Session) : List UnitSummary := s.world.units.map (·.summary)

/-- Pages of the shared memory. -/
def memoryPages (s : Session) : Nat := (s.world.store.memory s.memory).pages

/-- Slots of the shared table. -/
def tableSize (s : Session) : Nat := (s.world.store.table s.table).size

/-- What observers see of the program. -/
def snapshot (s : Session) : Snapshot where
  memory := s.world.store.memory s.memory
  tableSize := s.tableSize
  units := s.units
  groupDepth := s.groupDepth

end Session

end UnitHost
