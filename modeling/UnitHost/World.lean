import UnitHost.Engine
import UnitHost.Program

/-!
# The state around running code

`World` is all that code of one session can reach or change: the objects of the store, the program,
the console and log, and the response posted for the submission at hand. An `Action` changes the
world and may fail; what it changed before failing stays changed.
-/

namespace UnitHost

open Wasm

/-- All that the code of one session can reach. -/
structure World where
  engine : Engine
  config : Config
  store : Store := {}
  /-- The program, once the base is in place. -/
  program : Option Program := none
  /-- The first response posted for the submission at hand. -/
  pending : Option Response := none
  journal : Journal := {}
  /-- Nanoseconds from the start of the session to the start of the submission at hand. -/
  clock : Nat := 0

/-- A change of the world that may fail. -/
abbrev Action (α : Type) := ExceptT Failure (StateM World) α

namespace World

/-- Adds a log record. -/
def note (w : World) (n : Notice) : World := { w with journal := w.journal.note n }

/-- Adds log records. -/
def noteAll (w : World) (ns : List Notice) : World := ns.foldl note w

/-- The number of groups open. -/
def depth (w : World) : Nat := w.journal.console.depth

/-- The units linked so far. -/
def units (w : World) : List LinkedUnit := (w.program.map (·.units)).getD []

/-- Posts a response. Only the first counts. -/
def post (w : World) (r : Response) : World :=
  match w.pending with
  | some _ => w.note (.extraResult r)
  | none => { w with pending := some r }

/-- Takes the posted response away. -/
def takeResponse (w : World) : Option Response × World :=
  (w.pending, { w with pending := none })

/-- Changes the program. -/
def updateProgram (w : World) (f : Program → Program) : World :=
  { w with program := w.program.map f }

/-- Appends a unit and gives its index. -/
def append (w : World) (l : Linking) (state : UnitState) : Nat × World :=
  (w.units.length, w.updateProgram (·.append l state))

/-- Publishes exports. -/
def publish (w : World) (exports : List (String × Extern)) : World :=
  match w.program with
  | none => w
  | some p =>
    let abi := w.config.abi
    (w.noteAll (p.symbols.notices abi exports)).updateProgram fun p =>
      { p with symbols := p.symbols.publish abi exports }

/-- The shared memory. -/
def memory (w : World) (p : Program) : Memory := w.store.memory p.memory

/-- The shared table. -/
def table (w : World) (p : Program) : Table := w.store.table p.table

end World

namespace Action

/-- The program, which has to be in place. -/
def program : Action Program := do
  match (← get).program with
  | some p => pure p
  | none => throw .programNotLoaded

/-- Adds a log record. -/
def note (n : Notice) : Action Unit := modify (·.note n)

/-- Lifts a result. -/
def ofExcept (r : Except Failure α) : Action α :=
  match r with
  | .ok a => pure a
  | .error f => throw f

/-- Carries an action out and gives its failure as a result. -/
def attempt (a : Action α) : Action (Except Failure α) := ExceptT.mk (Except.ok <$> a.run)

/-- Reads a text from the shared memory. -/
def decode (address count : UInt32) : Action String := do
  let p ← program
  let (address, count) := wordRange address count
  ofExcept (((← get).memory p).readText address count)

/-- A message on a channel. -/
def message (channel : Channel) (address count : UInt32) : Action Unit := do
  let text ← decode address count
  modify fun w => { w with journal := w.journal.message channel text }

/-- Opens a group. -/
def group (address count : UInt32) : Action Unit := do
  let label ← decode address count
  modify fun w => { w with journal := w.journal.openGroup label }

/-- Closes the innermost group. -/
def groupEnd : Action Unit := do
  let journal ← ofExcept (← get).journal.closeGroup
  modify fun w => { w with journal }

/-- Closes every group, then fails with the text as its last message. A range out of bounds is
reported after the groups are closed. -/
def panicError (address count : UInt32) : Action Unit := do
  let text ← attempt (decode address count)
  modify fun w => { w with journal := w.journal.unwind }
  let text ← ofExcept text
  modify fun w => { w with journal := w.journal.message .error text }
  throw (.fatal text)

/-- A timing mark. It never fails; a range out of bounds is only logged. -/
def mark (address count : UInt32) : Action Unit := do
  match ← attempt (decode address count) with
  | .ok name => modify fun w => { w with journal := w.journal.mark name w.clock }
  | .error failure => note (.markIgnored failure)

/-- Posts a response. -/
def post (wrap : String → Response) (address count : UInt32) : Action Unit := do
  let text ← decode address count
  modify (·.post (wrap text))

/-- What a host call does by itself. A link is carried out by the machine. -/
def hostCall (call : HostCall) (address count : UInt32) : Action Unit :=
  match call with
  | .log => message .log address count
  | .warn => message .warn address count
  | .error => message .error address count
  | .panicError => panicError address count
  | .group => group address count
  | .groupEnd => groupEnd
  | .mark => mark address count
  | .postOutput => post .output address count
  | .postError => post .error address count
  | .compileInit => pure ()

end Action

end UnitHost
