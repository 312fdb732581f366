import UnitHost.Notice
import UnitHost.Store

/-!
# Programs

The evolving state of one session's code: the base, the memory and table it shares, the units
linked so far and the symbols later units can import. Units are only ever appended; a later
definition of a symbol replaces an earlier one.
-/

namespace UnitHost

open Wasm

/-- How far a unit got. -/
inductive UnitState where
  /-- Its static initializer failed; it is kept but does nothing. -/
  | failed
  /-- Its static initializer succeeded, its main entry point did not return. -/
  | initialized
  /-- Its main entry point returned a value. -/
  | executed (result : Int32)
  deriving DecidableEq, Repr

namespace UnitState

/-- The state as shown. -/
def text : UnitState → String
  | failed => "UnitState(FAILED)"
  | initialized => "UnitState(INITIALIZED)"
  | executed _ => "UnitState(INITIALIZED | EXECUTED)"

/-- What the main entry point returned. -/
def result? : UnitState → Option Int32
  | executed result => some result
  | _ => none

end UnitState

/-- A unit whose entry points are about to run or have run. -/
structure Linking where
  /-- The module as it stood in memory when the link began. -/
  bytes : List UInt8
  module : Module
  owner : Instance
  memoryBase : Nat
  tableBase : Nat

/-- A unit of the program. -/
structure LinkedUnit extends Linking where
  /-- Its place in the program. -/
  index : Nat
  state : UnitState

namespace LinkedUnit

/-- Both entry points have run. -/
def isFunctional (u : LinkedUnit) : Bool := u.state.result?.isSome

/-- The names of its exported functions and globals, in order of declaration. -/
def exportNames (u : LinkedUnit) : List String := u.owner.symbols.map (·.1)

end LinkedUnit

/-- A unit as observers see it. -/
structure UnitSummary where
  index : Nat
  byteCount : Nat
  memoryBase : Nat
  tableBase : Nat
  exports : List String
  state : UnitState
  deriving DecidableEq, Repr

/-- What observers see of a unit. -/
def LinkedUnit.summary (u : LinkedUnit) : UnitSummary where
  index := u.index
  byteCount := u.bytes.length
  memoryBase := u.memoryBase
  tableBase := u.tableBase
  exports := u.exportNames
  state := u.state

/-- Published exports: the latest definition of each name. -/
structure Symbols where
  entries : List (String × Extern) := []

namespace Symbols

/-- The current definition of a name. -/
def find? (s : Symbols) (name : String) : Option Extern := s.entries.lookup name

/-- Replaces the definition of a name, or adds one. -/
def insertEntry (name : String) (object : Extern) : List (String × Extern) → List (String × Extern)
  | [] => [(name, object)]
  | (other, old) :: rest =>
    if other == name then (name, object) :: rest else (other, old) :: insertEntry name object rest

/-- Binds a name. -/
def insert (s : Symbols) (name : String) (object : Extern) : Symbols :=
  { entries := insertEntry name object s.entries }

/-- Binds exports in order, leaving out reserved names. -/
def publish (s : Symbols) (abi : Abi) (exports : List (String × Extern)) : Symbols :=
  exports.foldl (fun s (name, object) => if abi.isReserved name then s else s.insert name object) s

/-- What publishing exports reports, in order. -/
def notices (s : Symbols) (abi : Abi) : List (String × Extern) → List Notice
  | [] => []
  | (name, object) :: rest =>
    if abi.isReserved name then .reservedExport name :: notices s abi rest
    else
      let more := notices (s.insert name object) abi rest
      if (s.find? name).isSome then .shadowed name :: more else more

end Symbols

/-- The program of a session. -/
structure Program where
  base : Instance
  /-- Address of the shared memory. -/
  memory : Nat
  /-- Address of the shared table. -/
  table : Nat
  /-- The host calls, the version, the shared memory and the shared table. -/
  surface : Definitions
  units : List LinkedUnit := []
  symbols : Symbols := {}

namespace Program

/-- The bases of the latest unit, zero if there is none. -/
def floor (p : Program) : Nat × Nat :=
  match p.units.getLast? with
  | some u => (u.memoryBase, u.tableBase)
  | none => (0, 0)

/-- Appends a unit. -/
def append (p : Program) (l : Linking) (state : UnitState) : Program :=
  { p with units := p.units ++ [{ l with index := p.units.length, state }] }

end Program

end UnitHost
