/-!
# Types

Value, function and object types, as module imports declare them and instances carry them.
-/

namespace UnitHost.Wasm

/-- What a table holds. -/
inductive RefType where
  | func
  | external
  deriving DecidableEq, Repr

/-- Types of values. -/
inductive ValType where
  | i32
  | i64
  | f32
  | f64
  | ref (kind : RefType)
  deriving DecidableEq, Repr

namespace ValType

/-- How a type is written. -/
def name : ValType → String
  | i32 => "i32"
  | i64 => "i64"
  | f32 => "f32"
  | f64 => "f64"
  | ref .func => "funcref"
  | ref .external => "externref"

/-- Numbers, as opposed to references. -/
def isNumber : ValType → Bool
  | ref _ => false
  | _ => true

end ValType

/-- Types of functions. -/
structure FuncType where
  params : List ValType := []
  results : List ValType := []
  deriving DecidableEq, Repr

/-- A least size and perhaps a greatest. -/
structure Limits where
  min : Nat
  max : Option Nat := none
  deriving DecidableEq, Repr

/-- Types of tables. -/
structure TableType where
  limits : Limits
  kind : RefType
  deriving DecidableEq, Repr

/-- Types of globals. -/
structure GlobalType where
  mutable : Bool := false
  type : ValType
  deriving DecidableEq, Repr

/-- Types of what a module imports. -/
inductive ExternType where
  | func (type : FuncType)
  | memory (limits : Limits)
  | table (type : TableType)
  | global (type : GlobalType)
  deriving DecidableEq, Repr

end UnitHost.Wasm
