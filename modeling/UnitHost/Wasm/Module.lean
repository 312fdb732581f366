import UnitHost.Wasm.Type

/-!
# Modules

A module with every name resolved to an index. Blocks are nested in their enclosing code, a
branch counts blocks outwards, and each indirect call carries the function type it expects.
-/

namespace UnitHost.Wasm

/-- Operations on one 32-bit word. -/
inductive Unary where
  | clz | ctz | popcnt | eqz
  deriving DecidableEq, Repr

/-- Operations on two 32-bit words. -/
inductive Binary where
  | add | sub | mul | divS | divU | remS | remU
  | and | or | xor | shl | shrS | shrU | rotl
  | eq | ltS | ltU | gtU
  deriving DecidableEq, Repr

/-- How many bytes a memory access moves. -/
inductive Width where
  | byte
  | word
  deriving DecidableEq, Repr

/-- The number of bytes. -/
def Width.bytes : Width → Nat
  | byte => 1
  | word => 4

/-- Which bytes an access moves: a memory, the width, the constant added to the address and the
promised alignment. -/
structure Access where
  memory : Nat := 0
  width : Width
  offset : Nat := 0
  align : Nat
  deriving DecidableEq, Repr

/-- Instructions: constants, the operations above on 32-bit words, access to memory by bytes and
words, locals and globals, control, calls, and the sizes of memories and tables. Other instructions
of the format, such as arithmetic on 64-bit words and on fractions, are left out. -/
inductive Instr where
  | i32 (n : UInt32)
  | i64 (n : UInt64)
  | null (kind : RefType)
  | unary (op : Unary)
  | binary (op : Binary)
  | load (access : Access)
  | store (access : Access)
  | localGet (index : Nat)
  | localSet (index : Nat)
  | globalGet (index : Nat)
  | globalSet (index : Nat)
  | block (type : FuncType) (body : List Instr)
  | loop (type : FuncType) (body : List Instr)
  | branch (type : FuncType) (yes no : List Instr)
  | br (label : Nat)
  | brIf (label : Nat)
  | brTable (labels : List Nat) (otherwise : Nat)
  | ret
  | call (func : Nat)
  | callIndirect (table : Nat) (type : FuncType)
  | drop
  | select (type : Option ValType)
  | unreachable
  | memorySize (memory : Nat)
  | memoryGrow (memory : Nat)
  | memoryFill (memory : Nat)
  | tableSize (table : Nat)
  | tableGrow (table : Nat)
  deriving Repr

/-- Values known when a module is instantiated. -/
inductive Constant where
  | i32 (n : UInt32)
  | i64 (n : UInt64)
  | null (kind : RefType)
  | global (index : Nat)
  deriving DecidableEq, Repr

/-- An object the module takes from outside. -/
structure Import where
  module : String
  name : String
  type : ExternType
  deriving DecidableEq, Repr

/-- The kinds of object a module can hold. -/
inductive ObjectKind where
  | func
  | memory
  | table
  | global
  deriving DecidableEq, Repr

/-- An object the module gives outside. -/
structure Export where
  name : String
  kind : ObjectKind
  index : Nat
  deriving DecidableEq, Repr

/-- A function of the module itself. -/
structure Func where
  type : FuncType
  locals : List ValType
  body : List Instr

/-- Functions written into a table at instantiation. -/
structure Elements where
  table : Nat
  offset : Constant
  funcs : List Nat

/-- Bytes written into a memory at instantiation. -/
structure Data where
  memory : Nat
  offset : Constant
  bytes : List UInt8

/-- A module. Each index space holds the imports first, then the module's own objects. -/
structure Module where
  imports : List Import := []
  funcs : List Func := []
  memories : List Limits := []
  tables : List TableType := []
  globals : List (GlobalType × Constant) := []
  exports : List Export := []
  elements : List Elements := []
  data : List Data := []
  start : Option Nat := none

namespace Module

/-- The types of all functions, imported ones first. -/
def funcTypes (m : Module) : List FuncType :=
  m.imports.filterMap (fun i => match i.type with | .func t => some t | _ => none) ++
    m.funcs.map (·.type)

/-- The limits of all memories, imported ones first. -/
def memoryTypes (m : Module) : List Limits :=
  m.imports.filterMap (fun i => match i.type with | .memory t => some t | _ => none) ++ m.memories

/-- The types of all tables, imported ones first. -/
def tableTypes (m : Module) : List TableType :=
  m.imports.filterMap (fun i => match i.type with | .table t => some t | _ => none) ++ m.tables

/-- The types of imported globals. -/
def importedGlobals (m : Module) : List GlobalType :=
  m.imports.filterMap (fun i => match i.type with | .global t => some t | _ => none)

/-- The types of all globals, imported ones first. -/
def globalTypes (m : Module) : List GlobalType :=
  m.importedGlobals ++ m.globals.map (·.1)

end Module

end UnitHost.Wasm
