import UnitHost.Wasm.Module

/-!
# Typing

A module is valid if every index it uses exists, its limits are in range, its exports have
different names, and its code is well typed. Code is typed by the operands it leaves: after a
branch or a trap nothing is known of them, so operands may be of any type.
-/

namespace UnitHost.Wasm

/-- The operands code has left, top first; `none` stands for any type. Once `dead`, further
operands of any type may be taken. -/
structure Operands where
  types : List (Option ValType) := []
  dead : Bool := false

namespace Operands

/-- Leaves an operand. -/
def push (o : Operands) (t : ValType) : Operands := { o with types := some t :: o.types }

/-- Leaves operands, the last on top. -/
def pushAll (o : Operands) (ts : List ValType) : Operands := ts.foldl push o

/-- Takes an operand of any type. -/
def popAny? (o : Operands) : Option (Option ValType × Operands) :=
  match o.types with
  | t :: rest => some (t, { o with types := rest })
  | [] => if o.dead then some (none, o) else none

/-- Takes an operand of the given type. -/
def pop? (o : Operands) (t : ValType) : Option Operands := do
  let (found, rest) ← o.popAny?
  if found == none || found == some t then some rest else none

/-- Takes operands, the last from the top. -/
def popAll? (o : Operands) (ts : List ValType) : Option Operands :=
  ts.reverse.foldlM pop? o

/-- The operands a block starts with. -/
def starting (type : FuncType) : Operands := ({} : Operands).pushAll type.params

/-- The code after this point is not reached. -/
def unreached : Operands := { types := [], dead := true }

end Operands

/-- What code can refer to. -/
structure Scope where
  funcs : List FuncType
  memories : List Limits
  tables : List TableType
  globals : List GlobalType
  locals : List ValType
  /-- What a branch to each enclosing block takes, innermost first. -/
  labels : List (List ValType)
  results : List ValType
  referenceTypes : Bool

namespace Scope

/-- A value type the engine accepts. -/
def allows (s : Scope) (t : ValType) : Bool := t.isNumber || s.referenceTypes

/-- A block type the engine accepts. -/
def blockOk (s : Scope) (t : FuncType) : Bool := t.params.all s.allows && t.results.all s.allows

/-- An access has an existing memory, an offset of 32 bits and an alignment up to its width. -/
def accessOk (s : Scope) (a : Access) : Bool :=
  a.memory < s.memories.length && a.offset < Nat.pow 2 32 && 0 < a.align && a.width.bytes % a.align == 0

/-- Inside a block that a branch leaves with the given operands. -/
def inside (s : Scope) (label : List ValType) : Scope := { s with labels := label :: s.labels }

/-- What a branch to the label takes. -/
def label? (s : Scope) (i : Nat) : Option (List ValType) := s.labels[i]?

end Scope

/-- A block ends with exactly its results. -/
def ends (type : FuncType) (o : Operands) : Option Unit := do
  let rest ← o.popAll? type.results
  if rest.types.isEmpty then some () else none

mutual

/-- The operands after an instruction, if it is well typed. -/
def Instr.check? (s : Scope) (o : Operands) : Instr → Option Operands
  | .i32 _ => some (o.push .i32)
  | .i64 _ => some (o.push .i64)
  | .null kind => if s.referenceTypes then some (o.push (.ref kind)) else none
  | .unary _ => do some ((← o.pop? .i32).push .i32)
  | .binary _ => do some ((← o.popAll? [.i32, .i32]).push .i32)
  | .load a => do if s.accessOk a then some ((← o.pop? .i32).push .i32) else none
  | .store a => if s.accessOk a then o.popAll? [.i32, .i32] else none
  | .localGet i => do some (o.push (← s.locals[i]?))
  | .localSet i => do o.pop? (← s.locals[i]?)
  | .globalGet i => do some (o.push (← s.globals[i]?).type)
  | .globalSet i => do
    let g ← s.globals[i]?
    if g.mutable then o.pop? g.type else none
  | .block type body => do
    if s.blockOk type then
      let rest ← o.popAll? type.params
      checkAll? (s.inside type.results) (.starting type) body >>= ends type
      some (rest.pushAll type.results)
    else none
  | .loop type body => do
    if s.blockOk type then
      let rest ← o.popAll? type.params
      checkAll? (s.inside type.params) (.starting type) body >>= ends type
      some (rest.pushAll type.results)
    else none
  | .branch type yes no => do
    if s.blockOk type then
      let rest ← (← o.pop? .i32).popAll? type.params
      checkAll? (s.inside type.results) (.starting type) yes >>= ends type
      checkAll? (s.inside type.results) (.starting type) no >>= ends type
      some (rest.pushAll type.results)
    else none
  | .br i => do
    let _ ← o.popAll? (← s.label? i)
    some .unreached
  | .brIf i => do
    let ts ← s.label? i
    some ((← (← o.pop? .i32).popAll? ts).pushAll ts)
  | .brTable labels i => do
    let o ← o.pop? .i32
    let ts ← s.label? i
    let taken (j : Nat) : Bool :=
      (s.label? j).any fun us => us.length == ts.length && (o.popAll? us).isSome
    if labels.all taken && (o.popAll? ts).isSome then some .unreached else none
  | .ret => do
    let _ ← o.popAll? s.results
    some .unreached
  | .call i => do
    let t ← s.funcs[i]?
    some ((← o.popAll? t.params).pushAll t.results)
  | .callIndirect i t => do
    let table ← s.tables[i]?
    if table.kind == .func then
      some ((← (← o.pop? .i32).popAll? t.params).pushAll t.results)
    else none
  | .drop => do some (← o.popAny?).2
  | .select none => do
    let (a, o) ← (← o.pop? .i32).popAny?
    let (b, o) ← o.popAny?
    let number (t : Option ValType) : Bool := t.all (·.isNumber)
    if number a && number b && (a == none || b == none || a == b) then
      some { o with types := a.orElse (fun _ => b) :: o.types }
    else none
  | .select (some t) => do
    if s.referenceTypes then
      some ((← (← o.pop? .i32).popAll? [t, t]).push t)
    else none
  | .unreachable => some .unreached
  | .memorySize i => if i < s.memories.length then some (o.push .i32) else none
  | .memoryGrow i => do
    if i < s.memories.length then some ((← o.pop? .i32).push .i32) else none
  | .memoryFill i => if i < s.memories.length then o.popAll? [.i32, .i32, .i32] else none
  | .tableSize i => if s.referenceTypes && i < s.tables.length then some (o.push .i32) else none
  | .tableGrow i => do
    let table ← s.tables[i]?
    if s.referenceTypes then some ((← o.popAll? [.ref table.kind, .i32]).push .i32) else none

/-- The operands after a sequence of instructions, if it is well typed. -/
def checkAll? (s : Scope) (o : Operands) : List Instr → Option Operands
  | [] => some o
  | instr :: rest => do checkAll? s (← instr.check? s o) rest

end

namespace Module

/-- Most slots a table may be declared with. -/
def maxDeclaredSlots : Nat := 10000000

/-- Most pages a memory may be declared with. -/
def maxDeclaredPages : Nat := 65536

/-- Most bytes a name may have. -/
def maxNameBytes : Nat := 100000

/-- Most parameters and most results of a function. -/
def maxArity : Nat := 1000

/-- Most parameters and locals of a function together. -/
def maxLocals : Nat := 50000

/-- A name that is not too long. -/
def nameOk (name : String) : Bool := name.utf8ByteSize ≤ maxNameBytes

/-- The least size does not exceed the greatest, nor either the given bound. -/
def memoryOk (l : Limits) : Bool :=
  l.min ≤ maxDeclaredPages && l.max.all (fun max => l.min ≤ max && max ≤ maxDeclaredPages)

/-- A table whose sizes are in range and whose kind the engine accepts. -/
def tableOk (referenceTypes : Bool) (t : TableType) : Bool :=
  t.limits.min ≤ maxDeclaredSlots &&
    t.limits.max.all (fun max => t.limits.min ≤ max && max < Nat.pow 2 32) &&
    (t.kind == .func || referenceTypes)

/-- The type of a constant. It may read imported globals that never change. -/
def constantType? (m : Module) (referenceTypes : Bool) : Constant → Option ValType
  | .i32 _ => some .i32
  | .i64 _ => some .i64
  | .null kind => if referenceTypes then some (.ref kind) else none
  | .global i => do
    let g ← m.importedGlobals[i]?
    if g.mutable then none else some g.type

/-- What a function's code can refer to. -/
def scope (m : Module) (referenceTypes : Bool) (f : Func) : Scope where
  funcs := m.funcTypes
  memories := m.memoryTypes
  tables := m.tableTypes
  globals := m.globalTypes
  locals := f.type.params ++ f.locals
  labels := [f.type.results]
  results := f.type.results
  referenceTypes

/-- A function whose code is well typed. -/
def funcOk (m : Module) (referenceTypes : Bool) (f : Func) : Bool :=
  let s := m.scope referenceTypes f
  s.locals.length ≤ maxLocals && f.locals.all s.allows && ((checkAll? s {} f.body >>= ends f.type).isSome)

/-- A function type the engine accepts. -/
def typeOk (referenceTypes : Bool) (t : FuncType) : Bool :=
  t.params.length ≤ maxArity && t.results.length ≤ maxArity &&
    (referenceTypes || (t.params.all (·.isNumber) && t.results.all (·.isNumber)))

/-- The number of objects of a kind. -/
def count (m : Module) : ObjectKind → Nat
  | .func => m.funcTypes.length
  | .memory => m.memoryTypes.length
  | .table => m.tableTypes.length
  | .global => m.globalTypes.length

/-- No name is exported twice. -/
def distinctNames : List Export → Bool
  | [] => true
  | e :: rest => !rest.any (·.name == e.name) && distinctNames rest

/-- The module is valid for an engine with or without reference types. -/
def isValid (m : Module) (referenceTypes : Bool) : Bool :=
  m.imports.all (fun i => nameOk i.module && nameOk i.name) &&
    m.funcTypes.all (typeOk referenceTypes) &&
    m.memoryTypes.all memoryOk &&
    m.tableTypes.all (tableOk referenceTypes) &&
    (referenceTypes || m.tableTypes.length ≤ 1) &&
    m.globalTypes.all (fun g => referenceTypes || g.type.isNumber) &&
    m.globals.all (fun (g, init) => m.constantType? referenceTypes init == some g.type) &&
    m.exports.all (fun e => nameOk e.name && e.index < m.count e.kind) &&
    distinctNames m.exports &&
    m.start.all (fun i => m.funcTypes[i]? == some {}) &&
    m.elements.all (fun e =>
      (m.tableTypes[e.table]?.any (·.kind == .func)) &&
        m.constantType? referenceTypes e.offset == some .i32 &&
        e.funcs.all (· < m.funcTypes.length)) &&
    m.data.all (fun d =>
      d.memory < m.memoryTypes.length && m.constantType? referenceTypes d.offset == some .i32) &&
    m.funcs.all (m.funcOk referenceTypes)

end Module

end UnitHost.Wasm
