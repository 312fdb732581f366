import UnitHost.Wasm.Text.Field

/-!
# Names resolved

From fields to a module: identifiers become indices, uses of function types become types, and
flat operations become nested blocks. Each kind of object has a name space of its own; inside a
function, parameters and locals share one, and labels are looked up from the innermost block
outwards.

Function types are numbered in this order: types and imports as they stand in the text, then the
types that functions and their code spell out. A type spelled out twice is one type.
-/

namespace UnitHost.Wasm.Text

/-- The names of the objects of each kind, by index, and the function types. -/
structure Names where
  types : List (Option String × FuncType) := []
  funcs : List (Option String) := []
  memories : List (Option String) := []
  tables : List (Option String) := []
  globals : List (Option String) := []
  data : List (Option String) := []
  elements : List (Option String) := []

/-- The index of a reference among named objects. -/
def Ref.resolve? (names : List (Option String)) : Ref → Option Nat
  | .id name => names.findIdx? (· == some name)
  | .index n => some n

/-- No identifier stands twice. -/
def distinct (names : List (Option String)) : Bool :=
  match names with
  | [] => true
  | none :: rest => distinct rest
  | some name :: rest => !rest.contains (some name) && distinct rest

namespace Names

/-- The identifiers of one kind are distinct, for each kind. -/
def distinctIds (n : Names) : Bool :=
  distinct (n.types.map (·.1)) && distinct n.funcs && distinct n.memories && distinct n.tables &&
    distinct n.globals && distinct n.data && distinct n.elements

/-- The objects of one kind. -/
def ofKind (n : Names) : ObjectKind → List (Option String)
  | .func => n.funcs
  | .memory => n.memories
  | .table => n.tables
  | .global => n.globals

/-- A new object of a kind. -/
def declare (n : Names) (kind : ObjectKind) (id : Option String) : Names :=
  match kind with
  | .func => { n with funcs := n.funcs ++ [id] }
  | .memory => { n with memories := n.memories ++ [id] }
  | .table => { n with tables := n.tables ++ [id] }
  | .global => { n with globals := n.globals ++ [id] }

/-- A use that only spells its type out adds the type, unless it is there. -/
def addUse (n : Names) (use : TypeUse) : Names :=
  match use.type with
  | some _ => n
  | none =>
    if n.types.any (·.2 == use.spelled) then n
    else { n with types := n.types ++ [(none, use.spelled)] }

/-- A type or an imported function. -/
def addHeader (n : Names) : Field → Names
  | .type id type => { n with types := n.types ++ [(id, type)] }
  | .imported _ _ _ (.func use) => n.addUse use
  | _ => n

/-- The types an operation spells out; a block with at most one result and no parameters needs
none. -/
def addOp (n : Names) : Op → Names
  | .callIndirect _ use => n.addUse use
  | .opens _ _ use =>
    if use.params.isEmpty && use.results.length ≤ 1 then n else n.addUse use
  | _ => n

/-- The types a function and its code spell out. -/
def addBody (n : Names) : Field → Names
  | .func _ use _ body => body.foldl addOp (n.addUse use)
  | _ => n

/-- The object a field declares. -/
def addObject (n : Names) : Field → Names
  | .imported id _ _ use => n.declare use.kind id
  | .func id .. => n.declare .func id
  | .memory id _ => n.declare .memory id
  | .table id _ => n.declare .table id
  | .global id .. => n.declare .global id
  | .data id .. => { n with data := n.data ++ [id] }
  | .elements id .. => { n with elements := n.elements ++ [id] }
  | _ => n

/-- The names of a module's fields, if those of a kind are distinct. -/
def ofFields? (fields : List Field) : Option Names :=
  let n := fields.foldl addBody (fields.foldl addHeader (fields.foldl addObject {}))
  if n.distinctIds then some n else none

/-- The type a use stands for. If it gives a reference and spells the type out, they agree. -/
def typeOf? (n : Names) (use : TypeUse) : Option FuncType :=
  match use.type with
  | none => some use.spelled
  | some ref => do
    let type ← n.types[← ref.resolve? (n.types.map (·.1))]?
    if use.spelled == {} || use.spelled == type.2 then some type.2 else none

end Names

/-- A block whose end has not been reached: what opened it, the code before it, and the first arm
of a conditional once `else` has been read. Code is held in reverse. -/
structure OpenBlock where
  kind : BlockKind
  label : Option String
  type : FuncType
  before : List Instr
  yes : Option (List Instr) := none

/-- Code in the making: open blocks, innermost first, and the code since the last of them opened,
in reverse. -/
structure Assembly where
  blocks : List OpenBlock := []
  code : List Instr := []

namespace Assembly

/-- One more instruction. -/
def push (a : Assembly) (instr : Instr) : Assembly := { a with code := instr :: a.code }

/-- The label a reference means. -/
def label? (a : Assembly) : Ref → Option Nat
  | .id name => a.blocks.findIdx? (·.label == some name)
  | .index n => some n

/-- A label repeated at `else` or `end` is that of the block. -/
def agrees (b : OpenBlock) (label : Option String) : Bool :=
  label.isNone || label == b.label

/-- The innermost block ends. -/
def close? (a : Assembly) (label : Option String) : Option Assembly :=
  match a.blocks with
  | [] => none
  | b :: blocks =>
    if agrees b label then
      let body := a.code.reverse
      let instr := match b.kind, b.yes with
        | .block, _ => Instr.block b.type body
        | .loop, _ => .loop b.type body
        | .cond, none => .branch b.type body []
        | .cond, some yes => .branch b.type yes body
      some { blocks, code := instr :: b.before }
    else none

/-- The second arm of the innermost block begins. -/
def otherwise? (a : Assembly) (label : Option String) : Option Assembly :=
  match a.blocks with
  | [] => none
  | b :: blocks =>
    if b.kind == .cond && b.yes.isNone && agrees b label then
      some { blocks := { b with yes := some a.code.reverse } :: blocks, code := [] }
    else none

/-- One operation, with the names of the module and of the function's locals. -/
def next? (n : Names) (locals : List (Option String)) (a : Assembly) : Op → Option Assembly
  | .plain instr => some (a.push instr)
  | .load memory access => do
    some (a.push (.load { access with memory := ← memory.resolve? n.memories }))
  | .store memory access => do
    some (a.push (.store { access with memory := ← memory.resolve? n.memories }))
  | .localGet ref => (ref.resolve? locals).map (a.push ∘ .localGet)
  | .localSet ref => (ref.resolve? locals).map (a.push ∘ .localSet)
  | .globalGet ref => (ref.resolve? n.globals).map (a.push ∘ .globalGet)
  | .globalSet ref => (ref.resolve? n.globals).map (a.push ∘ .globalSet)
  | .br label => (a.label? label).map (a.push ∘ .br)
  | .brIf label => (a.label? label).map (a.push ∘ .brIf)
  | .brTable labels last => do
    some (a.push (.brTable (← labels.mapM a.label?) (← a.label? last)))
  | .call ref => (ref.resolve? n.funcs).map (a.push ∘ .call)
  | .callIndirect table use => do
    some (a.push (.callIndirect (← table.resolve? n.tables) (← n.typeOf? use)))
  | .memorySize ref => (ref.resolve? n.memories).map (a.push ∘ .memorySize)
  | .memoryGrow ref => (ref.resolve? n.memories).map (a.push ∘ .memoryGrow)
  | .memoryFill ref => (ref.resolve? n.memories).map (a.push ∘ .memoryFill)
  | .tableSize ref => (ref.resolve? n.tables).map (a.push ∘ .tableSize)
  | .tableGrow ref => (ref.resolve? n.tables).map (a.push ∘ .tableGrow)
  | .opens kind label use => do
    let block : OpenBlock := { kind, label, type := ← n.typeOf? use, before := a.code }
    some { blocks := block :: a.blocks, code := [] }
  | .otherwise label => a.otherwise? label
  | .closes label => a.close? label

end Assembly

/-- The nested code of flat operations. -/
def assemble? (n : Names) (locals : List (Option String)) (ops : List Op) : Option (List Instr) := do
  let a ← ops.foldlM (Assembly.next? n locals) {}
  if a.blocks.isEmpty then some a.code.reverse else none

/-- A constant expression: a single operation. -/
def constant? (n : Names) (ops : List Op) : Option Constant := do
  match ← assemble? n [] ops with
  | [.i32 v] => some (.i32 v)
  | [.i64 v] => some (.i64 v)
  | [.null kind] => some (.null kind)
  | [.globalGet i] => some (.global i)
  | _ => none

/-- The type of an import. -/
def externType? (n : Names) : ImportUse → Option ExternType
  | .func use => (n.typeOf? use).map .func
  | .memory limits => some (.memory limits)
  | .table type => some (.table type)
  | .global type => some (.global type)

/-- A function of the module. -/
def func? (n : Names) (use : TypeUse) (locals : List (Option String × ValType)) (body : List Op) :
    Option Func := do
  let type ← n.typeOf? use
  let params :=
    if use.params.isEmpty then List.replicate type.params.length none else use.params.map (·.1)
  let names := params ++ locals.map (·.1)
  if distinct names then
    some { type, locals := locals.map (·.2), body := ← assemble? n names body }
  else none

/-- A module in the making. `declared` names the objects of the fields read so far; `defined` says
that one of them is not an import. -/
structure Building where
  module : Module := {}
  declared : Names := {}
  defined : Bool := false

namespace Building

/-- Adds what one field says. Imports stand before definitions. -/
def next? (n : Names) (b : Building) (field : Field) : Option Building := do
  let m := b.module
  let b' : Building := { b with declared := b.declared.addObject field }
  match field with
  | .type .. => some b'
  | .imported _ module name use =>
    if b.defined then none
    else
      let type ← externType? n use
      some { b' with module := { m with imports := m.imports ++ [{ module, name, type }] } }
  | .func _ use locals body =>
    let f ← func? n use locals body
    some { b' with module := { m with funcs := m.funcs ++ [f] }, defined := true }
  | .memory _ limits =>
    some { b' with module := { m with memories := m.memories ++ [limits] }, defined := true }
  | .table _ type =>
    some { b' with module := { m with tables := m.tables ++ [type] }, defined := true }
  | .global _ type init =>
    let value ← constant? n init
    some { b' with module := { m with globals := m.globals ++ [(type, value)] }, defined := true }
  | .exported name kind ref =>
    let index ← ref.resolve? (n.ofKind kind)
    some { b' with module := { m with exports := m.exports ++ [{ name, kind, index }] } }
  | .exportedHere name kind =>
    let index := (b.declared.ofKind kind).length - 1
    some { b' with module := { m with exports := m.exports ++ [{ name, kind, index }] } }
  | .start ref =>
    match m.start with
    | some _ => none
    | none => some { b' with module := { m with start := some (← ref.resolve? n.funcs) } }
  | .data _ memory offset bytes =>
    let segment : Data :=
      { memory := ← memory.resolve? n.memories, offset := ← constant? n offset, bytes }
    some { b' with module := { m with data := m.data ++ [segment] } }
  | .elements _ table offset funcs =>
    let segment : Elements :=
      { table := ← table.resolve? n.tables, offset := ← constant? n offset
        funcs := ← funcs.mapM (·.resolve? n.funcs) }
    some { b' with module := { m with elements := m.elements ++ [segment] } }

end Building

/-- The module a text describes, if it is well-formed. -/
def moduleOf? (text : List Char) : Option Module := do
  let fields ← Field.ofText? text
  let names ← Names.ofFields? fields
  (·.module) <$> fields.foldlM (Building.next? names) {}

end UnitHost.Wasm.Text
