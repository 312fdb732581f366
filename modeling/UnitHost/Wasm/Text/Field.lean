import UnitHost.Wasm.Text.Op

/-!
# Fields of a module text

What stands between the parentheses of a module, one constructor per kind of field. References
are not resolved yet. An object declared together with its import or its exports yields those as
fields of their own.
-/

namespace UnitHost.Wasm.Text

/-- The type of an import as written. -/
inductive ImportUse where
  | func (type : TypeUse)
  | memory (limits : Limits)
  | table (type : TableType)
  | global (type : GlobalType)

/-- The kind of object an import yields. -/
def ImportUse.kind : ImportUse → ObjectKind
  | func _ => .func
  | memory _ => .memory
  | table _ => .table
  | global _ => .global

/-- A field. -/
inductive Field where
  | type (id : Option String) (type : FuncType)
  | imported (id : Option String) (module name : String) (use : ImportUse)
  | func (id : Option String) (type : TypeUse) (locals : List (Option String × ValType))
      (body : List Op)
  | memory (id : Option String) (limits : Limits)
  | table (id : Option String) (type : TableType)
  | global (id : Option String) (type : GlobalType) (init : List Op)
  | exported (name : String) (kind : ObjectKind) (ref : Ref)
  /-- An export of the object declared just before. -/
  | exportedHere (name : String) (kind : ObjectKind)
  | start (func : Ref)
  | data (id : Option String) (memory : Ref) (offset : List Op) (bytes : List UInt8)
  | elements (id : Option String) (table : Ref) (offset : List Op) (funcs : List Ref)

/-- A string that is a name. -/
def name? : Sexpr → Option String
  | .string bytes => UnitHost.Text.Utf8.decode? bytes
  | _ => none

/-- Sizes in front: the least and perhaps the greatest. -/
def takeLimits? : List Sexpr → Option (Limits × List Sexpr)
  | .word min :: .word max :: rest => do
    let min ← unsigned? min.toList
    match unsigned? max.toList with
    | some max => some ({ min, max := some max }, rest)
    | none => some ({ min }, .word max :: rest)
  | .word min :: rest => (unsigned? min.toList).map fun min => ({ min }, rest)
  | _ => none

/-- The type of a table. -/
def tableType? (items : List Sexpr) : Option TableType := do
  match ← takeLimits? items with
  | (limits, [.word kind]) => (refType? kind).map fun kind => { limits, kind }
  | _ => none

/-- The type of a memory. -/
def memoryType? (items : List Sexpr) : Option Limits := do
  match ← takeLimits? items with
  | (limits, []) => some limits
  | _ => none

/-- The type of a global in front. -/
def takeGlobalType? : List Sexpr → Option (GlobalType × List Sexpr)
  | .list [.word "mut", type] :: rest => (valTypeOf? type).map fun type => ({ mutable := true, type }, rest)
  | type :: rest => (valTypeOf? type).map fun type => ({ type }, rest)
  | [] => none

/-- The type of an imported object of a kind. -/
def importUse? (kind : ObjectKind) (items : List Sexpr) : Option ImportUse :=
  match kind with
  | .func => do
    match ← takeTypeUse? items with
    | (use, []) => some (.func use)
    | _ => none
  | .memory => (memoryType? items).map .memory
  | .table => (tableType? items).map .table
  | .global => do
    match ← takeGlobalType? items with
    | (type, []) => some (.global type)
    | _ => none

/-- The kind of object a keyword stands for. -/
def kind? : String → Option ObjectKind
  | "func" => some .func
  | "memory" => some .memory
  | "table" => some .table
  | "global" => some .global
  | _ => none

/-- The exports in front of a declaration. -/
def takeExports? : List Sexpr → Option (List String × List Sexpr)
  | .list [.word "export", name] :: rest => do
    let name ← name? name
    let (names, rest) ← takeExports? rest
    some (name :: names, rest)
  | items => some ([], items)

/-- The expression that gives a segment's offset, and the rest. A single operation may stand
without `offset` around it. -/
def takeOffset? (fuel : Nat) : List Sexpr → Option (List Op × List Sexpr)
  | .list (.word "offset" :: items) :: rest => (opsOf? fuel items).map (·, rest)
  | .list items :: rest => (opsOf? fuel [.list items]).map (·, rest)
  | _ => none

/-- The bytes of strings, joined. -/
def bytesOf? (items : List Sexpr) : Option (List UInt8) :=
  (items.mapM fun item => match item with
    | Sexpr.string bytes => some bytes
    | _ => none).map List.flatten

/-- A list such as `(memory $m)` in front, or the first object. -/
def takeTarget? (keyword : String) : List Sexpr → Option (Ref × List Sexpr)
  | .list [.word head, .word text] :: rest =>
    if head == keyword then (Ref.ofWord? text).map (·, rest)
    else some (.index 0, .list [.word head, .word text] :: rest)
  | items => some (.index 0, items)

/-- A declared object of a kind: its identifier and exports, and either an import or its own
definition. -/
def declaration? (fuel : Nat) (kind : ObjectKind) (items : List Sexpr) : Option (List Field) := do
  let (id, items) := takeId items
  let (names, items) ← takeExports? items
  let object ← match items with
    | .list [.word "import", module, name] :: rest => do
      some (Field.imported id (← name? module) (← name? name) (← importUse? kind rest))
    | items =>
      match kind with
      | .func => do
        let (use, items) ← takeTypeUse? items
        let (locals, items) ← takeDeclared? "local" items
        some (.func id use locals (← opsOf? fuel items))
      | .memory => (memoryType? items).map (.memory id)
      | .table => (tableType? items).map (.table id)
      | .global => do
        let (type, items) ← takeGlobalType? items
        some (.global id type (← opsOf? fuel items))
  some (object :: names.map (.exportedHere · kind))

/-- The fields one parenthesised item stands for. -/
def fieldsOf? (fuel : Nat) : Sexpr → Option (List Field)
  | .list (.word "type" :: items) =>
    match takeId items with
    | (id, [.list (.word "func" :: items)]) => do
      let (params, items) ← takeDeclared? "param" items
      match ← takeResults? items with
      | (results, []) => some [.type id { params := params.map (·.2), results }]
      | _ => none
    | _ => none
  | .list [.word "import", module, name, .list (.word keyword :: items)] => do
    let kind ← kind? keyword
    let (id, items) := takeId items
    some [.imported id (← name? module) (← name? name) (← importUse? kind items)]
  | .list [.word "export", name, .list [.word keyword, .word ref]] => do
    some [.exported (← name? name) (← kind? keyword) (← Ref.ofWord? ref)]
  | .list [.word "start", .word ref] => (Ref.ofWord? ref).map fun ref => [.start ref]
  | .list (.word "data" :: items) => do
    let (id, items) := takeId items
    let (memory, items) ← takeTarget? "memory" items
    let (offset, items) ← takeOffset? fuel items
    some [.data id memory offset (← bytesOf? items)]
  | .list (.word "elem" :: items) => do
    let (id, items) := takeId items
    let (table, items) ← takeTarget? "table" items
    let (offset, items) ← takeOffset? fuel items
    let items := match items with
      | .word "func" :: rest => rest
      | items => items
    match takeRefs items with
    | (funcs, []) => some [.elements id table offset funcs]
    | _ => none
  | .list (.word keyword :: items) => do declaration? fuel (← kind? keyword) items
  | _ => none

/-- The fields of a module text: those of one `(module …)`, or at least one field on its own. -/
def Field.ofText? (text : List Char) : Option (List Field) := do
  let tokens ← Token.ofText? text
  let items ← Sexpr.ofTokens? tokens
  let items ← match items with
    | [] => none
    | [.list (.word "module" :: items)] => some (takeId items).2
    | items => some items
  (items.mapM (fieldsOf? tokens.length)).map List.flatten

end UnitHost.Wasm.Text
