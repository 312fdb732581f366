import UnitHost.Wasm.Module
import UnitHost.Wasm.Text.Sexpr

/-!
# Instructions as written

Code as a flat sequence of operations whose references are not resolved yet. A parenthesised
operation stands after the operations inside it; a parenthesised block is closed by an `end`.
-/

namespace UnitHost.Wasm.Text

/-- A use of a function type: by reference, spelled out, or both. -/
structure TypeUse where
  type : Option Ref := none
  params : List (Option String × ValType) := []
  results : List ValType := []

/-- The type as spelled out. -/
def TypeUse.spelled (u : TypeUse) : FuncType :=
  { params := u.params.map (·.2), results := u.results }

/-- What opens a block. -/
inductive BlockKind where
  | block
  | loop
  | cond
  deriving DecidableEq, Repr

/-- One operation. -/
inductive Op where
  /-- An instruction without references. -/
  | plain (instr : Instr)
  | load (memory : Ref) (access : Access)
  | store (memory : Ref) (access : Access)
  | localGet (ref : Ref)
  | localSet (ref : Ref)
  | globalGet (ref : Ref)
  | globalSet (ref : Ref)
  | br (label : Ref)
  | brIf (label : Ref)
  | brTable (labels : List Ref) (otherwise : Ref)
  | call (func : Ref)
  | callIndirect (table : Ref) (type : TypeUse)
  | memorySize (memory : Ref)
  | memoryGrow (memory : Ref)
  | memoryFill (memory : Ref)
  | tableSize (table : Ref)
  | tableGrow (table : Ref)
  | opens (kind : BlockKind) (label : Option String) (type : TypeUse)
  | otherwise (label : Option String)
  | closes (label : Option String)

/-- A reference type by its name. -/
def refType? : String → Option RefType
  | "funcref" => some .func
  | "externref" => some .external
  | _ => none

/-- A value type by its name. -/
def valType? : String → Option ValType
  | "i32" => some .i32
  | "i64" => some .i64
  | "f32" => some .f32
  | "f64" => some .f64
  | name => (refType? name).map .ref

/-- A value type. -/
def valTypeOf? : Sexpr → Option ValType
  | .word text => valType? text
  | _ => none

/-- The declarations in a list such as `(param $x i32)` or `(param i32 i64)`. -/
def declared? : List Sexpr → Option (List (Option String × ValType))
  | [.word id, type] =>
    if isId id then (valTypeOf? type).map fun t => [(some id, t)]
    else [.word id, type].mapM fun t => (valTypeOf? t).map (none, ·)
  | items => items.mapM fun t => (valTypeOf? t).map (none, ·)

/-- The lists in front that begin with the given word, read by `declared?`. -/
def takeDeclared? (keyword : String) :
    List Sexpr → Option (List (Option String × ValType) × List Sexpr)
  | .list (.word head :: items) :: rest =>
    if head == keyword then do
      let first ← declared? items
      let (more, rest) ← takeDeclared? keyword rest
      some (first ++ more, rest)
    else some ([], .list (.word head :: items) :: rest)
  | items => some ([], items)

/-- The results in front. -/
def takeResults? (items : List Sexpr) : Option (List ValType × List Sexpr) := do
  let (declared, rest) ← takeDeclared? "result" items
  if declared.all (·.1.isNone) then some (declared.map (·.2), rest) else none

/-- The type reference in front, if there is one. -/
def takeTypeRef? : List Sexpr → Option (Option Ref × List Sexpr)
  | .list (.word "type" :: items) :: rest =>
    match takeRef? items with
    | some (ref, []) => some (some ref, rest)
    | _ => none
  | items => some (none, items)

/-- The type use in front. -/
def takeTypeUse? (items : List Sexpr) : Option (TypeUse × List Sexpr) := do
  let (type, items) ← takeTypeRef? items
  let (params, items) ← takeDeclared? "param" items
  let (results, items) ← takeResults? items
  some ({ type, params, results }, items)

/-- The type use in front, without names of parameters. -/
def takeNamelessUse? (items : List Sexpr) : Option (TypeUse × List Sexpr) := do
  let (use, rest) ← takeTypeUse? items
  if use.params.all (·.1.isNone) then some (use, rest) else none

/-- A word such as `offset=8` in front. -/
def takeSetting? (key : String) : List Sexpr → Option (Option Nat × List Sexpr)
  | .word text :: rest =>
    if (key ++ "=").toList.isPrefixOf text.toList then
      (unsigned? (text.toList.drop (key.length + 1))).map fun n => (some n, rest)
    else some (none, .word text :: rest)
  | items => some (none, items)

/-- The memory, offset and alignment in front. -/
def takeAccess? (width : Width) (items : List Sexpr) : Option (Ref × Access × List Sexpr) := do
  let (memory, items) := takeRefOrFirst items
  let (offset, items) ← takeSetting? "offset" items
  let (align, items) ← takeSetting? "align" items
  some (memory, { width, offset := offset.getD 0, align := align.getD width.bytes }, items)

/-- The references in front, as many as there are. -/
def takeRefs : List Sexpr → List Ref × List Sexpr
  | .word text :: rest =>
    match Ref.ofWord? text with
    | some ref => let (refs, rest) := takeRefs rest; (ref :: refs, rest)
    | none => ([], .word text :: rest)
  | items => ([], items)

/-- Operations on 32-bit words that take no further words. -/
def arithmetic? : String → Option Instr
  | "i32.add" => some (.binary .add)
  | "i32.sub" => some (.binary .sub)
  | "i32.mul" => some (.binary .mul)
  | "i32.div_s" => some (.binary .divS)
  | "i32.div_u" => some (.binary .divU)
  | "i32.rem_s" => some (.binary .remS)
  | "i32.rem_u" => some (.binary .remU)
  | "i32.and" => some (.binary .and)
  | "i32.or" => some (.binary .or)
  | "i32.xor" => some (.binary .xor)
  | "i32.shl" => some (.binary .shl)
  | "i32.shr_s" => some (.binary .shrS)
  | "i32.shr_u" => some (.binary .shrU)
  | "i32.rotl" => some (.binary .rotl)
  | "i32.eq" => some (.binary .eq)
  | "i32.lt_s" => some (.binary .ltS)
  | "i32.lt_u" => some (.binary .ltU)
  | "i32.gt_u" => some (.binary .gtU)
  | "i32.clz" => some (.unary .clz)
  | "i32.ctz" => some (.unary .ctz)
  | "i32.popcnt" => some (.unary .popcnt)
  | "i32.eqz" => some (.unary .eqz)
  | _ => none

/-- An operation with one reference. -/
def referring? : String → Option (Ref → Op)
  | "local.get" => some .localGet
  | "local.set" => some .localSet
  | "global.get" => some .globalGet
  | "global.set" => some .globalSet
  | "br" => some .br
  | "br_if" => some .brIf
  | "call" => some .call
  | _ => none

/-- An operation with one reference that may be left out. -/
def referringToFirst? : String → Option (Ref → Op)
  | "memory.size" => some .memorySize
  | "memory.grow" => some .memoryGrow
  | "memory.fill" => some .memoryFill
  | "table.size" => some .tableSize
  | "table.grow" => some .tableGrow
  | _ => none

/-- The operation a keyword begins, with the words that belong to it, and the rest. -/
def takeOp? (keyword : String) (items : List Sexpr) : Option (Op × List Sexpr) :=
  match keyword, items with
  | "i32.const", .word n :: rest => (wordOf? 32 n).map fun n => (.plain (.i32 (UInt32.ofNat n)), rest)
  | "i64.const", .word n :: rest => (wordOf? 64 n).map fun n => (.plain (.i64 (UInt64.ofNat n)), rest)
  | "ref.null", .word "func" :: rest => some (.plain (.null .func), rest)
  | "ref.null", .word "extern" :: rest => some (.plain (.null .external), rest)
  | "drop", rest => some (.plain .drop, rest)
  | "return", rest => some (.plain .ret, rest)
  | "unreachable", rest => some (.plain .unreachable, rest)
  | "select", items => do
    let (types, rest) ← takeResults? items
    match types, rest.length == items.length with
    | [], true => some (.plain (.select none), rest)
    | [t], _ => some (.plain (.select (some t)), rest)
    | _, _ => none
  | "i32.load", items => (takeAccess? .word items).map fun (m, a, rest) => (.load m a, rest)
  | "i32.load8_u", items => (takeAccess? .byte items).map fun (m, a, rest) => (.load m a, rest)
  | "i32.store", items => (takeAccess? .word items).map fun (m, a, rest) => (.store m a, rest)
  | "i32.store8", items => (takeAccess? .byte items).map fun (m, a, rest) => (.store m a, rest)
  | "br_table", items =>
    match takeRefs items with
    | ([], _) => none
    | (ref :: refs, rest) =>
      some (.brTable (ref :: refs).dropLast ((ref :: refs).getLast (by simp)), rest)
  | "call_indirect", items => do
    let (table, items) := takeRefOrFirst items
    let (use, rest) ← takeNamelessUse? items
    some (.callIndirect table use, rest)
  | "block", items => opening .block items
  | "loop", items => opening .loop items
  | "if", items => opening .cond items
  | "else", items => let (label, rest) := takeId items; some (.otherwise label, rest)
  | "end", items => let (label, rest) := takeId items; some (.closes label, rest)
  | keyword, items =>
    match arithmetic? keyword, referring? keyword, referringToFirst? keyword with
    | some instr, _, _ => some (.plain instr, items)
    | none, some op, _ => (takeRef? items).map fun (ref, rest) => (op ref, rest)
    | none, none, some op => let (ref, rest) := takeRefOrFirst items; some (op ref, rest)
    | none, none, none => none
where
  /-- The label and the type of a block. -/
  opening (kind : BlockKind) (items : List Sexpr) : Option (Op × List Sexpr) := do
    let (label, items) := takeId items
    let (use, rest) ← takeNamelessUse? items
    some (.opens kind label use, rest)

/-- The arms of a parenthesised conditional: `(then …)` and perhaps `(else …)`. -/
def isArm (keyword : String) : Sexpr → Bool
  | .list (.word head :: _) => head == keyword
  | _ => false

/-- A parenthesised item. -/
def isList : Sexpr → Bool
  | .list _ => true
  | _ => false

/-- The operations of a sequence of items. The condition of a parenthesised conditional consists of
parenthesised items. `fuel` bounds the steps; the number of tokens the items
were read from is enough. -/
def opsOf? : Nat → List Sexpr → Option (List Op)
  | _, [] => some []
  | 0, _ :: _ => none
  | fuel + 1, .word keyword :: rest => do
    let (op, rest) ← takeOp? keyword rest
    (op :: ·) <$> opsOf? fuel rest
  | _ + 1, .string _ :: _ => none
  | fuel + 1, .list (.word keyword :: items) :: rest => do
    let (op, inner) ← takeOp? keyword items
    let ops ← match op with
      | .opens .cond .. => do
        let before := inner.takeWhile (!isArm "then" ·)
        match inner.dropWhile (!isArm "then" ·) with
        | [.list (_ :: yes)] =>
          some ((← (if before.all isList then opsOf? fuel before else none)) ++ op :: (← opsOf? fuel yes) ++ [.closes none])
        | [.list (_ :: yes), .list (.word "else" :: no)] =>
          some ((← (if before.all isList then opsOf? fuel before else none)) ++ op :: (← opsOf? fuel yes) ++ .otherwise none ::
            (← opsOf? fuel no) ++ [.closes none])
        | _ => none
      | .opens .. => some (op :: (← opsOf? fuel inner) ++ [.closes none])
      | _ => some ((← opsOf? fuel inner) ++ [op])
    (ops ++ ·) <$> opsOf? fuel rest
  | _ + 1, .list _ :: _ => none
termination_by structural fuel => fuel

end UnitHost.Wasm.Text
