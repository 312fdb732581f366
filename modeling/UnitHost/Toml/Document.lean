import UnitHost.Toml.Quoted

/-!
# TOML documents

Lines of `key = value` under table headers. A table may be opened by a header once, whether or not a
deeper header named it before; a dotted key adds only to tables that dotted keys made. Inline tables
and arrays are closed where they are written.
-/

namespace UnitHost.Toml

/-- A document in the making. -/
inductive Node where
  | value (v : Value)
  /-- A table; `implied` until a header opens it, `dotted` if a dotted key made it. -/
  | table (implied dotted : Bool) (entries : List (String × Node))
  /-- An array whose tables headers open, the latest first. -/
  | tables (items : List (List (String × Node)))

/-- Entries in order of appearance. -/
abbrev Entries := List (String × Node)

/-- Puts what `f` makes of the old entry under a key. -/
def Entries.alter (key : String) (f : Option Node → Option Node) : Entries → Option Entries
  | [] => (f none).map fun n => [(key, n)]
  | (other, n) :: rest =>
    if other == key then (f (some n)).map fun n => (key, n) :: rest
    else (Entries.alter key f rest).map ((other, n) :: ·)

/-- Goes through the tables of a path, making those that are missing, and changes the last. Headers
reach into the latest table of an array. -/
def Entries.descend (f : Entries → Option Entries) : List String → Entries → Option Entries
  | [], entries => f entries
  | key :: path, entries => Entries.alter key (fun
      | none => (Entries.descend f path []).map (.table true false)
      | some (.table implied dotted inner) =>
        (Entries.descend f path inner).map (.table implied dotted)
      | some (.tables (latest :: earlier)) =>
        (Entries.descend f path latest).map fun latest => .tables (latest :: earlier)
      | some (.tables []) | some (.value _) => none) entries

/-- Opens the table a header names. -/
def Entries.openTable (path : List String) (entries : Entries) : Option Entries :=
  match path.getLast? with
  | none => none
  | some key => Entries.descend (Entries.alter key fun
      | none => some (.table false false [])
      | some (.table true false inner) => some (.table false false inner)
      | some _ => none) path.dropLast entries

/-- Opens one more table of the array a header names. -/
def Entries.openArray (path : List String) (entries : Entries) : Option Entries :=
  match path.getLast? with
  | none => none
  | some key => Entries.descend (Entries.alter key fun
      | none => some (.tables [[]])
      | some (.tables items) => some (.tables ([] :: items))
      | some _ => none) path.dropLast entries

/-- Adds a value under a dotted key. The tables on the way are new, or were not opened by a header;
the last was made by a dotted key. -/
def Entries.add (v : Value) : List String → Entries → Option Entries
  | [], _ => none
  | [key], entries => Entries.alter key (fun
      | none => some (.value v)
      | some _ => none) entries
  | key :: path, entries => Entries.alter key (fun
      | none => (Entries.add v path []).map (.table true true)
      | some (.table implied dotted inner) =>
        if implied && (dotted || 1 < path.length) then
          (Entries.add v path inner).map (.table implied dotted)
        else none
      | some (.tables (latest :: earlier)) =>
        if 1 < path.length then
          (Entries.add v path latest).map fun latest => .tables (latest :: earlier)
        else none
      | some (.tables []) | some (.value _) => none) entries

/-- The value of a finished node. -/
def Node.toValue : Node → Value
  | .value v => v
  | .table _ _ entries => .table (finish entries)
  | .tables items => .array (tables items [])
where
  /-- The entries of a finished table. -/
  finish : List (String × Node) → List (String × Value)
    | [] => []
    | (key, n) :: rest => (key, n.toValue) :: finish rest
  /-- The tables of a finished array, the latest last. -/
  tables : List (List (String × Node)) → List Value → List Value
    | [], done => done
    | entries :: rest, done => tables rest (.table (finish entries) :: done)

/-- Characters of keys that are not quoted. -/
def isBareKey (c : Char) : Bool := c.isAlphanum || c == '_' || c == '-'

/-- The blanks in front skipped. -/
def skipSpace (chars : List Char) : List Char := chars.dropWhile isSpace

/-- One part of a key. -/
def takeKeyPart? (chars : List Char) : Option (String × List Char) :=
  match takeLineString? chars with
  | some found => some found
  | none =>
    let word := chars.takeWhile isBareKey
    if word.isEmpty then none else some (String.ofList word, chars.dropWhile isBareKey)

/-- The parts of a key, at least one, with blanks around the dots. -/
def takeKeyParts? : Nat → List Char → Option (List String × List Char)
  | 0, _ => none
  | fuel + 1, chars => do
    let (part, rest) ← takeKeyPart? (skipSpace chars)
    match skipSpace rest with
    | '.' :: rest =>
      let (parts, rest) ← takeKeyParts? fuel rest
      some (part :: parts, rest)
    | rest => some ([part], rest)

/-- Most parts of a key, and most brackets and braces around a value. -/
def maxNesting : Nat := 79

/-- The key in front. -/
def takeKey? (chars : List Char) : Option (List String × List Char) :=
  (takeKeyParts? (chars.length + 1) chars).filter fun (parts, _) => parts.length ≤ maxNesting

/-- A comment in front skipped; it runs to the end of the line. -/
def skipComment : List Char → List Char
  | '#' :: rest => rest.dropWhile isText
  | chars => chars

/-- Blanks, line ends and comments in front skipped. -/
def skipLines : Nat → List Char → List Char
  | 0, chars => chars
  | fuel + 1, chars =>
    let rest := skipComment (skipBlank chars.length chars)
    if rest.length < chars.length then skipLines fuel rest else chars

mutual

/-- The value in front; at most `depth` brackets and braces may be nested in it. -/
def takeValue? : Nat → Nat → List Char → Option (Value × List Char)
  | 0, _, _ => none
  | fuel + 1, depth, chars =>
    match chars, depth with
    | '[' :: _, 0 | '\x7b' :: _, 0 => none
    | '[' :: rest, depth + 1 => takeItems? fuel depth [] rest
    | '\x7b' :: rest, depth + 1 =>
      match skipSpace rest with
      | '\x7d' :: rest => some (.table [], rest)
      | rest => takePairs? fuel depth [] rest
    | '"' :: _, _ | '\x27' :: _, _ =>
      (takeString? chars).map fun (text, rest) => (.string text, rest)
    | chars, _ => takeScalar? chars

/-- The items of an array up to its closing bracket; a comma may stand after the last. -/
def takeItems? : Nat → Nat → List Value → List Char → Option (Value × List Char)
  | 0, _, _, _ => none
  | fuel + 1, depth, done, chars =>
    match skipLines (chars.length + 1) chars with
    | ']' :: rest => some (.array done.reverse, rest)
    | rest => do
      let (v, rest) ← takeValue? fuel depth rest
      match skipLines (rest.length + 1) rest with
      | ',' :: rest => takeItems? fuel depth (v :: done) rest
      | ']' :: rest => some (.array (v :: done).reverse, rest)
      | _ => none

/-- The pairs of an inline table up to its closing brace. -/
def takePairs? : Nat → Nat → Entries → List Char → Option (Value × List Char)
  | 0, _, _, _ => none
  | fuel + 1, depth, entries, chars => do
    let (key, rest) ← takeKey? chars
    match rest with
    | '=' :: rest =>
      let (v, rest) ← takeValue? fuel depth (skipSpace rest)
      let entries ← Entries.add v key entries
      match skipSpace rest with
      | ',' :: rest => takePairs? fuel depth entries rest
      | '\x7d' :: rest => some ((Node.table false false entries).toValue, rest)
      | _ => none
    | _ => none

end

/-- The end of a line: blanks, a comment, then a line end or the end of the document. -/
def endLine? (chars : List Char) : Option (List Char) :=
  match skipComment (skipSpace chars) with
  | [] => some []
  | rest => newline? rest

/-- A document in the making: what it says so far, and the table the lines belong to. -/
structure Reading where
  entries : Entries := []
  current : List String := []

/-- Reads one line that is not blank. -/
def Reading.line? (r : Reading) (chars : List Char) : Option (Reading × List Char) := do
  match chars with
  | '[' :: '[' :: rest =>
    let (path, rest) ← takeKey? rest
    match rest with
    | ']' :: ']' :: rest =>
      some ({ entries := ← r.entries.openArray path, current := path }, ← endLine? rest)
    | _ => none
  | '[' :: rest =>
    let (path, rest) ← takeKey? rest
    match rest with
    | ']' :: rest =>
      some ({ entries := ← r.entries.openTable path, current := path }, ← endLine? rest)
    | _ => none
  | chars =>
    let (key, rest) ← takeKey? chars
    match rest with
    | '=' :: rest =>
      let (v, rest) ← takeValue? (chars.length + 1) maxNesting (skipSpace rest)
      let entries ← Entries.descend (Entries.add v key) r.current r.entries
      some ({ r with entries }, ← endLine? rest)
    | _ => none

/-- Reads lines to the end of the document. -/
def Reading.lines? : Nat → Reading → List Char → Option Reading
  | 0, _, _ => none
  | fuel + 1, r, chars =>
    match skipLines (chars.length + 1) chars with
    | [] => some r
    | rest => do
      let (r, rest) ← r.line? rest
      lines? fuel r rest

/-- The table a document describes. A byte order mark in front is skipped. -/
def parse? (text : String) : Option Table :=
  let chars := match text.toList with
    | '\ufeff' :: rest => rest
    | chars => chars
  (Reading.lines? (chars.length + 1) {} chars).map fun r => Node.toValue.finish r.entries

end UnitHost.Toml
