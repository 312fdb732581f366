import UnitHost.Toml.Scalar

/-!
# Quoted text

Strings on one line or on several, with escapes or taken literally. A line end inside a string is a
single newline, however it is written in the document.
-/

namespace UnitHost.Toml

/-- Characters a string or a comment may hold: all but controls other than the tab. -/
def isText (c : Char) : Bool :=
  c == '\t' || (0x20 ≤ c.toNat && c.toNat != 0x7F)

/-- The character of a number given in hexadecimal digits. -/
def numbered? (width : Nat) (chars : List Char) : Option (Char × List Char) := do
  let digits := chars.take width
  if digits.length == width && digits.all (digit? 16 · |>.isSome) then
    let n ← digits? 16 digits
    if n < 0xD800 || (0xDFFF < n && n < 0x110000) then some (Char.ofNat n, chars.drop width) else none
  else none

/-- The character after a backslash. -/
def escape? : List Char → Option (Char × List Char)
  | 'b' :: rest => some ('\x08', rest)
  | 't' :: rest => some ('\t', rest)
  | 'n' :: rest => some ('\n', rest)
  | 'f' :: rest => some ('\x0c', rest)
  | 'r' :: rest => some ('\r', rest)
  | '"' :: rest => some ('"', rest)
  | '\\' :: rest => some ('\\', rest)
  | 'u' :: rest => numbered? 4 rest
  | 'U' :: rest => numbered? 8 rest
  | _ => none

/-- A line end in front. -/
def newline? : List Char → Option (List Char)
  | '\n' :: rest => some rest
  | '\r' :: '\n' :: rest => some rest
  | _ => none

/-- Blanks of a line. -/
def isSpace (c : Char) : Bool := c == ' ' || c == '\t'

/-- Blanks and line ends in front. -/
def skipBlank : Nat → List Char → List Char
  | 0, chars => chars
  | fuel + 1, chars =>
    match newline? chars, chars with
    | some rest, _ => skipBlank fuel rest
    | none, c :: rest => if isSpace c then skipBlank fuel rest else chars
    | none, [] => []

/-- A backslash at the end of a line joins it with the next text: the rest after the blanks. -/
def joined? (fuel : Nat) (chars : List Char) : Option (List Char) :=
  (newline? (chars.dropWhile isSpace)).map (skipBlank fuel)

/-- A string on one line, after its opening quote. -/
def basic? : Nat → List Char → List Char → Option (String × List Char)
  | 0, _, _ => none
  | _ + 1, _, [] => none
  | _ + 1, done, '"' :: rest => some (String.ofList done.reverse, rest)
  | fuel + 1, done, '\\' :: rest => do
    let (c, rest) ← escape? rest
    basic? fuel (c :: done) rest
  | fuel + 1, done, c :: rest => if isText c then basic? fuel (c :: done) rest else none

/-- A literal string on one line, after its opening quote. -/
def literalString? : List Char → List Char → Option (String × List Char)
  | _, [] => none
  | done, c :: rest =>
    if c == '\x27' then some (String.ofList done.reverse, rest)
    else if isText c then literalString? (c :: done) rest
    else none

/-- The end of a string on several lines: three quotes, of which up to two more belong to the text. -/
def closing? (quote : Char) (chars : List Char) : Option (List Char × List Char) :=
  let quotes := (chars.takeWhile (· == quote)).length
  if quotes < 3 then none
  else if quotes ≤ 5 then some (List.replicate (quotes - 3) quote, chars.drop quotes)
  else some (List.replicate 2 quote, chars.drop 5)

/-- A string on several lines, after its opening quotes. -/
def multiline? (quote : Char) (escapes : Bool) :
    Nat → List Char → List Char → Option (String × List Char)
  | 0, _, _ => none
  | _ + 1, _, [] => none
  | fuel + 1, done, c :: rest =>
    match closing? quote (c :: rest), newline? (c :: rest) with
    | some (more, rest), _ => some (String.ofList (done.reverse ++ more), rest)
    | none, some rest => multiline? quote escapes fuel ('\n' :: done) rest
    | none, none =>
      if escapes && c == '\\' then
        match joined? fuel rest, escape? rest with
        | some rest, _ => multiline? quote escapes fuel done rest
        | none, some (c, rest) => multiline? quote escapes fuel (c :: done) rest
        | none, none => none
      else if isText c then multiline? quote escapes fuel (c :: done) rest
      else none

/-- A line end right after the opening quotes does not belong to the text. -/
def skipNewline (chars : List Char) : List Char := (newline? chars).getD chars

/-- The string in front, of any form. -/
def takeString? (chars : List Char) : Option (String × List Char) :=
  let fuel := chars.length + 1
  match chars with
  | '"' :: '"' :: '"' :: rest => multiline? '"' true fuel [] (skipNewline rest)
  | '\x27' :: '\x27' :: '\x27' :: rest => multiline? '\x27' false fuel [] (skipNewline rest)
  | '"' :: rest => basic? fuel [] rest
  | '\x27' :: rest => literalString? [] rest
  | _ => none

/-- The string in front, on one line. -/
def takeLineString? (chars : List Char) : Option (String × List Char) :=
  match chars with
  | '"' :: rest => basic? (chars.length + 1) [] rest
  | '\x27' :: rest => literalString? [] rest
  | _ => none

end UnitHost.Toml
