import UnitHost.Text.Utf8

/-!
# Tokens of module text

Module text is read one character at a time. Words, strings and parentheses are the tokens;
blanks, line comments and nested block comments separate them. A word and a string, or two
strings, must not touch.
-/

namespace UnitHost.Wasm.Text

/-- A token. -/
inductive Token where
  | opening
  | closing
  | word (text : String)
  | string (bytes : List UInt8)
  deriving DecidableEq, Repr

/-- What the characters read last belong to. Parts of a token are held in reverse. -/
inductive Lexeme where
  | blank
  | word (chars : List Char)
  /-- A string after its closing quote. -/
  | closed (bytes : List UInt8)
  | string (bytes : List UInt8)
  /-- A string after a backslash. -/
  | escape (bytes : List UInt8)
  /-- A string after a backslash and one hexadecimal digit. -/
  | escapeByte (bytes : List UInt8) (high : Nat)
  /-- A string after a backslash and `u`. -/
  | escapeOpen (bytes : List UInt8)
  /-- A string inside a character number; `digit` says that a digit was read last. -/
  | escapeChar (bytes : List UInt8) (value : Nat) (digit : Bool)
  /-- An opening parenthesis, which a semicolon makes a comment. -/
  | parenthesis
  /-- A semicolon, which a second one makes a comment. -/
  | semicolon
  | lineComment
  /-- A block comment; inside it, an opening parenthesis or a semicolon may have been read last. -/
  | blockComment (depth : Nat) (last : Option Char)
  deriving DecidableEq, Repr

/-- Reading in progress; the tokens are held in reverse. -/
structure Lexing where
  lexeme : Lexeme := .blank
  tokens : List Token := []

/-- Characters of words other than letters and digits. -/
def wordSigns : List Char :=
  ['$', '.', '_', '-', '=', '+', ':', '/', '*', '!', '#', '%', '&', '\x27', '<', '>', '?', '@', '\\',
    '^', '\x60', '|', '~']

/-- Characters of words. -/
def isWordChar (c : Char) : Bool :=
  c.isAlphanum || wordSigns.contains c

/-- Blanks of module text. -/
def isSpace (c : Char) : Bool :=
  c == ' ' || c == '\t' || c == '\n' || c == '\r'

/-- Characters that turn the direction of writing, which neither strings nor comments may hold. -/
def isTurning (c : Char) : Bool :=
  [0x202A, 0x202B, 0x202D, 0x202E, 0x2066, 0x2067, 0x2068, 0x206C, 0x2069].contains c.toNat

/-- The value of a hexadecimal digit. -/
def hexDigit? (c : Char) : Option Nat :=
  if '0' ≤ c ∧ c ≤ '9' then some (c.toNat - '0'.toNat)
  else if 'a' ≤ c ∧ c ≤ 'f' then some (c.toNat - 'a'.toNat + 10)
  else if 'A' ≤ c ∧ c ≤ 'F' then some (c.toNat - 'A'.toNat + 10)
  else none

/-- The number is that of a character. -/
def isScalar (n : Nat) : Bool :=
  n < 0xD800 || (0xDFFF < n && n < 0x110000)

namespace Lexing

/-- A token is complete. -/
def push (l : Lexing) (t : Token) (lexeme : Lexeme := .blank) : Lexing :=
  { lexeme, tokens := t :: l.tokens }

/-- The reading goes on inside `lexeme`. -/
def move (l : Lexing) (lexeme : Lexeme) : Lexing := { l with lexeme }

/-- A character between tokens. -/
def start (l : Lexing) (c : Char) : Option Lexing :=
  if isSpace c then some (l.move .blank)
  else if c == '(' then some (l.move .parenthesis)
  else if c == ')' then some (l.push .closing)
  else if c == ';' then some (l.move .semicolon)
  else if c == '"' then some (l.move (.string []))
  else if isWordChar c then some (l.move (.word [c]))
  else none

/-- A character inside a string. -/
def inString (l : Lexing) (bytes : List UInt8) (c : Char) : Option Lexing :=
  if c == '"' then some (l.move (.closed bytes))
  else if c == '\\' then some (l.move (.escape bytes))
  else if c.toNat < 0x20 || c.toNat == 0x7F || isTurning c then none
  else some (l.move (.string ((String.utf8EncodeChar c).reverse ++ bytes)))

/-- The character after a backslash. -/
def inEscape (l : Lexing) (bytes : List UInt8) (c : Char) : Option Lexing :=
  if c == 't' then some (l.move (.string (9 :: bytes)))
  else if c == 'n' then some (l.move (.string (10 :: bytes)))
  else if c == 'r' then some (l.move (.string (13 :: bytes)))
  else if c == '"' || c == '\x27' || c == '\\' then
    some (l.move (.string (UInt8.ofNat c.toNat :: bytes)))
  else if c == 'u' then some (l.move (.escapeOpen bytes))
  else (hexDigit? c).map fun high => l.move (.escapeByte bytes high)

/-- A character of a character number: digits, single underscores between them, and the brace. -/
def inNumber (l : Lexing) (bytes : List UInt8) (value : Nat) (digit : Bool) (c : Char) :
    Option Lexing :=
  if c == '\x7d' then
    if digit && isScalar value then
      some (l.move (.string ((String.utf8EncodeChar (Char.ofNat value)).reverse ++ bytes)))
    else none
  else if c == '_' then
    if digit then some (l.move (.escapeChar bytes value false)) else none
  else do
    let d ← hexDigit? c
    let value := value * 16 + d
    if value < 0x110000 then some (l.move (.escapeChar bytes value true)) else none

/-- A character of a block comment. -/
def inComment (l : Lexing) (depth : Nat) (last : Option Char) (c : Char) : Option Lexing :=
  if isTurning c then none
  else if c == ';' && last == some '(' then some (l.move (.blockComment (depth + 1) none))
  else if c == ')' && last == some ';' then
    match depth with
    | 0 => some (l.move .blank)
    | depth + 1 => some (l.move (.blockComment depth none))
  else if c == '(' || c == ';' then some (l.move (.blockComment depth (some c)))
  else some (l.move (.blockComment depth none))

/-- One character. -/
def next (l : Lexing) (c : Char) : Option Lexing :=
  match l.lexeme with
  | .blank => l.start c
  | .word chars =>
    if isWordChar c then some (l.move (.word (c :: chars)))
    else if c == '"' then none
    else (l.push (.word (String.ofList chars.reverse))).start c
  | .closed bytes =>
    if isWordChar c || c == '"' then none else (l.push (.string bytes.reverse)).start c
  | .string bytes => l.inString bytes c
  | .escape bytes => l.inEscape bytes c
  | .escapeByte bytes high =>
    (hexDigit? c).map fun low => l.move (.string (UInt8.ofNat (high * 16 + low) :: bytes))
  | .escapeOpen bytes => if c == '\x7b' then some (l.move (.escapeChar bytes 0 false)) else none
  | .escapeChar bytes value digit => l.inNumber bytes value digit c
  | .parenthesis =>
    if c == ';' then some (l.move (.blockComment 0 none)) else (l.push .opening).start c
  | .semicolon => if c == ';' then some (l.move .lineComment) else none
  | .lineComment =>
    if c == '\n' || c == '\r' then some (l.move .blank)
    else if isTurning c then none
    else some l
  | .blockComment depth last => l.inComment depth last c

/-- The end of the text; a string or a block comment must not be left open. -/
def finish (l : Lexing) : Option (List Token) :=
  match l.lexeme with
  | .blank | .lineComment => some l.tokens.reverse
  | .word chars => some (l.push (.word (String.ofList chars.reverse))).tokens.reverse
  | .closed bytes => some (l.push (.string bytes.reverse)).tokens.reverse
  | .parenthesis => some (l.push .opening).tokens.reverse
  | _ => none

end Lexing

/-- The tokens of a module text. -/
def Token.ofText? (text : List Char) : Option (List Token) :=
  (text.foldlM Lexing.next {}).bind Lexing.finish

end UnitHost.Wasm.Text
