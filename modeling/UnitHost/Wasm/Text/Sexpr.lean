import UnitHost.Wasm.Text.Token

/-!
# Parenthesised text

Tokens grouped by their parentheses, and the readings of single words: identifiers, numbers and
references to either.
-/

namespace UnitHost.Wasm.Text

/-- A word, a string or a parenthesised list. -/
inductive Sexpr where
  | word (text : String)
  | string (bytes : List UInt8)
  | list (items : List Sexpr)
  deriving Repr

namespace Sexpr

/-- Lists that are still open, innermost first, and the items of the innermost; all in reverse. -/
structure Nesting where
  outer : List (List Sexpr) := []
  items : List Sexpr := []

/-- One token. -/
def Nesting.next (n : Nesting) : Token → Option Nesting
  | .word text => some { n with items := .word text :: n.items }
  | .string bytes => some { n with items := .string bytes :: n.items }
  | .opening => some { outer := n.items :: n.outer, items := [] }
  | .closing =>
    match n.outer with
    | [] => none
    | items :: outer => some { outer, items := .list n.items.reverse :: items }

/-- The items of a token sequence whose parentheses match. -/
def ofTokens? (tokens : List Token) : Option (List Sexpr) := do
  let n ← tokens.foldlM Nesting.next {}
  if n.outer.isEmpty then some n.items.reverse else none

end Sexpr

/-- A reference to an object by its identifier or by its index. -/
inductive Ref where
  | id (name : String)
  | index (n : Nat)
  deriving DecidableEq, Repr

/-- The value of digits in a base, with single underscores between them. -/
def digits? (base : Nat) (chars : List Char) : Option Nat :=
  go 0 false chars
where
  /-- Reads on after `value`; `digit` says that a digit was read last. -/
  go (value : Nat) (digit : Bool) : List Char → Option Nat
    | [] => if digit then some value else none
    | '_' :: rest => if digit then go value false rest else none
    | c :: rest => do
      let d ← hexDigit? c
      if d < base then go (value * base + d) true rest else none

/-- A number without a sign, decimal or hexadecimal. -/
def natural? : List Char → Option Nat
  | '0' :: 'x' :: rest => digits? 16 rest
  | chars => digits? 10 chars

/-- A number that is not negative; a plus sign may stand in front. -/
def unsigned? : List Char → Option Nat
  | '+' :: rest => natural? rest
  | chars => natural? chars

/-- A number with an optional sign. -/
def integer? (text : String) : Option Int :=
  match text.toList with
  | '-' :: rest => (natural? rest).map fun n => -(n : Int)
  | chars => (unsigned? chars).map fun n => (n : Int)

/-- A word of `bits` bits, given as a signed or as an unsigned number. -/
def wordOf? (bits : Nat) (text : String) : Option Nat := do
  let n ← integer? text
  if -(Nat.pow 2 (bits - 1) : Nat) ≤ n ∧ n < (Nat.pow 2 bits : Nat) then some (n % (Nat.pow 2 bits : Nat)).toNat
  else none

/-- An identifier: a dollar sign and at least one more character. -/
def isId (text : String) : Bool :=
  match text.toList with
  | '$' :: _ :: _ => true
  | _ => false

/-- A reference. -/
def Ref.ofWord? (text : String) : Option Ref :=
  if isId text then some (.id text)
  else match unsigned? text.toList with
    | some n => if n < Nat.pow 2 32 then some (.index n) else none
    | none => none

/-- The identifier in front, if there is one. -/
def takeId : List Sexpr → Option String × List Sexpr
  | .word text :: rest => if isId text then (some text, rest) else (none, .word text :: rest)
  | items => (none, items)

/-- The reference in front. -/
def takeRef? : List Sexpr → Option (Ref × List Sexpr)
  | .word text :: rest => (Ref.ofWord? text).map (·, rest)
  | _ => none

/-- The reference in front, or the first object if there is none. -/
def takeRefOrFirst (items : List Sexpr) : Ref × List Sexpr :=
  (takeRef? items).getD (.index 0, items)

end UnitHost.Wasm.Text
