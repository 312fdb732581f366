/-!
# Balance

Whether an input is complete: as many brackets are closed as were opened, whatever their shape.
Brackets inside string literals do not count; a literal runs from a quote to the next quote that no
backslash escapes.
-/

namespace UnitHost.Shell

/-- An opening bracket, whatever its shape. -/
def isOpening (c : Char) : Bool := c == '(' || c == '[' || c == '\x7b'

/-- A closing bracket, whatever its shape. -/
def isClosing (c : Char) : Bool := c == ')' || c == ']' || c == '\x7d'

/-- Where reading stands inside an input. -/
structure Balance where
  /-- Brackets opened less brackets closed, counted in 32 bits. -/
  depth : Int32 := 0
  /-- Inside a string literal. -/
  quoted : Bool := false
  /-- The next character is escaped. -/
  escaped : Bool := false
  deriving DecidableEq, Repr

namespace Balance

/-- One character. -/
def next (b : Balance) (c : Char) : Balance :=
  if b.escaped then { b with escaped := false }
  else if b.quoted then
    if c == '\\' then { b with escaped := true }
    else if c == '"' then { b with quoted := false }
    else b
  else if c == '"' then { b with quoted := true }
  else if isOpening c then { b with depth := b.depth + 1 }
  else if isClosing c then { b with depth := b.depth - 1 }
  else b

end Balance

/-- Where reading stands after a text. -/
def balance (text : List Char) : Balance := text.foldl Balance.next {}

/-- No more brackets are open than were closed. -/
def isBalanced (text : String) : Bool := (balance text.toList).depth ≤ 0

end UnitHost.Shell
