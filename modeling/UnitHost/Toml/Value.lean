/-!
# TOML values

What a TOML document says. Tables keep their keys in order of appearance, and no key twice.
-/

namespace UnitHost.Toml

/-- A value. Floats are only told apart from other values, so their digits are kept as text. -/
inductive Value where
  | string (text : String)
  | integer (n : Int)
  | float (text : String)
  | boolean (b : Bool)
  | datetime (text : String)
  | array (items : List Value)
  | table (entries : List (String × Value))
  deriving Repr

/-- A document: the entries of its outermost table. -/
abbrev Table := List (String × Value)

end UnitHost.Toml
