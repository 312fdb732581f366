import UnitHost.Text.Printable

/-!
# Quoted text

Text as log records show it: between double quotes, with a backslash before quotes and
backslashes, the usual letters for line ends, tabs and NUL, and numbers for whatever has no shape.
-/

namespace UnitHost.Text

/-- The hexadecimal digits of a number, in lower case and without leading zeros. -/
def hex (n : Nat) : String :=
  String.ofList (Nat.toDigits 16 n)

/-- One character of a quoted text. -/
def quoteChar (c : Char) : String :=
  if c == '"' then "\\\""
  else if c == '\\' then "\\\\"
  else if c == '\n' then "\\n"
  else if c == '\r' then "\\r"
  else if c == '\t' then "\\t"
  else if c == '\x00' then "\\0"
  else if isPrintable c then c.toString
  else "\\u\x7b" ++ hex c.toNat ++ "\x7d"

/-- The text between quotes. -/
def quote (text : String) : String :=
  "\"" ++ String.join (text.toList.map quoteChar) ++ "\""

end UnitHost.Text
