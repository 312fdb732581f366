/-!
# White space

The characters of the Unicode property White_Space, and the two readings of a line that rest on
them: its words and its trimmed text.
-/

namespace UnitHost.Text

/-- Unicode White_Space. -/
def isBlank (c : Char) : Bool :=
  let n := c.toNat
  (0x09 ≤ n && n ≤ 0x0D) || n == 0x20 || n == 0x85 || n == 0xA0 || n == 0x1680 ||
    (0x2000 ≤ n && n ≤ 0x200A) || n == 0x2028 || n == 0x2029 || n == 0x202F || n == 0x205F ||
    n == 0x3000

/-- One more character in front of the words read so far; the first of them may still grow. -/
def extendWords (c : Char) : List (List Char) → List (List Char)
  | [] => if isBlank c then [[]] else [[c]]
  | w :: ws => if isBlank c then [] :: w :: ws else (c :: w) :: ws

/-- The maximal runs of characters that are not blank, in order. -/
def words (text : String) : List String :=
  ((text.toList.foldr extendWords [[]]).filter (!·.isEmpty)).map String.ofList

/-- The text without the blanks at both ends. -/
def trim (text : String) : String :=
  String.ofList ((text.toList.dropWhile isBlank).reverse.dropWhile isBlank).reverse

/-- Blanks in front of `text` up to `width` characters. -/
def padLeft (width : Nat) (text : String) : String :=
  String.ofList (List.replicate (width - text.length) ' ') ++ text

/-- Blanks after `text` up to `width` characters. -/
def padRight (width : Nat) (text : String) : String :=
  text ++ String.ofList (List.replicate (width - text.length) ' ')

end UnitHost.Text
