import UnitHost.Toml.Value

/-!
# Numbers, truth values and times

A value that is neither quoted nor bracketed is one word, taken up to the first character no such
value contains, and then read as a whole.
-/

namespace UnitHost.Toml

/-- The value of a digit in bases up to sixteen. -/
def digit? (base : Nat) (c : Char) : Option Nat :=
  let value :=
    if '0' ≤ c ∧ c ≤ '9' then some (c.toNat - '0'.toNat)
    else if 'a' ≤ c ∧ c ≤ 'f' then some (c.toNat - 'a'.toNat + 10)
    else if 'A' ≤ c ∧ c ≤ 'F' then some (c.toNat - 'A'.toNat + 10)
    else none
  value.filter (· < base)

/-- Digits with single underscores between them. -/
def digits? (base : Nat) (chars : List Char) : Option Nat :=
  go 0 false chars
where
  /-- Reads on after `value`; `last` says that a digit was read last. -/
  go (value : Nat) (last : Bool) : List Char → Option Nat
    | [] => if last then some value else none
    | c :: rest =>
      if c == '_' then if last then go value false rest else none
      else do go (value * base + (← digit? base c)) true rest

/-- Decimal digits without a leading zero. -/
def decimal? (chars : List Char) : Option Nat :=
  match chars with
  | '0' :: _ :: _ => none
  | _ => digits? 10 chars

/-- Whether a number is negative, and the digits after its sign. -/
def splitSign : List Char → Bool × List Char
  | '-' :: rest => (true, rest)
  | '+' :: rest => (false, rest)
  | chars => (false, chars)

/-- An integer of 64 bits. A sign only goes with decimal digits. -/
def integer? (chars : List Char) : Option Int := do
  let n : Int ← match chars with
    | '0' :: 'x' :: rest => Int.ofNat <$> digits? 16 rest
    | '0' :: 'o' :: rest => Int.ofNat <$> digits? 8 rest
    | '0' :: 'b' :: rest => Int.ofNat <$> digits? 2 rest
    | chars =>
      let (negative, rest) := splitSign chars
      (fun n => if negative then -Int.ofNat n else Int.ofNat n) <$> decimal? rest
  if -(Nat.pow 2 63 : Nat) ≤ n ∧ n < (Nat.pow 2 63 : Nat) then some n else none

/-- Whether `mantissa · 10^exponent` rounds to an infinite double. -/
def overflows (mantissa : Nat) (exponent : Int) : Bool :=
  let bound := Nat.pow 2 1024 - Nat.pow 2 970
  let n := exponent.natAbs
  if mantissa == 0 then false
  else if 0 ≤ exponent then 400 < n || bound ≤ mantissa * Nat.pow 10 n
  else 3 * n ≤ mantissa.log2 && bound * Nat.pow 10 n ≤ mantissa

/-- A decimal fraction: digits, then a fraction or an exponent or both. One too large to be finite is
refused. -/
def isFloat (chars : List Char) : Bool :=
  let (negative, chars) := splitSign chars
  if chars == ['i', 'n', 'f'] || chars == ['n', 'a', 'n'] then true
  else
    let isMark (c : Char) : Bool := c == 'e' || c == 'E'
    let (base, power) := (chars.takeWhile (!isMark ·), chars.dropWhile (!isMark ·))
    let (whole, point) := (base.takeWhile (· != '.'), base.dropWhile (· != '.'))
    let fraction := point.drop 1
    let exponent : Option Int := match power with
      | [] => some 0
      | _ :: power =>
        let (down, power) := splitSign power
        (fun n => if down then -Int.ofNat n else Int.ofNat n) <$> digits? 10 power
    let places := (fraction.filter (· != '_')).length
    match decimal? whole, (if point.isEmpty then some 0 else digits? 10 fraction), exponent with
    | some w, some f, some e =>
      (!point.isEmpty || !power.isEmpty) &&
        (negative || !overflows (w * Nat.pow 10 places + f) (e - places))
    | _, _, _ => false

/-- A number of exactly `width` digits, within bounds. -/
def field? (width low high : Nat) (chars : List Char) : Option (Nat × List Char) := do
  let digits := chars.take width
  if digits.length == width && digits.all Char.isDigit then
    let n ← digits? 10 digits
    if low ≤ n ∧ n ≤ high then some (n, chars.drop width) else none
  else none

/-- The character in front is the given one. -/
def literal? (c : Char) : List Char → Option (List Char)
  | d :: rest => if c == d then some rest else none
  | [] => none

/-- The days of a month. -/
def monthDays (year month : Nat) : Nat :=
  let leap := year % 4 == 0 && (year % 100 != 0 || year % 400 == 0)
  if month == 2 then if leap then 29 else 28
  else if [4, 6, 9, 11].contains month then 30
  else 31

/-- A number in two digits. -/
def twoDigits (n : Nat) : String :=
  if n < 10 then s!"0{n}" else toString n

/-- A date in front, written out. -/
def date? (chars : List Char) : Option (String × List Char) := do
  let (year, rest) ← field? 4 0 9999 chars
  let (month, rest) ← field? 2 1 12 (← literal? '-' rest)
  let (day, rest) ← field? 2 1 (monthDays year month) (← literal? '-' rest)
  some (s!"{String.ofList (chars.take 4)}-{twoDigits month}-{twoDigits day}", rest)

/-- A time of day in front, written out; a fraction of a second has at most nine places. -/
def time? (chars : List Char) : Option (String × List Char) := do
  let (hour, rest) ← field? 2 0 23 chars
  let (minute, rest) ← field? 2 0 59 (← literal? ':' rest)
  let (second, rest) ← field? 2 0 60 (← literal? ':' rest)
  let text := s!"{twoDigits hour}:{twoDigits minute}:{twoDigits second}"
  match rest with
  | '.' :: rest =>
    let places := rest.takeWhile Char.isDigit
    if places.isEmpty then none
    else
      let kept := ((places.take 9).reverse.dropWhile (· == '0')).reverse
      some (if kept.isEmpty then text else text ++ "." ++ String.ofList kept,
        rest.dropWhile Char.isDigit)
  | rest => some (text, rest)

/-- An offset from universal time, written out; one of zero has a plus sign. -/
def offset? : List Char → Option String
  | [] => some ""
  | ['Z'] | ['z'] => some "Z"
  | sign :: rest => do
    if sign == '+' || sign == '-' then
      let (hour, rest) ← field? 2 0 23 rest
      let (minute, rest) ← field? 2 0 59 (← literal? ':' rest)
      let sign := if hour + minute == 0 then "+" else sign.toString
      if rest.isEmpty then some s!"{sign}{twoDigits hour}:{twoDigits minute}" else none
    else none

/-- A time of day with an optional offset. -/
def zonedTime? (chars : List Char) : Option String := do
  let (time, rest) ← time? chars
  some (time ++ (← offset? rest))

/-- A date, a time of day, or both, written out. -/
def datetime? (chars : List Char) : Option String :=
  match date? chars with
  | some (date, []) => some date
  | some (date, delimiter :: rest) =>
    if delimiter == 'T' || delimiter == 't' || delimiter == ' ' then
      (zonedTime? rest).map fun time => date ++ "T" ++ time
    else none
  | none =>
    match time? chars with
    | some (time, []) => some time
    | _ => none

/-- Characters of values that are neither quoted nor bracketed. -/
def isPlain (c : Char) : Bool :=
  c.isAlphanum || c == '+' || c == '-' || c == '.' || c == '_' || c == ':'

/-- The value a word stands for. -/
def scalar? (chars : List Char) : Option Value :=
  if chars == "true".toList then some (.boolean true)
  else if chars == "false".toList then some (.boolean false)
  else match datetime? chars, integer? chars with
    | some text, _ => some (.datetime text)
    | none, some n => some (.integer n)
    | none, none => if isFloat chars then some (.float (String.ofList chars)) else none

/-- The word in front. A date and the time after it may be apart by one blank. -/
def takePlain (chars : List Char) : List Char × List Char :=
  let word := chars.takeWhile isPlain
  let rest := chars.dropWhile isPlain
  match (date? word), rest with
  | some (_, []), ' ' :: d :: more =>
    if d.isDigit then
      (word ++ ' ' :: (d :: more).takeWhile isPlain, (d :: more).dropWhile isPlain)
    else (word, rest)
  | _, _ => (word, rest)

/-- The unquoted, unbracketed value in front. -/
def takeScalar? (chars : List Char) : Option (Value × List Char) :=
  let (word, rest) := takePlain chars
  (scalar? word).map (·, rest)

end UnitHost.Toml
