/-!
# UTF-8

Texts travel between the host and a program as bytes. `encode` gives the bytes of a text;
`scan` reads bytes one at a time and yields a character for each well-formed sequence and
`none` for each maximal ill-formed one. `lossy` writes the replacement character for the
latter, `decode?` refuses them.
-/

namespace UnitHost.Text.Utf8

/-- The bytes of a text. -/
def encode (text : String) : List UInt8 :=
  text.toList.flatMap String.utf8EncodeChar

/-- The byte at a place of a text. -/
def byte? (text : String) (i : Nat) : Option UInt8 :=
  if inside : i < text.utf8ByteSize then some (text.getUTF8Byte ⟨i⟩ inside) else none

/-- Where reading stands between two bytes. -/
inductive Position where
  /-- Between characters. -/
  | between
  /-- Inside a character of which `more` bytes follow the next one. The next byte has to lie in
  `low`–`high`; `bits` holds the payload read so far. -/
  | inside (more bits : Nat) (low high : UInt8)
  deriving DecidableEq, Repr

/-- Reading in progress: the position and what has been read, `none` for an ill-formed sequence. -/
structure Decoding where
  position : Position := .between
  read : Array (Option Char) := #[]

namespace Decoding

/-- One more character, or an ill-formed sequence, is complete. -/
def emit (d : Decoding) (c : Option Char) : Decoding :=
  { position := .between, read := d.read.push c }

/-- A character has begun and owes more bytes. -/
def await (d : Decoding) (more bits : Nat) (low high : UInt8) : Decoding :=
  { d with position := .inside more bits low high }

/-- The first byte of a character. -/
def first (d : Decoding) (b : UInt8) : Decoding :=
  if b < 0x80 then d.emit (some (Char.ofNat b.toNat))
  else if b < 0xC2 then d.emit none
  else if b < 0xE0 then d.await 0 (b.toNat - 0xC0) 0x80 0xBF
  else if b = 0xE0 then d.await 1 0 0xA0 0xBF
  else if b = 0xED then d.await 1 0xD 0x80 0x9F
  else if b < 0xF0 then d.await 1 (b.toNat - 0xE0) 0x80 0xBF
  else if b = 0xF0 then d.await 2 0 0x90 0xBF
  else if b < 0xF4 then d.await 2 (b.toNat - 0xF0) 0x80 0xBF
  else if b = 0xF4 then d.await 2 4 0x80 0x8F
  else d.emit none

/-- One byte. A byte that cannot continue the character begun ends it as ill-formed and is read
again as the first byte of the next. -/
def next (d : Decoding) (b : UInt8) : Decoding :=
  match d.position with
  | .between => d.first b
  | .inside more bits low high =>
    if low ≤ b ∧ b ≤ high then
      let bits := bits * 64 + (b.toNat - 0x80)
      match more with
      | 0 => d.emit (some (Char.ofNat bits))
      | more + 1 => d.await more bits 0x80 0xBF
    else (d.emit none).first b

/-- The end of the bytes; a character still owed is ill-formed. -/
def finish (d : Decoding) : List (Option Char) :=
  match d.position with
  | .between => d.read.toList
  | .inside .. => (d.read.push none).toList

end Decoding

/-- The characters of a byte sequence, `none` for each maximal ill-formed part. -/
def scan (bytes : List UInt8) : List (Option Char) :=
  (bytes.foldl Decoding.next {}).finish

/-- What is written for an ill-formed part. -/
def replacement : Char := '�'

/-- The text of a byte sequence, ill-formed parts replaced. -/
def lossy (bytes : List UInt8) : String :=
  String.ofList ((scan bytes).map (·.getD replacement))

/-- The text of a well-formed byte sequence. -/
def decode? (bytes : List UInt8) : Option String :=
  ((scan bytes).mapM id).map String.ofList

end UnitHost.Text.Utf8
