import Std.Data.TreeMap.Lemmas
import UnitHost.Failure
import UnitHost.Text.Utf8

/-!
# Linear memory

A memory of whole pages. Only what was written so far is held; every other byte is zero. A text put
at the start is held as the text it is, so one that fills all of memory takes no more room than it
does by itself, and single bytes lie over the texts. The bound on the held addresses is part of the
type, so a page that growth adds reads as zero.

Texts pass through memory as UTF-8: `writeText` puts one at the start, all of it or nothing, and
`readText` reads any range that lies inside.
-/

namespace UnitHost

/-- Bytes of a page. -/
def pageSize : Nat := 65536

/-- Most pages a memory can have. -/
def maxPages : Nat := 65536

/-- What was written to a memory. -/
structure Cells where
  /-- Single bytes, which lie over the texts. -/
  bytes : Std.TreeMap Nat UInt8 := {}
  /-- Texts put at the start, the latest first. -/
  texts : List String := []

namespace Cells

/-- Something was written at an address. -/
instance : Membership Nat Cells where
  mem c i := i ∈ c.bytes ∨ ∃ text ∈ c.texts, i < text.utf8ByteSize

theorem mem_iff {c : Cells} {i : Nat} :
    i ∈ c ↔ i ∈ c.bytes ∨ ∃ text ∈ c.texts, i < text.utf8ByteSize := Iff.rfl

/-- The byte at an address, zero where nothing was written. -/
def get (c : Cells) (i : Nat) : UInt8 :=
  c.bytes.getD i ((c.texts.findSome? (Text.Utf8.byte? · i)).getD 0)

theorem get_of_not_mem {c : Cells} {i : Nat} (absent : i ∉ c) : c.get i = 0 := by
  have bytes : i ∉ c.bytes := fun held => absent (.inl held)
  have texts : c.texts.findSome? (Text.Utf8.byte? · i) = none :=
    List.findSome?_eq_none_iff.2 fun text held => dif_neg fun inside => absent (.inr ⟨text, held, inside⟩)
  rw [get, Std.TreeMap.getD_eq_fallback bytes, texts, Option.getD_none]

/-- Puts single bytes, from an address on. -/
def fillBytes (bytes : Std.TreeMap Nat UInt8) (address : Nat) : List UInt8 → Std.TreeMap Nat UInt8
  | [] => bytes
  | b :: rest => fillBytes (bytes.insert address b) (address + 1) rest

theorem mem_fillBytes {bytes : Std.TreeMap Nat UInt8} {address i : Nat} {new : List UInt8} :
    i ∈ fillBytes bytes address new ↔ i ∈ bytes ∨ address ≤ i ∧ i < address + new.length := by
  induction new generalizing bytes address with
  | nil => exact ⟨Or.inl, fun h => h.elim id fun ⟨low, high⟩ => absurd high (Nat.not_lt.2 low)⟩
  | cons b rest ih =>
    simp only [fillBytes, ih, Std.TreeMap.mem_insert, Nat.compare_eq_eq, List.length_cons]
    by_cases hi : i ∈ bytes
    · simp [hi]
    · simp only [hi, or_false, false_or]; omega

/-- Puts bytes, from an address on. -/
def fill (c : Cells) (address : Nat) (bytes : List UInt8) : Cells :=
  { c with bytes := fillBytes c.bytes address bytes }

theorem mem_fill {c : Cells} {address i : Nat} {bytes : List UInt8} (h : i ∈ c.fill address bytes) :
    i ∈ c ∨ i < address + bytes.length := by
  rcases h with single | text
  · rcases mem_fillBytes.1 single with old | ⟨-, new⟩
    · exact .inl (.inl old)
    · exact .inr new
  · exact .inl (.inr text)

/-- Puts a text at the start. Single bytes in its range take its bytes; texts that it hides go. -/
def put (c : Cells) (text : String) : Cells where
  bytes := c.bytes.map fun i b => (Text.Utf8.byte? text i).getD b
  texts := text :: c.texts.filter fun old => text.utf8ByteSize < old.utf8ByteSize

theorem mem_put {c : Cells} {text : String} {i : Nat} (h : i ∈ c.put text) :
    i ∈ c ∨ i < text.utf8ByteSize := by
  rcases h with single | ⟨shown, held, inside⟩
  · exact .inl (.inl (Std.TreeMap.mem_map.1 single))
  · rcases List.mem_cons.1 held with rfl | old
    · exact .inr inside
    · exact .inl (.inr ⟨shown, (List.mem_filter.1 old).1, inside⟩)

end Cells

/-- A linear memory. -/
structure Memory where
  pages : Nat
  /-- Most pages it may grow to, if it was declared with a maximum. -/
  maximum : Option Nat := none
  cells : Cells := {}
  cells_lt : ∀ i ∈ cells, i < pages * pageSize

namespace Memory

/-- Zeroed pages. -/
def zeroed (pages : Nat) (maximum : Option Nat := none) : Memory where
  pages
  maximum
  cells_lt := by simp [Cells.mem_iff]

/-- Bytes of the memory. -/
def size (m : Memory) : Nat := m.pages * pageSize

/-- The byte at an address. -/
def byte (m : Memory) (address : Nat) : UInt8 := m.cells.get address

/-- The `count` bytes from an address on. -/
def slice (m : Memory) (address count : Nat) : List UInt8 :=
  (List.range' address count).map m.byte

/-- The memory with bytes written from an address on. -/
def patch (m : Memory) (address : Nat) (bytes : List UInt8)
    (fits : address + bytes.length ≤ m.size) : Memory where
  pages := m.pages
  maximum := m.maximum
  cells := m.cells.fill address bytes
  cells_lt := by
    intro i hi
    rcases Cells.mem_fill hi with old | new
    · exact m.cells_lt i old
    · exact Nat.lt_of_lt_of_le new fits

/-- Writes bytes from an address on, if they all lie inside. -/
def write? (m : Memory) (address : Nat) (bytes : List UInt8) : Option Memory :=
  if fits : address + bytes.length ≤ m.size then some (m.patch address bytes fits) else none

/-- Sets a range to one byte, if it lies inside. -/
def fill? (m : Memory) (address count : Nat) (b : UInt8) : Option Memory :=
  if fits : address + count ≤ m.size then
    some (m.patch address (List.replicate count b) (by simpa using fits))
  else none

/-- Reads a range, if it lies inside. -/
def readBytes (m : Memory) (address count : Nat) : Except Failure (List UInt8) :=
  if address + count ≤ m.size then .ok (m.slice address count)
  else .error (.outOfBounds address count m.size)

/-- Reads a range as text, ill-formed parts replaced. -/
def readText (m : Memory) (address count : Nat) : Except Failure String :=
  (m.readBytes address count).map Text.Utf8.lossy

/-- Where texts for the program are put. -/
def scratchOffset : Nat := 0

/-- The memory with a text put at the start. -/
def put (m : Memory) (text : String) (fits : text.utf8ByteSize ≤ m.size) : Memory where
  pages := m.pages
  maximum := m.maximum
  cells := m.cells.put text
  cells_lt := by
    intro i hi
    rcases Cells.mem_put hi with old | new
    · exact m.cells_lt i old
    · exact Nat.lt_of_lt_of_le new fits

/-- Writes a text at the start and gives its length in bytes; a text that does not fit leaves
memory as it is. -/
def writeText (m : Memory) (text : String) : Except Failure (Nat × Memory) :=
  if fits : text.utf8ByteSize ≤ m.size then .ok (text.utf8ByteSize, m.put text fits)
  else .error (.outOfBounds scratchOffset text.utf8ByteSize m.size)

/-- Most pages the memory can grow to. -/
def limit (m : Memory) : Nat := min (m.maximum.getD maxPages) maxPages

/-- The memory with `delta` more pages, if its limit allows. -/
def grow? (m : Memory) (delta : Nat) : Option Memory :=
  if m.pages + delta ≤ m.limit then
    some { m with
      pages := m.pages + delta
      cells_lt := fun i hi => Nat.lt_of_lt_of_le (m.cells_lt i hi)
        (Nat.mul_le_mul_right _ (Nat.le_add_right _ _)) }
  else none

end Memory

/-- A pair of words as an address and a count, both read as unsigned. -/
def wordRange (address count : UInt32) : Nat × Nat :=
  (address.toNat, count.toNat)

end UnitHost
