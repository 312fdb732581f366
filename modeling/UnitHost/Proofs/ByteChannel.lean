import Mathlib.Data.List.Induction
import Mathlib.Tactic.IntervalCases
import UnitHost.Memory

/-!
# Texts through memory

A text is put at the start of memory as UTF-8 and read back from there. Two facts carry this:

* `Utf8.lossy_encode`: the bytes of a text are read as that text, character by character, whatever it holds;
* `Memory.byte_put`: after a write a byte is the one written there, and outside the range the one there was.

A text that does not fit changes nothing, so of any sequence of writes only those that succeed count.
-/

namespace UnitHost

namespace Text.Utf8

namespace Decoding

variable {d : Decoding} {v : Nat}

/-- A first byte that owes one more. -/
theorem first_two {n : Nat} (low : 2 ≤ n) (high : n < 32) : d.first (.ofNat (n + 192)) = d.await 0 n 0x80 0xBF := by
  interval_cases n <;> rfl

/-- A first byte that owes two more. What two bytes can write does not follow payload 0, and no surrogate follows
payload 13. -/
theorem first_three {n : Nat} (high : n < 16) : d.first (.ofNat (n + 224)) =
    d.await 1 n (if n = 0 then 0xA0 else 0x80) (if n = 13 then 0x9F else 0xBF) := by
  interval_cases n <;> rfl

/-- A first byte that owes three more. What three bytes can write does not follow payload 0, and nothing above the last
character follows payload 4. -/
theorem first_four {n : Nat} (high : n < 5) : d.first (.ofNat (n + 240)) =
    d.await 2 n (if n = 0 then 0x90 else 0x80) (if n = 4 then 0x8F else 0xBF) := by
  interval_cases n <;> rfl

/-- A byte that continues a character adds six bits. -/
theorem next_await {more bits n : Nat} {low high : UInt8} (small : n < 64) (above : low.toNat ≤ n + 128)
    (below : n + 128 ≤ high.toNat) :
    (d.await more bits low high).next (.ofNat (n + 128)) =
      match more with
      | 0 => d.emit (some (.ofNat (bits * 64 + n)))
      | more + 1 => d.await more (bits * 64 + n) 0x80 0xBF := by
  have value : (UInt8.ofNat (n + 128)).toNat = n + 128 := by
    rw [UInt8.toNat_ofNat']
    omega
  have inside : low ≤ .ofNat (n + 128) ∧ .ofNat (n + 128) ≤ high := by
    rw [UInt8.le_iff_toNat_le, UInt8.le_iff_toNat_le, value]
    exact ⟨above, below⟩
  have payload : n + 128 - 0x80 = n := by omega
  unfold next await
  dsimp only
  rw [if_pos inside, value, payload]
  cases more <;> rfl

/-- The last byte of a character. -/
theorem next_last {bits n : Nat} (small : n < 64) (whole : bits * 64 + n = v) :
    (d.await 0 bits 0x80 0xBF).next (.ofNat (n + 128)) = d.emit (some (.ofNat v)) := by
  rw [next_await small (Nat.le_add_left _ _) (by show n + 128 ≤ 191; omega), whole]

section Between

variable (between : d.position = .between)

include between

theorem next_between (b : UInt8) : d.next b = d.first b := by rw [next, between]

theorem foldl_next_one (high : v < 0x80) : [UInt8.ofNat v].foldl next d = d.emit (some (.ofNat v)) := by
  have value : (UInt8.ofNat v).toNat = v := by
    rw [UInt8.toNat_ofNat']
    omega
  have ascii : UInt8.ofNat v < 0x80 := by
    rw [UInt8.lt_iff_toNat_lt, value]
    exact high
  rw [List.foldl_cons, List.foldl_nil, next_between between, first, if_pos ascii, value]

theorem foldl_next_two (low : 0x80 ≤ v) (high : v < 0x800) :
    [UInt8.ofNat (v / 64 % 32 + 192), UInt8.ofNat (v % 64 + 128)].foldl next d = d.emit (some (.ofNat v)) := by
  have payload : v / 64 % 32 = v / 64 := by omega
  rw [payload, List.foldl_cons, List.foldl_cons, List.foldl_nil, next_between between, first_two (by omega) (by omega)]
  exact next_last (by omega) (by omega)

theorem foldl_next_three (low : 0x800 ≤ v) (high : v < 0x10000) (scalar : v < 0xD800 ∨ 0xDFFF < v) :
    [UInt8.ofNat (v / 4096 % 16 + 224), UInt8.ofNat (v / 64 % 64 + 128), UInt8.ofNat (v % 64 + 128)].foldl next d =
      d.emit (some (.ofNat v)) := by
  have payload : v / 4096 % 16 = v / 4096 := by omega
  have above : (if v / 4096 = 0 then 0xA0 else 0x80 : UInt8).toNat ≤ v / 64 % 64 + 128 := by
    split
    · show 160 ≤ v / 64 % 64 + 128
      omega
    · exact Nat.le_add_left _ _
  have below : v / 64 % 64 + 128 ≤ (if v / 4096 = 13 then 0x9F else 0xBF : UInt8).toNat := by
    split
    · show v / 64 % 64 + 128 ≤ 159
      omega
    · show v / 64 % 64 + 128 ≤ 191
      omega
  rw [payload, List.foldl_cons, List.foldl_cons, List.foldl_cons, List.foldl_nil, next_between between,
    first_three (by omega), next_await (by omega) above below]
  exact next_last (by omega) (by omega)

theorem foldl_next_four (low : 0x10000 ≤ v) (high : v < 0x110000) :
    [UInt8.ofNat (v / 262144 % 8 + 240), UInt8.ofNat (v / 4096 % 64 + 128), UInt8.ofNat (v / 64 % 64 + 128),
      UInt8.ofNat (v % 64 + 128)].foldl next d = d.emit (some (.ofNat v)) := by
  have payload : v / 262144 % 8 = v / 262144 := by omega
  have above : (if v / 262144 = 0 then 0x90 else 0x80 : UInt8).toNat ≤ v / 4096 % 64 + 128 := by
    split
    · show 144 ≤ v / 4096 % 64 + 128
      omega
    · exact Nat.le_add_left _ _
  have below : v / 4096 % 64 + 128 ≤ (if v / 262144 = 4 then 0x8F else 0xBF : UInt8).toNat := by
    split
    · show v / 4096 % 64 + 128 ≤ 143
      omega
    · show v / 4096 % 64 + 128 ≤ 191
      omega
  rw [payload, List.foldl_cons, List.foldl_cons, List.foldl_cons, List.foldl_cons, List.foldl_nil,
    next_between between, first_four (by omega), next_await (by omega) above below]
  dsimp only
  rw [next_await (by omega) (Nat.le_add_left _ _) (by show v / 64 % 64 + 128 ≤ 191; omega)]
  exact next_last (by omega) (by omega)

/-- The bytes of a character are read as that character. -/
theorem foldl_next_char (c : Char) : (String.utf8EncodeChar c).foldl next d = d.emit (some c) := by
  have scalar : c.val.toNat < 0xD800 ∨ 0xDFFF < c.val.toNat ∧ c.val.toNat < 0x110000 := c.valid
  have same : some c = some (.ofNat c.val.toNat) := congrArg some (Char.ofNat_toNat c).symm
  unfold String.utf8EncodeChar
  rw [same]
  dsimp only
  generalize c.val.toNat = v at scalar
  split
  · exact foldl_next_one between (by omega)
  split
  · exact foldl_next_two between (by omega) (by omega)
  split
  · exact foldl_next_three between (by omega) (by omega) (by omega)
  · exact foldl_next_four between (by omega) (by omega)

/-- The bytes of characters are read as these characters, and reading stands between characters again. -/
theorem foldl_next_chars (cs : List Char) :
    ((cs.flatMap String.utf8EncodeChar).foldl next d).position = .between ∧
      ((cs.flatMap String.utf8EncodeChar).foldl next d).read.toList = d.read.toList ++ cs.map some := by
  induction cs generalizing d with
  | nil => exact ⟨between, (List.append_nil _).symm⟩
  | cons c cs ih =>
    rw [List.flatMap_cons, List.foldl_append, foldl_next_char between c]
    obtain ⟨position, read⟩ := ih (d := d.emit (some c)) rfl
    refine ⟨position, ?_⟩
    rw [read, emit, Array.toList_push, List.append_assoc]
    rfl

end Between

end Decoding

theorem scan_encode (text : String) : scan (encode text) = text.toList.map some := by
  obtain ⟨position, read⟩ := Decoding.foldl_next_chars (d := {}) rfl text.toList
  unfold scan encode Decoding.finish
  rw [position, read]
  rfl

/-- The bytes of a text are read as that text. -/
theorem lossy_encode (text : String) : lossy (encode text) = text := by
  have chars : (text.toList.map some).map (·.getD replacement) = text.toList := by
    rw [List.map_map]
    exact List.map_id _
  unfold lossy
  rw [scan_encode, chars, String.ofList_toList]

/-- The bytes of a text are those it is made of. -/
theorem encode_eq_toUTF8 (text : String) : encode text = text.toUTF8.data.toList := by
  have bytes : text.toList.utf8Encode = text.toUTF8 := String.utf8Encode_toList
  rw [← bytes, List.utf8Encode, List.data_toByteArray]
  rfl

theorem length_encode (text : String) : (encode text).length = text.utf8ByteSize := by
  rw [encode_eq_toUTF8, Array.length_toList]
  rfl

/-- There are texts of every length. -/
theorem exists_size (n : Nat) : ∃ text : String, text.utf8ByteSize = n := by
  refine ⟨.ofList (.replicate n 'x'), ?_⟩
  rw [← length_encode, encode, String.toList_ofList]
  simp [List.length_flatMap, String.utf8EncodeChar]

theorem byte?_of_le {text : String} {i : Nat} (outside : text.utf8ByteSize ≤ i) : byte? text i = none :=
  dif_neg (by omega)

theorem byte?_eq (text : String) (i : Nat) : byte? text i = (encode text)[i]? := by
  rcases Nat.lt_or_ge i text.utf8ByteSize with inside | outside
  · rw [byte?, dif_pos inside, encode_eq_toUTF8, Array.getElem?_toList]
    exact (Array.getElem?_eq_getElem inside).symm
  · rw [byte?_of_le outside, List.getElem?_eq_none (by rwa [length_encode])]

end Text.Utf8

/-! Bytes in memory. -/

namespace Cells

open Text

/-- A text that reaches no farther than a later one does not show behind it. -/
theorem findSome?_filter {text : String} {i : Nat} (outside : text.utf8ByteSize ≤ i) (texts : List String) :
    (texts.filter fun old => text.utf8ByteSize < old.utf8ByteSize).findSome? (Utf8.byte? · i) =
      texts.findSome? (Utf8.byte? · i) := by
  induction texts with
  | nil => rfl
  | cons old rest ih =>
    by_cases longer : text.utf8ByteSize < old.utf8ByteSize
    · rw [List.filter_cons_of_pos (by simpa using longer), List.findSome?_cons, List.findSome?_cons, ih]
    · have hidden : Utf8.byte? old i = none := Utf8.byte?_of_le (by omega)
      rw [List.filter_cons_of_neg (by simpa using longer), List.findSome?_cons, hidden, ih]

/-- Once a text was put, a byte is the text's own, behind the text the one there was. -/
theorem get_put (c : Cells) (text : String) (i : Nat) :
    (c.put text).get i = (Utf8.byte? text i).getD (c.get i) := by
  unfold get put
  rw [Std.TreeMap.getD_map, Std.TreeMap.getD_eq_getD_getElem?, List.findSome?_cons]
  cases found : Utf8.byte? text i with
  | some b => cases c.bytes[i]? <;> rfl
  | none =>
    have outside : text.utf8ByteSize ≤ i := by
      by_contra inside
      rw [Utf8.byte?, dif_pos (by omega)] at found
      cases found
    dsimp only
    rw [findSome?_filter outside]
    cases c.bytes[i]? <;> rfl

end Cells

namespace Memory

open Text

variable {m : Memory} {text : String} {texts : List String}

theorem byte_put (fits : text.utf8ByteSize ≤ m.size) (i : Nat) :
    (m.put text fits).byte i = ((Utf8.encode text)[i]?).getD (m.byte i) := by
  rw [← Utf8.byte?_eq]
  exact m.cells.get_put text i

theorem slice_put (fits : text.utf8ByteSize ≤ m.size) :
    (m.put text fits).slice 0 text.utf8ByteSize = Utf8.encode text := by
  unfold slice
  apply List.ext_getElem
  · rw [List.length_map, List.length_range', Utf8.length_encode]
  · intro i _ inside
    have position : 0 + 1 * i = i := by omega
    rw [List.getElem_map, List.getElem_range', position, byte_put, List.getElem?_eq_getElem inside, Option.getD_some]

/-! Texts at the start of memory. -/

/-- Memory after an attempt to write a text. -/
def written (m : Memory) (text : String) : Memory :=
  match m.writeText text with
  | .ok (_, m') => m'
  | .error _ => m

/-- The texts that are written when one after the other is tried. -/
def successes (m : Memory) : List String → List String
  | [] => []
  | text :: rest => (if (m.writeText text).isOk then [text] else []) ++ successes (m.written text) rest

theorem writeText_of_le (fits : text.utf8ByteSize ≤ m.size) :
    m.writeText text = .ok (text.utf8ByteSize, m.put text fits) :=
  dif_pos fits

theorem writeText_of_lt (misfit : m.size < text.utf8ByteSize) :
    m.writeText text = .error (.outOfBounds 0 text.utf8ByteSize m.size) :=
  dif_neg (by omega)

theorem written_of_le (fits : text.utf8ByteSize ≤ m.size) : m.written text = m.put text fits := by
  rw [written, writeText_of_le fits]

theorem written_of_lt (misfit : m.size < text.utf8ByteSize) : m.written text = m := by
  rw [written, writeText_of_lt misfit]

theorem size_written (m : Memory) (text : String) : (m.written text).size = m.size := by
  rcases Nat.lt_or_ge m.size text.utf8ByteSize with misfit | fits
  · rw [written_of_lt misfit]
  · rw [written_of_le fits]
    rfl

theorem readBytes_written (fits : text.utf8ByteSize ≤ m.size) :
    (m.written text).readBytes 0 text.utf8ByteSize = .ok (Utf8.encode text) := by
  have range : 0 + text.utf8ByteSize ≤ (m.written text).size := by rw [size_written]; omega
  rw [readBytes, if_pos range, written_of_le fits, slice_put fits]

theorem readText_written (fits : text.utf8ByteSize ≤ m.size) :
    (m.written text).readText 0 text.utf8ByteSize = .ok text := by
  rw [readText, readBytes_written fits, Except.map, Utf8.lossy_encode]

/-- A write changes no byte behind the text. -/
theorem byte_written {i : Nat} (behind : text.utf8ByteSize ≤ i) : (m.written text).byte i = m.byte i := by
  rcases Nat.lt_or_ge m.size text.utf8ByteSize with misfit | fits
  · rw [written_of_lt misfit]
  · rw [← Utf8.length_encode] at behind
    rw [written_of_le fits, byte_put, List.getElem?_eq_none behind, Option.getD_none]

/-! Sequences of writes. -/

theorem isOk_writeText (m : Memory) (text : String) :
    (m.writeText text).isOk = decide (text.utf8ByteSize ≤ m.size) := by
  rcases Nat.lt_or_ge m.size text.utf8ByteSize with misfit | fits
  · rw [writeText_of_lt misfit, decide_eq_false (by omega)]
    rfl
  · rw [writeText_of_le fits, decide_eq_true fits]
    rfl

theorem size_foldl_written (m : Memory) (texts : List String) : (texts.foldl written m).size = m.size := by
  induction texts generalizing m with
  | nil => rfl
  | cons text rest ih => rw [List.foldl_cons, ih, size_written]

/-- Whether a text is written does not depend on those before it. -/
theorem successes_eq_filter (m : Memory) (texts : List String) :
    m.successes texts = texts.filter fun text => decide (text.utf8ByteSize ≤ m.size) := by
  induction texts generalizing m with
  | nil => rfl
  | cons text rest ih =>
    rw [successes, isOk_writeText, ih, size_written, List.filter_cons]
    cases decide (text.utf8ByteSize ≤ m.size) <;> rfl

theorem successes_concat (m : Memory) (texts : List String) (text : String) :
    m.successes (texts ++ [text]) = m.successes texts ++ if text.utf8ByteSize ≤ m.size then [text] else [] := by
  simp only [successes_eq_filter, List.filter_append, List.filter_cons, List.filter_nil, decide_eq_true_eq]

/-- Writing only what is written, all of it with success, gives the same memory. -/
theorem foldlM_successes (m : Memory) (texts : List String) :
    (m.successes texts).foldlM (fun m text => (·.2) <$> m.writeText text) m = .ok (texts.foldl written m) := by
  induction texts using List.reverseRecOn with
  | nil => rfl
  | append_singleton texts text ih =>
    have size := size_foldl_written m texts
    rw [successes_concat, List.foldlM_append, ih, List.foldl_append, List.foldl_cons, List.foldl_nil]
    rcases Nat.lt_or_ge m.size text.utf8ByteSize with misfit | fits
    · rw [if_neg (by omega), written_of_lt (by omega)]
      rfl
    · have still : text.utf8ByteSize ≤ (texts.foldl written m).size := by omega
      have ok := writeText_of_le still
      rw [if_pos fits, written, ok]
      show ((·.2) <$> (texts.foldl written m).writeText text >>= pure) = _
      rw [ok]
      rfl

theorem readText_last {last : String} (h : (m.successes texts).getLast? = some last) :
    (texts.foldl written m).readText 0 last.utf8ByteSize = .ok last := by
  induction texts using List.reverseRecOn with
  | nil => cases h
  | append_singleton texts text ih =>
    have size := size_foldl_written m texts
    rw [successes_concat] at h
    rw [List.foldl_append, List.foldl_cons, List.foldl_nil]
    rcases Nat.lt_or_ge m.size text.utf8ByteSize with misfit | fits
    · rw [if_neg (by omega), List.append_nil] at h
      rw [written_of_lt (by omega)]
      exact ih h
    · rw [if_pos fits, List.getLast?_concat] at h
      cases h
      exact readText_written (by omega)

end Memory

/-- A text that is not longer than memory is written at its start: the write gives its length, changes no byte behind it,
and what is read there are the bytes of the text and the text itself. A longer text is refused and changes nothing. So
after any sequence of attempts memory is what the successful ones alone make of it, and the last of them is read back. -/
theorem texts_round_trip (m : Memory) (text : String) (texts : List String) :
    (if text.utf8ByteSize ≤ m.size then
      m.writeText text = .ok (text.utf8ByteSize, m.written text) ∧
      (∀ i, text.utf8ByteSize ≤ i → (m.written text).byte i = m.byte i) ∧
      (m.written text).readBytes 0 text.utf8ByteSize = .ok text.toUTF8.data.toList ∧
      (m.written text).readText 0 text.utf8ByteSize = .ok text
    else m.writeText text = .error (.outOfBounds 0 text.utf8ByteSize m.size) ∧ m.written text = m) ∧
    (m.successes texts).foldlM (fun m text => (·.2) <$> m.writeText text) m = .ok (texts.foldl Memory.written m) ∧
    ∀ last, (m.successes texts).getLast? = some last →
      (texts.foldl Memory.written m).readText 0 last.utf8ByteSize = .ok last := by
  refine ⟨?_, m.foldlM_successes texts, fun last => Memory.readText_last⟩
  split
  · rename_i fits
    refine ⟨by rw [Memory.written_of_le fits, Memory.writeText_of_le fits], fun i => Memory.byte_written, ?_,
      Memory.readText_written fits⟩
    rw [Memory.readBytes_written fits, Text.Utf8.encode_eq_toUTF8]
  · rename_i misfit
    exact ⟨Memory.writeText_of_lt (by omega), Memory.written_of_lt (by omega)⟩

/-- A page takes a text with characters of three and four bytes, refuses one of a byte too many, and still holds the
first. -/
theorem text_kept_by_misfit : ∃ long : String, long.utf8ByteSize = 65537 ∧
    (Memory.zeroed 1).writeText long = .error (.outOfBounds 0 65537 65536) ∧
    (Memory.zeroed 1).successes ["a", "𝄞�", long] = ["a", "𝄞�"] ∧
    (["a", "𝄞�", long].foldl Memory.written (Memory.zeroed 1)).readText 0 7 = .ok "𝄞�" := by
  obtain ⟨long, length⟩ := Text.Utf8.exists_size 65537
  have size : (Memory.zeroed 1).size = 65536 := rfl
  have taken : (Memory.zeroed 1).successes ["a", "𝄞�", long] = ["a", "𝄞�"] := by
    have first : "a".utf8ByteSize ≤ 65536 := by decide
    have second : "𝄞�".utf8ByteSize ≤ 65536 := by decide
    simp [Memory.successes_eq_filter, size, length, first, second]
  obtain ⟨first, -, last⟩ := texts_round_trip (Memory.zeroed 1) long ["a", "𝄞�", long]
  rw [length, size, if_neg (by decide)] at first
  exact ⟨long, length, first.1, taken, last "𝄞�" (by rw [taken]; rfl)⟩

end UnitHost
