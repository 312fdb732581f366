import UnitHost.Proofs.ByteChannel

/-!
# Reading ill-formed bytes

`Reads` says what bytes are read as, from characters and their bytes alone: where the bytes of a character stand, that
character is read; where none stands, all that still begins one is replaced as a whole, or a single byte if even that
begins none. There is exactly one such text, and reading finds it: `reads_iff`. Two facts carry this:

* `Awaits.completes`: inside a character, any bytes that are still allowed complete one. So the bytes read so far begin
  a character, and a byte that is taken continues one;
* `not_begins_of_replaced`: no character begins with bytes of which reading has given up a part.

Bytes of a text in front are read as that text and change nothing about the rest: `lossy_append`.
-/

namespace UnitHost

namespace Text.Utf8

/-! Parts of a byte sequence. -/

/-- Bytes that some character begins with. -/
def Begins (bytes : List UInt8) : Prop := ∃ c, bytes <+: String.utf8EncodeChar c

theorem Begins.of_append {bytes more : List UInt8} (begins : Begins (bytes ++ more)) : Begins bytes := by
  obtain ⟨c, inside⟩ := begins
  exact ⟨c, (List.prefix_append bytes more).trans inside⟩

/-- `bad` is replaced where `bad` and then `rest` stands: no character stands there, and `bad` is as much as begins one,
or a byte that begins none. -/
structure IllFormed (bad rest : List UInt8) : Prop where
  absent : ∀ c, ¬ String.utf8EncodeChar c <+: bad ++ rest
  nonempty : bad ≠ []
  begun : bad.length = 1 ∨ Begins bad
  longest : ∀ b more, rest = b :: more → ¬ Begins (bad ++ [b])

/-- What bytes are read as. -/
inductive Reads : List UInt8 → List Char → Prop where
  | nil : Reads [] []
  | char (c : Char) {rest : List UInt8} {text : List Char} (after : Reads rest text) :
      Reads (String.utf8EncodeChar c ++ rest) (c :: text)
  | replaced {bad rest : List UInt8} {text : List Char} (illFormed : IllFormed bad rest) (after : Reads rest text) :
      Reads (bad ++ rest) (replacement :: text)

/-- A part that begins a character can be made longest. -/
theorem exists_illFormed (bad rest : List UInt8) (absent : ∀ c, ¬ String.utf8EncodeChar c <+: bad ++ rest)
    (nonempty : bad ≠ []) (begun : bad.length = 1 ∨ Begins bad) :
    ∃ bad' rest', bad ++ rest = bad' ++ rest' ∧ IllFormed bad' rest' := by
  induction rest generalizing bad with
  | nil => exact ⟨bad, [], rfl, absent, nonempty, begun, fun b more none => by cases none⟩
  | cons b rest ih =>
    have split : bad ++ b :: rest = bad ++ [b] ++ rest := by simp
    by_cases longer : Begins (bad ++ [b])
    · rw [split] at absent ⊢
      exact ih (bad ++ [b]) absent (by simp) (.inr longer)
    · refine ⟨bad, b :: rest, rfl, absent, nonempty, begun, ?_⟩
      intro b' more same
      cases same
      exact longer

/-- All bytes are read as something. -/
theorem exists_reads (bytes : List UInt8) : ∃ text, Reads bytes text := by
  generalize size : bytes.length = n
  induction n using Nat.strongRecOn generalizing bytes with
  | ind n ih =>
    by_cases found : ∃ c, String.utf8EncodeChar c <+: bytes
    · obtain ⟨c, rest, rfl⟩ := found
      have shorter : rest.length < n := by
        have some := List.length_pos_iff.2 (String.utf8EncodeChar_ne_nil (c := c))
        rw [List.length_append] at size
        omega
      obtain ⟨text, reads⟩ := ih _ shorter rest rfl
      exact ⟨c :: text, .char c reads⟩
    · have absent := not_exists.1 found
      cases bytes with
      | nil => exact ⟨[], .nil⟩
      | cons b more =>
        obtain ⟨bad, rest, split, illFormed⟩ := exists_illFormed [b] more absent (by simp) (.inl rfl)
        have shorter : rest.length < n := by
          have some := List.length_pos_iff.2 illFormed.nonempty
          have total := congrArg List.length split
          simp only [List.length_append, List.length_cons, List.length_nil] at size total
          omega
        obtain ⟨text, reads⟩ := ih _ shorter rest rfl
        rw [List.singleton_append] at split
        exact ⟨replacement :: text, split ▸ .replaced illFormed reads⟩

/-! Bytes that complete a character. -/

/-- Inside a character after `begun`: a byte from `low` to `high` and then any `more` bytes complete one. -/
structure Awaits (begun : List UInt8) (more : Nat) (low high : UInt8) : Prop where
  possible : low ≤ high
  completes : ∀ b tail, low ≤ b → b ≤ high → tail.length = more → (∀ x ∈ tail, 0x80 ≤ x ∧ x ≤ 0xBF) →
    ∃ c, String.utf8EncodeChar c = begun ++ b :: tail

namespace Awaits

variable {begun : List UInt8} {more : Nat} {low high b : UInt8}

theorem begins (awaits : Awaits begun more low high) : Begins begun := by
  obtain ⟨c, whole⟩ := awaits.completes low (.replicate more 0x80) (UInt8.le_refl low) awaits.possible
    (List.length_replicate ..) (fun x inside => by rw [List.eq_of_mem_replicate inside]; decide)
  exact ⟨c, whole ▸ List.prefix_append ..⟩

theorem last (awaits : Awaits begun 0 low high) (above : low ≤ b) (below : b ≤ high) :
    ∃ c, String.utf8EncodeChar c = begun ++ [b] :=
  awaits.completes b [] above below rfl (List.forall_mem_nil _)

theorem next (awaits : Awaits begun (more + 1) low high) (above : low ≤ b) (below : b ≤ high) :
    Awaits (begun ++ [b]) more 0x80 0xBF where
  possible := by decide
  completes b' tail above' below' length tails := by
    rw [List.append_assoc, List.singleton_append]
    apply awaits.completes b (b' :: tail) above below
    · rw [List.length_cons, length]
    · exact List.forall_mem_cons.2 ⟨⟨above', below'⟩, tails⟩

end Awaits

/-! First bytes of characters. -/

theorem val_ofNat {v : Nat} (scalar : v < 0xD800 ∨ 0xDFFF < v ∧ v < 0x110000) : (Char.ofNat v).val.toNat = v := by
  have valid : v.isValidChar := scalar
  rw [Char.ofNat, dif_pos valid]
  rfl

theorem utf8EncodeChar_two {n k : Nat} (low : 2 ≤ n) (high : n < 32) (small : k < 64) :
    String.utf8EncodeChar (.ofNat (n * 64 + k)) = [.ofNat (n + 192), .ofNat (k + 128)] := by
  unfold String.utf8EncodeChar
  rw [val_ofNat (by omega)]
  dsimp only
  rw [if_neg (by omega), if_pos (by omega)]
  have first : (n * 64 + k) / 64 % 32 = n := by omega
  have second : (n * 64 + k) % 64 = k := by omega
  rw [first, second]

theorem utf8EncodeChar_three {n k j : Nat} (high : n < 16) (small : k < 64) (least : j < 64) (long : n = 0 → 32 ≤ k)
    (scalar : n = 13 → k < 32) :
    String.utf8EncodeChar (.ofNat ((n * 64 + k) * 64 + j)) =
      [.ofNat (n + 224), .ofNat (k + 128), .ofNat (j + 128)] := by
  unfold String.utf8EncodeChar
  rw [val_ofNat (by omega)]
  dsimp only
  rw [if_neg (by omega), if_neg (by omega), if_pos (by omega)]
  have first : ((n * 64 + k) * 64 + j) / 4096 % 16 = n := by omega
  have second : ((n * 64 + k) * 64 + j) / 64 % 64 = k := by omega
  have third : ((n * 64 + k) * 64 + j) % 64 = j := by omega
  rw [first, second, third]

theorem utf8EncodeChar_four {n k j i : Nat} (high : n < 5) (small : k < 64) (less : j < 64) (least : i < 64)
    (long : n = 0 → 16 ≤ k) (scalar : n = 4 → k < 16) :
    String.utf8EncodeChar (.ofNat (((n * 64 + k) * 64 + j) * 64 + i)) =
      [.ofNat (n + 240), .ofNat (k + 128), .ofNat (j + 128), .ofNat (i + 128)] := by
  unfold String.utf8EncodeChar
  rw [val_ofNat (by omega)]
  dsimp only
  rw [if_neg (by omega), if_neg (by omega), if_neg (by omega)]
  have first : (((n * 64 + k) * 64 + j) * 64 + i) / 262144 % 8 = n := by omega
  have second : (((n * 64 + k) * 64 + j) * 64 + i) / 4096 % 64 = k := by omega
  have third : (((n * 64 + k) * 64 + j) * 64 + i) / 64 % 64 = j := by omega
  have fourth : (((n * 64 + k) * 64 + j) * 64 + i) % 64 = i := by omega
  rw [first, second, third, fourth]

/-- A byte after the first carries six bits, in whatever range it is allowed. -/
theorem exists_bits {low high b : UInt8} (above : low ≤ b) (below : b ≤ high) (least : 0x80 ≤ low)
    (most : high ≤ 0xBF) : ∃ k < 64, b = .ofNat (k + 128) ∧ low.toNat ≤ k + 128 ∧ k + 128 ≤ high.toNat := by
  rw [UInt8.le_iff_toNat_le] at above below least most
  have continues : 128 ≤ b.toNat := Nat.le_trans least above
  have ends : b.toNat ≤ 191 := Nat.le_trans below most
  have same : b.toNat - 128 + 128 = b.toNat := Nat.sub_add_cancel continues
  refine ⟨b.toNat - 128, by omega, ?_, ?_⟩
  · rw [same, UInt8.ofNat_toNat]
  · rw [same]
    exact ⟨above, below⟩

theorem awaits_two {n : Nat} (two : 2 ≤ n) (first : n < 32) : Awaits [.ofNat (n + 192)] 0 0x80 0xBF where
  possible := by decide
  completes b tail above below length _ := by
    obtain ⟨k, small, rfl, -⟩ := exists_bits above below (by decide) (by decide)
    rw [List.length_eq_zero_iff.1 length]
    exact ⟨_, utf8EncodeChar_two two first small⟩

theorem awaits_three {n : Nat} (first : n < 16) :
    Awaits [.ofNat (n + 224)] 1 (if n = 0 then 0xA0 else 0x80) (if n = 13 then 0x9F else 0xBF) where
  possible := by interval_cases n <;> decide
  completes b tail above below length tails := by
    obtain ⟨x, rfl⟩ := List.length_eq_one_iff.1 length
    obtain ⟨k, small, rfl, low, high⟩ := exists_bits above below (by split <;> decide) (by split <;> decide)
    obtain ⟨above', below'⟩ := tails x (by simp)
    obtain ⟨j, least, rfl, -⟩ := exists_bits above' below' (by decide) (by decide)
    refine ⟨_, utf8EncodeChar_three first small least ?_ ?_⟩
    · intro zero
      rw [if_pos zero] at low
      have : 160 ≤ k + 128 := low
      omega
    · intro thirteen
      rw [if_pos thirteen] at high
      have : k + 128 ≤ 159 := high
      omega

theorem awaits_four {n : Nat} (first : n < 5) :
    Awaits [.ofNat (n + 240)] 2 (if n = 0 then 0x90 else 0x80) (if n = 4 then 0x8F else 0xBF) where
  possible := by interval_cases n <;> decide
  completes b tail above below length tails := by
    obtain ⟨x, rest, rfl⟩ := List.exists_cons_of_length_eq_add_one length
    obtain ⟨y, rfl⟩ := List.length_eq_one_iff.1 (Nat.succ.inj length)
    obtain ⟨k, small, rfl, low, high⟩ := exists_bits above below (by split <;> decide) (by split <;> decide)
    obtain ⟨above', below'⟩ := tails x (by simp)
    obtain ⟨j, less, rfl, -⟩ := exists_bits above' below' (by decide) (by decide)
    obtain ⟨above'', below''⟩ := tails y (by simp)
    obtain ⟨i, least, rfl, -⟩ := exists_bits above'' below'' (by decide) (by decide)
    refine ⟨_, utf8EncodeChar_four first small less least ?_ ?_⟩
    · intro zero
      rw [if_pos zero] at low
      have : 144 ≤ k + 128 := low
      omega
    · intro four
      rw [if_pos four] at high
      have : k + 128 ≤ 143 := high
      omega

/-! Where reading stands. -/

namespace Decoding

/-- Reading after something was read before. -/
def behind (read : Array (Option Char)) (d : Decoding) : Decoding := { d with read := read ++ d.read }

variable (read : Array (Option Char)) (d : Decoding)

theorem emit_behind (c : Option Char) : (d.behind read).emit c = (d.emit c).behind read := by
  simp [behind, emit]

theorem await_behind (more bits : Nat) (low high : UInt8) :
    (d.behind read).await more bits low high = (d.await more bits low high).behind read := rfl

theorem first_behind (b : UInt8) : (d.behind read).first b = (d.first b).behind read := by
  unfold first
  simp only [emit_behind, await_behind, apply_ite (behind read)]

/-- What was read before does not matter for the next byte. -/
theorem next_behind (b : UInt8) : (d.behind read).next b = (d.next b).behind read := by
  have position : (d.behind read).position = d.position := rfl
  unfold next
  rw [position]
  cases d.position with
  | between => exact first_behind read d b
  | inside more bits low high =>
    dsimp only
    by_cases taken : low ≤ b ∧ b ≤ high
    · rw [if_pos taken, if_pos taken]
      cases more with
      | zero => exact emit_behind read d _
      | succ more => rfl
    · rw [if_neg taken, if_neg taken, emit_behind, first_behind]

theorem foldl_next_behind (bytes : List UInt8) :
    bytes.foldl next (d.behind read) = (bytes.foldl next d).behind read := by
  induction bytes generalizing d with
  | nil => rfl
  | cons b rest ih => rw [List.foldl_cons, List.foldl_cons, next_behind, ih]

theorem finish_behind : (d.behind read).finish = read.toList ++ d.finish := by
  have position : (d.behind read).position = d.position := rfl
  unfold finish
  rw [position]
  cases d.position with
  | between => exact Array.toList_append
  | inside => simp [behind]

/-- A first byte is a character of its own, begins none, or begins one. -/
theorem first_cases (b : UInt8) :
    (∃ c, d.first b = d.emit (some c) ∧ String.utf8EncodeChar c = [b]) ∨ d.first b = d.emit none ∨
      ∃ more bits low high, d.first b = d.await more bits low high ∧ Awaits [b] more low high := by
  obtain ⟨v, small, rfl⟩ : ∃ v < 256, b = .ofNat v := ⟨b.toNat, b.toNat_lt, UInt8.ofNat_toNat.symm⟩
  have value : (UInt8.ofNat v).toNat = v := by
    rw [UInt8.toNat_ofNat']
    omega
  by_cases ascii : v < 128
  · refine .inl ⟨.ofNat v, ?_, ?_⟩
    · rw [first, if_pos (UInt8.lt_iff_toNat_lt.2 (by rwa [value])), value]
    · unfold String.utf8EncodeChar
      rw [val_ofNat (by omega)]
      dsimp only
      rw [if_pos (by omega)]
  by_cases two : v < 194
  · refine .inr (.inl ?_)
    rw [first, if_neg (by rwa [UInt8.lt_iff_toNat_lt, value]), if_pos (UInt8.lt_iff_toNat_lt.2 (by rwa [value]))]
  by_cases three : v < 224
  · obtain ⟨n, rfl⟩ : ∃ n, v = n + 192 := ⟨v - 192, by omega⟩
    exact .inr (.inr ⟨_, _, _, _, first_two (by omega) (by omega), awaits_two (by omega) (by omega)⟩)
  by_cases four : v < 240
  · obtain ⟨n, rfl⟩ : ∃ n, v = n + 224 := ⟨v - 224, by omega⟩
    exact .inr (.inr ⟨_, _, _, _, first_three (by omega), awaits_three (by omega)⟩)
  by_cases high : v < 245
  · obtain ⟨n, rfl⟩ : ∃ n, v = n + 240 := ⟨v - 240, by omega⟩
    exact .inr (.inr ⟨_, _, _, _, first_four (by omega), awaits_four (by omega)⟩)
  · refine .inr (.inl ?_)
    interval_cases v <;> rfl

variable {more bits : Nat} {low high b : UInt8}

/-- A byte that cannot follow ends the character begun, and is read as a first byte. -/
theorem next_refused (refused : ¬ (low ≤ b ∧ b ≤ high)) :
    (({} : Decoding).await more bits low high).next b = (({} : Decoding).first b).behind #[none] := by
  rw [← first_behind]
  exact if_neg refused

theorem next_taken (taken : low ≤ b ∧ b ≤ high) :
    (d.await (more + 1) bits low high).next b = d.await more (bits * 64 + (b.toNat - 0x80)) 0x80 0xBF :=
  if_pos taken

/-- No character begins with bytes of which a first part was given up. -/
theorem not_begins_of_replaced {bytes : List UInt8} {d : Decoding} (gave_up : bytes.foldl next {} = d.behind #[none]) :
    ¬ Begins bytes := by
  rintro ⟨c, tail, split⟩
  -- The whole character would be read as itself alone, but what was given up stays in front.
  have whole := foldl_next_char (d := {}) rfl c
  rw [← split, List.foldl_append, gave_up, foldl_next_behind] at whole
  have read := congrArg (·.read.toList.head?) whole
  simp [behind, emit] at read

/-- Reading is inside a character as long as the bytes begin one and are none. -/
theorem exists_awaits {bytes : List UInt8} (nonempty : bytes ≠ []) (begins : Begins bytes)
    (absent : ∀ c, ¬ String.utf8EncodeChar c <+: bytes) :
    ∃ more bits low high, bytes.foldl next {} = ({} : Decoding).await more bits low high ∧
      Awaits bytes more low high := by
  -- From the end: the bytes before the last begin the same character, so reading was inside it already.
  induction bytes using List.reverseRecOn with
  | nil => exact absurd rfl nonempty
  | append_singleton before b ih =>
    by_cases empty : before = []
    · subst empty
      rcases first_cases {} b with ⟨c, -, whole⟩ | gave_up | awaits
      · exact absurd (whole ▸ List.prefix_rfl) (absent c)
      · exact absurd begins (not_begins_of_replaced (d := {}) gave_up)
      · exact awaits
    · have shorter : ∀ c, ¬ String.utf8EncodeChar c <+: before :=
        fun c inside => absent c (inside.trans (List.prefix_append ..))
      obtain ⟨more, bits, low, high, stands, awaits⟩ := ih empty begins.of_append shorter
      have step : (before ++ [b]).foldl next {} = (({} : Decoding).await more bits low high).next b := by
        rw [List.foldl_append, stands, List.foldl_cons, List.foldl_nil]
      by_cases taken : low ≤ b ∧ b ≤ high
      · cases more with
        | zero =>
          obtain ⟨c, whole⟩ := awaits.last taken.1 taken.2
          exact absurd (whole ▸ List.prefix_rfl) (absent c)
        | succ more => exact ⟨_, _, _, _, step.trans (next_taken {} taken), awaits.next taken.1 taken.2⟩
      · exact absurd begins (not_begins_of_replaced (step.trans (next_refused taken)))

end Decoding

/-! What is read. -/

/-- Once reading stands between characters, the rest is read as if it stood alone. -/
theorem scan_append (bytes : List UInt8) (read : Array (Option Char))
    (stands : bytes.foldl Decoding.next {} = Decoding.behind read {}) (rest : List UInt8) :
    scan (bytes ++ rest) = read.toList ++ scan rest := by
  unfold scan
  rw [List.foldl_append, stands, Decoding.foldl_next_behind, Decoding.finish_behind]

theorem scan_char (c : Char) (rest : List UInt8) :
    scan (String.utf8EncodeChar c ++ rest) = some c :: scan rest :=
  scan_append _ #[some c] (Decoding.foldl_next_char rfl c) rest

theorem scan_illFormed {bad rest : List UInt8} (illFormed : IllFormed bad rest) :
    scan (bad ++ rest) = none :: scan rest := by
  have absent : ∀ c, ¬ String.utf8EncodeChar c <+: bad :=
    fun c inside => illFormed.absent c (inside.trans (List.prefix_append ..))
  by_cases begins : Begins bad
  -- Reading is inside a character that the next byte, or the end, does not continue.
  · obtain ⟨more, bits, low, high, stands, awaits⟩ := Decoding.exists_awaits illFormed.nonempty begins absent
    cases rest with
    | nil =>
      unfold scan
      rw [List.append_nil, stands]
      rfl
    | cons b rest =>
      have refused : ¬ (low ≤ b ∧ b ≤ high) := by
        rintro ⟨above, below⟩
        apply illFormed.longest b rest rfl
        cases more with
        | zero =>
          obtain ⟨c, whole⟩ := awaits.last above below
          exact ⟨c, whole ▸ List.prefix_rfl⟩
        | succ more => exact (awaits.next above below).begins
      unfold scan
      rw [List.foldl_append, stands, List.foldl_cons, Decoding.next_refused refused, Decoding.foldl_next_behind,
        Decoding.finish_behind]
      rfl
  · obtain ⟨b, rfl⟩ := List.length_eq_one_iff.1 (illFormed.begun.resolve_right begins)
    rcases Decoding.first_cases {} b with ⟨c, -, whole⟩ | gave_up | ⟨_, _, _, _, -, awaits⟩
    · exact absurd (whole ▸ List.prefix_rfl) (absent c)
    · exact scan_append [b] #[none] gave_up rest
    · exact absurd awaits.begins begins

theorem toList_lossy (bytes : List UInt8) : (lossy bytes).toList = (scan bytes).map (·.getD replacement) := by
  rw [lossy, String.toList_ofList]

theorem Reads.eq_lossy {bytes : List UInt8} {text : List Char} (reads : Reads bytes text) :
    text = (lossy bytes).toList := by
  rw [toList_lossy]
  induction reads with
  | nil => rfl
  | char c _ ih =>
    rw [scan_char, List.map_cons, ← ih]
    rfl
  | replaced illFormed _ ih =>
    rw [scan_illFormed illFormed, List.map_cons, ← ih]
    rfl

/-- Bytes are read as exactly one text, and reading finds it. -/
theorem reads_iff {bytes : List UInt8} {text : List Char} : Reads bytes text ↔ text = (lossy bytes).toList := by
  constructor
  · exact Reads.eq_lossy
  · intro same
    obtain ⟨found, reads⟩ := exists_reads bytes
    rw [same, ← reads.eq_lossy]
    exact reads

/-- The bytes of a text in front are read as that text. -/
theorem Reads.encode_append {rest : List UInt8} {text : List Char} (reads : Reads rest text) (before : String) :
    Reads (encode before ++ rest) (before.toList ++ text) := by
  unfold encode
  induction before.toList with
  | nil => exact reads
  | cons c cs ih =>
    rw [List.flatMap_cons, List.append_assoc]
    exact .char c ih

theorem lossy_append (text : String) (rest : List UInt8) : lossy (encode text ++ rest) = text ++ lossy rest := by
  have alone : Reads rest (lossy rest).toList := reads_iff.2 rfl
  have together := (alone.encode_append text).eq_lossy
  apply String.toList_inj.1
  rw [← together, String.toList_append]

/-- Valid bytes are those of a text. -/
theorem exists_encode {bytes : List UInt8} (valid : bytes.toByteArray.IsValidUTF8) : ∃ text, bytes = encode text := by
  obtain ⟨chars, same⟩ := valid
  refine ⟨.ofList chars, ?_⟩
  have data := congrArg (·.data.toList) same
  rw [encode, String.toList_ofList]
  simpa [List.utf8Encode] using data

end Text.Utf8

namespace Memory

variable (m : Memory)

theorem slice_add (address k n : Nat) : m.slice address (k + n) = m.slice address k ++ m.slice (address + k) n := by
  unfold slice
  rw [← List.map_append, List.range'_append_1]

theorem readText_of_le {address count : Nat} (inside : address + count ≤ m.size) :
    m.readText address count = .ok (Text.Utf8.lossy (m.slice address count)) := by
  rw [readText, readBytes, if_pos inside]
  rfl

end Memory

/-- A range that begins with valid bytes can be read in two, first these and then the rest: the two texts, one after the
other, are what is read at once. Every range inside memory is read as a text, the only one its bytes can be read as.
Written to any memory that is large enough, that text is read back unchanged. -/
theorem readings_join_after_text (m : Memory) :
    (∀ address k n, address + (k + n) ≤ m.size → (m.slice address k).toByteArray.IsValidUTF8 →
      ∃ first rest, m.readText address k = .ok first ∧ m.readText (address + k) n = .ok rest ∧
        m.readText address (k + n) = .ok (first ++ rest)) ∧
    ∀ address count, address + count ≤ m.size → ∃ text, m.readText address count = .ok text ∧
      (∀ chars, Text.Utf8.Reads (m.slice address count) chars ↔ chars = text.toList) ∧
      ∀ other : Memory, text.utf8ByteSize ≤ other.size →
        other.writeText text = .ok (text.utf8ByteSize, other.written text) ∧
        (other.written text).readText 0 text.utf8ByteSize = .ok text := by
  constructor
  · intro address k n inside valid
    obtain ⟨first, bytes⟩ := Text.Utf8.exists_encode valid
    refine ⟨first, _, ?_, m.readText_of_le (by omega), ?_⟩
    · rw [m.readText_of_le (by omega), bytes, Text.Utf8.lossy_encode]
    · rw [m.readText_of_le inside, m.slice_add, bytes, Text.Utf8.lossy_append]
  · intro address count inside
    refine ⟨_, m.readText_of_le inside, fun chars => Text.Utf8.reads_iff, fun other fits => ?_⟩
    exact ⟨by rw [Memory.written_of_le fits, Memory.writeText_of_le fits], Memory.readText_written fits⟩

/-- A page with a character of three bytes, three bytes of one of four, a letter, two bytes of a surrogate, and a byte
that begins nothing. -/
def Sample.frayed : Memory :=
  (Memory.zeroed 1).patch 0 [0xE2, 0x82, 0xAC, 0xF0, 0x9F, 0x92, 0x41, 0xED, 0xA0, 0xC0] (by decide)

/-- The cut character is replaced as a whole, and the bytes of the surrogate one by one. -/
theorem euro_before_frayed_bytes :
    (Sample.frayed.slice 0 3).toByteArray.IsValidUTF8 ∧ Sample.frayed.readText 0 3 = .ok "€" ∧
      Sample.frayed.readText 3 7 = .ok "�A���" ∧ Sample.frayed.readText 0 10 = .ok "€�A���" ∧
      (Sample.frayed.written "€�A���").readText 0 16 = .ok "€�A���" := by
  have size : Sample.frayed.size = 65536 := rfl
  have front : Sample.frayed.slice 0 3 = Text.Utf8.encode "€" := by decide +kernel
  have back : Sample.frayed.slice 3 7 = [0xF0, 0x9F, 0x92, 0x41, 0xED, 0xA0, 0xC0] := by decide +kernel
  have read : Sample.frayed.readText 0 3 = .ok "€" := by
    rw [Memory.readText_of_le _ (by omega), front, Text.Utf8.lossy_encode]
  have frayed : Sample.frayed.readText 3 7 = .ok "�A���" := by
    rw [Memory.readText_of_le _ (by omega), back]
    exact congrArg Except.ok (by decide +kernel)
  have valid : (Sample.frayed.slice 0 3).toByteArray.IsValidUTF8 := by
    rw [front]
    decide +kernel
  obtain ⟨split, again⟩ := readings_join_after_text Sample.frayed
  obtain ⟨first, rest, readFirst, readRest, whole⟩ := split 0 3 7 (by omega) valid
  rw [read] at readFirst
  rw [frayed] at readRest
  cases readFirst
  cases readRest
  obtain ⟨text, readWhole, -, kept⟩ := again 0 10 (by omega)
  rw [whole] at readWhole
  cases readWhole
  exact ⟨valid, read, frayed, whole, (kept Sample.frayed (by rw [size]; decide)).2⟩

end UnitHost
