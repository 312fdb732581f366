import UnitHost.Proofs.HostRanges

/-!
# The range of a submitted text

A submitted text is put at the start of memory, and the evaluator is given its range as two words. The longest memory has
one byte more than a word can count. A text that fills it is written all the same, but its length as a word is zero, so
that the evaluator is given the empty range. The range of every other text is the text, and a host call that is made with
it reads the text back.
-/

namespace UnitHost

open Wasm

/-- What the range given to the evaluator denotes: the text, unless it has more bytes than a word can count. -/
def Session.denoted (text : String) : String := if text.utf8ByteSize < maxPages * pageSize then text else ""

namespace Session

variable {s : Session} {text : String} {m : Machine}

/-- A text that fits is put into memory, and the evaluator is given its range. -/
theorem evaluation_fits (fits : s.evaluation text = .ok m) :
    ∃ inside : text.utf8ByteSize ≤ (s.world.store.memory s.memory).size,
    m.world.store = s.world.store.setMemory s.memory ((s.world.store.memory s.memory).put text inside) ∧
    m.control = .call s.evaluate [.i32 0, .i32 (.ofNat text.utf8ByteSize)] := by
  unfold evaluation at fits
  dsimp only at fits
  rcases Nat.lt_or_ge (s.world.store.memory s.memory).size text.utf8ByteSize with misfit | inside
  · rw [Memory.writeText_of_lt misfit] at fits
    cases fits
  · rw [Memory.writeText_of_le inside] at fits
    cases fits
    exact ⟨inside, rfl, rfl⟩

theorem evaluation_slice (fits : s.evaluation text = .ok m) :
    (m.world.store.memory s.memory).slice 0 text.utf8ByteSize = Text.Utf8.encode text := by
  obtain ⟨inside, store, -⟩ := evaluation_fits fits
  rw [store]
  by_cases there : s.memory < s.world.store.memories.size
  · have put : (s.world.store.setMemory s.memory ((s.world.store.memory s.memory).put text inside)).memory s.memory =
        (s.world.store.memory s.memory).put text inside := by simp [Store.memory, Store.setMemory, there]
    rw [put, Memory.slice_put]
  · -- Where there is no memory nothing but the empty text fits.
    have absent : s.world.store.memory s.memory = .zeroed 0 := by simp [Store.memory, there]
    rw [absent] at inside
    have empty : text.utf8ByteSize = 0 := Nat.le_zero.1 inside
    have bytes := Text.Utf8.length_encode text
    rw [empty, List.length_eq_zero_iff] at bytes
    rw [empty, bytes]
    rfl

/-- The length of a text as a word. It is the length, unless that is one more than a word can hold. -/
theorem toNat_length (bounded : text.utf8ByteSize ≤ maxPages * pageSize) :
    (UInt32.ofNat text.utf8ByteSize).toNat = (denoted text).utf8ByteSize := by
  have full : maxPages * pageSize = 4294967296 := rfl
  rw [full] at bounded
  unfold denoted
  rw [full, UInt32.toNat_ofNat']
  split
  · omega
  · have longest : text.utf8ByteSize = 4294967296 := by omega
    rw [longest]
    rfl

theorem size_denoted_eq_iff (bounded : text.utf8ByteSize ≤ maxPages * pageSize) :
    (denoted text).utf8ByteSize = text.utf8ByteSize ↔ text.utf8ByteSize ≠ maxPages * pageSize := by
  have full : maxPages * pageSize = 4294967296 := rfl
  have empty : "".utf8ByteSize = 0 := rfl
  unfold denoted
  split <;> omega

theorem size_denoted_le (text : String) : (denoted text).utf8ByteSize ≤ text.utf8ByteSize := by
  unfold denoted
  split
  · exact Nat.le_refl _
  · exact Nat.zero_le _

/-- The bytes in the range that the evaluator is given, as long as the text is still in its place. -/
theorem slice_denoted {memory : Memory} (bounded : text.utf8ByteSize ≤ maxPages * pageSize)
    (there : memory.slice 0 text.utf8ByteSize = Text.Utf8.encode text) :
    memory.slice 0 (UInt32.ofNat text.utf8ByteSize).toNat = Text.Utf8.encode (denoted text) := by
  rw [toNat_length bounded]
  unfold denoted
  split
  · exact there
  · rfl

end Session

theorem Machine.visited_grows {m n : Machine} {fuel : Nat} (h : n ∈ m.visited fuel) : m.world.Grows n.world :=
  visited_kept (P := fun n => m.world.Grows n.world) (fun grows step => Store.Grows.trans grows (step_grows step))
    (Store.Grows.refl _) h

/-- A base with a memory of the most pages there are, whose evaluator posts the range that it is given. -/
def Sample.widestBase : Module :=
  { Wasm.Module.ofEvaluator [.postOutput] [] [.localGet 0, .localGet 1, .call 0] with memories := [{ min := 65536 }] }

/-- A text that fits into the memory of a session is in its place when the evaluator is called. The range that the
evaluator is given is the text's exactly if the text does not fill a memory of the most pages; the range of that text is
empty. As long as the text is in its place, a host call that is made with the range is given the text it denotes, and a
link takes the bytes of that text for its unit. -/
theorem input_range_whole_iff {life : List Machine} {s : Session} (h : Life life (.idle s))
    (bounded : s.memoryPages ≤ maxPages) {text : String} {m : Machine} (fits : s.evaluation text = .ok m) :
    ∃ address count, m.control = .call s.evaluate [.i32 address, .i32 count] ∧
      (m.world.store.memory s.memory).slice 0 text.utf8ByteSize = Text.Utf8.encode text ∧
      (wordRange address count = (0, text.utf8ByteSize) ↔ text.utf8ByteSize ≠ maxPages * pageSize) ∧
      wordRange address count = (0, (Session.denoted text).utf8ByteSize) ∧
      ∀ fuel, ∀ n ∈ m.visited fuel,
        (n.world.store.memory s.memory).slice 0 text.utf8ByteSize = Text.Utf8.encode text →
        (∀ call : HostCall, call.reads = true → ∀ memoryBase tableBase,
          (n.calling call address count memoryBase tableBase).step = .inl { n with
            world := (call.given (Session.denoted text) n.world).2
            control := Machine.Control.ofResult (call.given (Session.denoted text) n.world).1 }) ∧
        ∀ memoryBase tableBase l w,
          (Action.prepare (.ofWords address count memoryBase tableBase)).run.run n.world = (.ok l, w) →
          l.bytes = Text.Utf8.encode (Session.denoted text) := by
  obtain ⟨inside, -, control⟩ := Session.evaluation_fits fits
  have length : text.utf8ByteSize ≤ maxPages * pageSize := Nat.le_trans inside (Nat.mul_le_mul_right _ bounded)
  have word := Session.toNat_length length
  have range : wordRange 0 (.ofNat text.utf8ByteSize) = (0, (Session.denoted text).utf8ByteSize) :=
    congrArg (Prod.mk 0) word
  refine ⟨0, .ofNat text.utf8ByteSize, control, Session.evaluation_slice fits, ?_, range, fun fuel n visited there => ?_⟩
  · rw [range, ← Session.size_denoted_eq_iff length]
    exact ⟨fun same => congrArg Prod.snd same, fun same => congrArg (Prod.mk 0) same⟩
  have mem : n ∈ s.visited fuel text := by rwa [Session.visited, fits]
  obtain ⟨p, placed, memory⟩ := h.shares (List.mem_append_right life mem)
  have bytes := Session.slice_denoted length there
  have size : (0 : UInt32).toNat + (UInt32.ofNat text.utf8ByteSize).toNat ≤ (n.world.store.memory s.memory).size := by
    have grown := ((Session.evaluation_grows fits).trans (Machine.visited_grows visited)).pages s.memory
    have still : text.utf8ByteSize ≤ (n.world.store.memory s.memory).size :=
      Nat.le_trans inside (Nat.mul_le_mul_right _ grown)
    have shorter := Session.size_denoted_le text
    rw [word, UInt32.toNat_zero]
    omega
  have shared : n.world.memory p = n.world.store.memory s.memory := by rw [World.memory, memory]
  rw [← shared] at bytes size
  refine ⟨fun call reads memoryBase tableBase => ?_, fun memoryBase tableBase l w prepared => ?_⟩
  · have decoded : n.world.decoded 0 (.ofNat text.utf8ByteSize) =
        .ok (Text.Utf8.lossy ((n.world.memory p).slice 0 (UInt32.ofNat text.utf8ByteSize).toNat)) :=
      World.decoded_of_le placed size
    rw [bytes, Text.Utf8.lossy_encode] at decoded
    rw [Machine.step_calling reads, Action.run_hostCall reads, decoded]
  · obtain ⟨_, prepared⟩ := Action.prepare_ok prepared
    cases placed.symm.trans prepared.program
    have read : (n.world.memory p).readBytes (0 : UInt32).toNat (UInt32.ofNat text.utf8ByteSize).toNat = .ok l.bytes :=
      prepared.read
    rw [Memory.readBytes, if_pos size] at read
    exact (Except.ok.inj read).symm.trans bytes

/-- A text of 4 GiB fills a memory of 65536 pages. The evaluator is given two zeroes for it, and a post of that range posts
the empty text. -/
theorem widest_text_denoted_empty : ∃ life s long m, Life life (.idle s) ∧ s.memoryPages = 65536 ∧
    long.utf8ByteSize = 4294967296 ∧ s.evaluation long = .ok m ∧
    (m.world.store.memory s.memory).slice 0 4294967296 = Text.Utf8.encode long ∧
    m.control = .call s.evaluate [.i32 0, .i32 0] ∧ wordRange 0 0 ≠ (0, long.utf8ByteSize) ∧
    (m.calling .postOutput 0 0 0 0).step = .inl { m with world := m.world.post (.output ""), control := .give [] } := by
  have evaluated : (Session.after 100 Sample.widestBase []).map (·.memoryPages) = some 65536 := by decide +kernel
  obtain ⟨s, started, pages⟩ := Option.map_eq_some_iff.1 evaluated
  obtain ⟨life, h⟩ := Life.after (by decide +kernel) started
  obtain ⟨long, length⟩ := Text.Utf8.exists_size 4294967296
  have inside : (Text.Utf8.encode long).length ≤ (s.world.store.memory s.memory).size := by
    have size : (s.world.store.memory s.memory).size = s.memoryPages * pageSize := rfl
    rw [Text.Utf8.length_encode, length, size, pages]
    exact Nat.le_refl _
  obtain ⟨m, fits⟩ := Session.evaluation_of_le inside
  obtain ⟨address, count, control, there, -, range, calls⟩ := input_range_whole_iff h (Nat.le_of_eq pages) fits
  have empty : Session.denoted long = "" := if_neg (by rw [length]; decide)
  rw [empty] at range calls
  obtain rfl : address = 0 := UInt32.toNat_inj.1 (congrArg Prod.fst range)
  obtain rfl : count = 0 := UInt32.toNat_inj.1 (congrArg Prod.snd range)
  obtain ⟨posts, -⟩ := calls 1 m List.mem_cons_self there
  rw [length] at there
  refine ⟨life, s, long, m, h, pages, length, fits, there, control, ?_, posts .postOutput rfl 0 0⟩
  rw [length]
  decide

end UnitHost
