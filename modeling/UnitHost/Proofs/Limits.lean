import UnitHost.Proofs.GrowthSizes
import UnitHost.Proofs.Instances
import UnitHost.Proofs.Transcript

/-!
# Configured limits

How large the shared memory and the shared table can get. What the host does for a unit keeps to the configured limits:
`World.Limited`. Code is not held to them; it can grow a memory or a table as far as the object itself allows, and
`Machine.growth?` tells when it does. So in every state of a session an object is larger than the limit, and than it was
in the beginning, exactly if an instruction has made it so: `limits_exceeded_by_code`.
-/

namespace UnitHost

open Wasm

/-! Sizes. -/

namespace Store

variable {s s' s'' : Store} {region : Region} {address : Nat}

/-- The pages of a memory or the slots of a table. -/
def extent (s : Store) : Region → Nat → Nat
  | .memory, address => (s.memory address).pages
  | .table, address => (s.table address).size

/-- The number of memories or of tables. -/
def count (s : Store) : Region → Nat
  | .memory => s.memories.size
  | .table => s.tables.size

theorem Grows.extent_le (h : s.Grows s') (region : Region) (address : Nat) :
    s.extent region address ≤ s'.extent region address := by
  cases region with
  | memory => exact h.pages address
  | table => exact h.slots address

/-- Memories and tables are added, and those that were there have the size they had. -/
structure Extends (s s' : Store) : Prop where
  count : ∀ region, s.count region ≤ s'.count region
  extent : ∀ region address, address < s.count region → s'.extent region address = s.extent region address

instance : IsPreorder Store Extends where
  refl _ := ⟨fun _ => Nat.le_refl _, fun _ _ _ => rfl⟩
  trans _ _ _ h h' := by
    refine ⟨fun region => Nat.le_trans (h.count region) (h'.count region), ?_⟩
    intro region address inside
    rw [h'.extent region address (Nat.lt_of_lt_of_le inside (h.count region)), h.extent region address inside]

theorem extent_setMemory {m : Memory} (same : m.pages = (s.memory address).pages) (other : Nat) :
    ((s.setMemory address m).memory other).pages = (s.memory other).pages :=
  rel_getD_setIfInBounds (R := fun m m' : Memory => m'.pages = m.pages) (fun _ => rfl) same other

theorem extent_setTable {t : Table} (same : t.size = (s.table address).size) (other : Nat) :
    ((s.setTable address t).table other).size = (s.table other).size :=
  rel_getD_setIfInBounds (R := fun t t' : Table => t'.size = t.size) (fun _ => rfl) same other

theorem extends_setMemory {m : Memory} (same : m.pages = (s.memory address).pages) :
    s.Extends (s.setMemory address m) := by
  constructor
  · intro region
    cases region with
    | memory => exact Nat.le_of_eq Array.size_setIfInBounds.symm
    | table => exact Nat.le_refl _
  · intro region other _
    cases region with
    | memory => exact extent_setMemory same other
    | table => rfl

theorem extends_setTable {t : Table} (same : t.size = (s.table address).size) :
    s.Extends (s.setTable address t) := by
  constructor
  · intro region
    cases region with
    | memory => exact Nat.le_refl _
    | table => exact Nat.le_of_eq Array.size_setIfInBounds.symm
  · intro region other _
    cases region with
    | memory => rfl
    | table => exact extent_setTable same other

theorem extends_allocate (s : Store) (m : Module) (imports : List Extern) : s.Extends (s.allocate m imports).2 := by
  constructor
  · intro region
    cases region <;> simp [count, allocate]
  · intro region address inside
    cases region with
    | memory => simp only [extent, memory, allocate]; rw [Array.getElem?_append_left inside]
    | table => simp only [extent, table, allocate]; rw [Array.getElem?_append_left inside]

theorem extends_instantiate (s : Store) (d : Definitions) (m : Module) : s.Extends (s.instantiate d m).2 :=
  rel_instantiate (fun _ _ _ same => extends_setMemory same) (fun _ _ _ same => extends_setTable same)
    fun _ => s.extends_allocate m _

end Store

/-- What units may make a memory or a table grow to. -/
def Config.most (config : Config) : Region → Nat
  | .memory => config.maxMemoryPages
  | .table => config.maxTableSize

/-- Objects are added, and no object that was there has grown beyond what units may ask for. -/
structure World.Limited (w w' : World) : Prop where
  config : w'.config = w.config
  count : ∀ region, w.store.count region ≤ w'.store.count region
  extent : ∀ region address, address < w.store.count region →
    w'.store.extent region address ≤ max (w.store.extent region address) (w.config.most region)

namespace World

variable {w w' : World}

instance : IsPreorder World Limited where
  refl _ := ⟨rfl, fun _ => Nat.le_refl _, fun _ _ _ => Nat.le_max_left _ _⟩
  trans _ _ _ h h' := by
    refine ⟨h'.config.trans h.config, fun region => Nat.le_trans (h.count region) (h'.count region), ?_⟩
    intro region address inside
    have first := h.extent region address inside
    have second := h'.extent region address (Nat.lt_of_lt_of_le inside (h.count region))
    rw [h.config] at second
    omega

theorem limited_of_extends (config : w'.config = w.config) (h : w.store.Extends w'.store) : w.Limited w' := by
  refine ⟨config, h.count, ?_⟩
  intro region address inside
  rw [h.extent region address inside]
  exact Nat.le_max_left _ _

theorem limited_setMemory {address : Nat} {m : Memory}
    (within : m.pages ≤ max (w.store.memory address).pages w.config.maxMemoryPages) (n : Notice) :
    w.Limited ({ w with store := w.store.setMemory address m }.note n) := by
  refine ⟨rfl, ?_, ?_⟩
  · intro region
    cases region with
    | memory => exact Nat.le_of_eq Array.size_setIfInBounds.symm
    | table => exact Nat.le_refl _
  · intro region other _
    cases region with
    | memory =>
      exact rel_getD_setIfInBounds (R := fun m m' : Memory => m'.pages ≤ max m.pages w.config.maxMemoryPages)
        (fun _ => Nat.le_max_left _ _) within other
    | table => exact Nat.le_max_left _ _

theorem limited_setTable {address : Nat} {t : Table}
    (within : t.size ≤ max (w.store.table address).size w.config.maxTableSize) (n : Notice) :
    w.Limited ({ w with store := w.store.setTable address t }.note n) := by
  refine ⟨rfl, ?_, ?_⟩
  · intro region
    cases region with
    | memory => exact Nat.le_refl _
    | table => exact Nat.le_of_eq Array.size_setIfInBounds.symm
  · intro region other _
    cases region with
    | memory => exact Nat.le_max_left _ _
    | table =>
      exact rel_getD_setIfInBounds (R := fun t t' : Table => t'.size ≤ max t.size w.config.maxTableSize)
        (fun _ => Nat.le_max_left _ _) within other

end World

namespace Action

open World (Limited)

/-- Growth for an import stays within the limits. -/
theorem limited_growForImport (p : Program) (i : Import) : Respects Limited (growForImport p i) := by
  intro w
  rw [run_growForImport]
  rcases growFor_cases w.config i (w.memory p) (w.table p) with ⟨m, t, grown, within, -⟩ | ⟨fault, full, -⟩
  · rw [grown]
    have pages : m.pages ≤ max (w.memory p).pages w.config.maxMemoryPages :=
      Nat.le_trans within.pages ((w.memory p).room_le _)
    have slots : t.size ≤ max (w.table p).size w.config.maxTableSize :=
      Nat.le_trans within.slots ((w.table p).room_le _)
    have larger : w.Limited (w.enlargeMemory p m) := World.rel_enlargeMemory fun _ => World.limited_setMemory pages _
    rw [← w.table_enlargeMemory p m, ← larger.config] at slots
    have wider : (w.enlargeMemory p m).Limited ((w.enlargeMemory p m).enlargeTable p t) :=
      World.rel_enlargeTable fun _ => World.limited_setTable slots _
    exact trans_of Limited larger wider
  · rw [full]
    exact refl_of Limited w

theorem limited_constant (n : Nat) : Respects Limited (constant n) := fun _ =>
  ⟨rfl, fun _ => Nat.le_refl _, fun region _ _ => by cases region <;> exact Nat.le_max_left _ _⟩

theorem limited_instantiate (d : Definitions) (m : Module) : Respects Limited (instantiate d m) := by
  intro w
  apply World.limited_of_extends
  · exact (keeps_instantiate d m w).config
  · have joined := w.store.extends_instantiate d m
    unfold instantiate
    rw [run_bind, run_get]
    dsimp only
    rcases result : w.store.instantiate d m with ⟨fault | owner, store⟩
    · rw [result] at joined
      exact joined
    · rw [result] at joined
      exact joined

theorem limited_prepare (r : LinkRequest) : Respects Limited (prepare r) :=
  respects_prepare limited_growForImport limited_constant limited_instantiate r

end Action

/-! Steps. -/

/-- An object that is not replaced stays. -/
theorem getD_setIfInBounds_ne {xs : Array α} {absent x : α} {i j : Nat} (other : j ≠ i) :
    (xs.setIfInBounds i x)[j]?.getD absent = xs[j]?.getD absent := by
  rw [Array.getElem?_setIfInBounds_ne other.symm]

/-- An object and the size it gets. -/
structure Growth where
  region : Region
  address : Nat
  size : Nat
  deriving DecidableEq, Repr

namespace Machine

variable {m m' : Machine} {region : Region} {address : Nat}

/-- What the next instruction makes of a memory or a table by growing it. -/
def growth? (m : Machine) : Option Growth :=
  match m.control with
  | .run a =>
    match a.code, a.operands with
    | .memoryGrow i :: _, n :: _ =>
      let address := a.owner.memories.getD i 0
      ((m.world.store.memory address).grow? n.word.toNat).map fun grown => ⟨.memory, address, grown.pages⟩
    | .tableGrow i :: _, n :: _ :: _ =>
      let address := a.owner.tables.getD i 0
      ((m.world.store.table address).grow? n.word.toNat).map fun grown => ⟨.table, address, grown.size⟩
    | _, _ => none
  | _ => none

/-- The next instruction makes an object larger than a bound. -/
def Exceeds (m : Machine) (region : Region) (address bound : Nat) : Prop :=
  ∃ size, m.growth? = some ⟨region, address, size⟩ ∧ bound < size

/-- Every instruction that does not grow an object leaves all sizes. -/
theorem extends_exec (m : Machine) (a : Activation) {instr : Instr} (memory : ∀ i, instr ≠ .memoryGrow i)
    (table : ∀ i, instr ≠ .tableGrow i) : m.world.store.Extends (m.exec a instr).world.store := by
  have same {m' : Machine} (h : m'.world.store = m.world.store) : m.world.store.Extends m'.world.store := by
    rw [h]
    exact refl_of Store.Extends _
  have branches (a : Activation) (label : Nat) : (m.branch a label).world.store = m.world.store := by
    unfold branch
    split <;> rfl
  unfold exec
  dsimp only
  repeat' split
  all_goals first
    | exact same rfl
    | exact same (branches _ _)
    | exact Store.extends_setMemory (Memory.pages_write? ‹_›)
    | exact Store.extends_setMemory (Memory.pages_fill? ‹_›)
    | exact absurd rfl (memory _)
    | exact absurd rfl (table _)
    | exact ⟨fun _ => Nat.le_refl _, fun region _ _ => by cases region <;> rfl⟩

/-- What a step makes of the size of an object: it is what an instruction grows it to, or it stays within the limits. -/
inductive Sizes (m m' : Machine) (region : Region) (address : Nat) : Prop where
  | grown (size : Nat) (instruction : m.growth? = some ⟨region, address, size⟩)
      (extent : m'.world.store.extent region address = size)
  | kept (other : ∀ size, m.growth? ≠ some ⟨region, address, size⟩)
      (extent : m'.world.store.extent region address ≤
        max (m.world.store.extent region address) (m.world.config.most region))

theorem sizes_of_quiet (quiet : m.growth? = none) (h : World.Limited m.world m'.world)
    (inside : address < m.world.store.count region) : Sizes m m' region address := by
  apply Sizes.kept
  · intro size
    rw [quiet]
    nofun
  · exact h.extent region address inside

theorem sizes_of_growth {g : Growth} (grows : m.growth? = some g)
    (extent : g.address < m.world.store.count g.region → m'.world.store.extent g.region g.address = g.size)
    (others : ∀ region address, ¬ (region = g.region ∧ address = g.address) →
      m'.world.store.extent region address = m.world.store.extent region address)
    (inside : address < m.world.store.count region) : Sizes m m' region address := by
  by_cases same : region = g.region ∧ address = g.address
  · obtain ⟨rfl, rfl⟩ := same
    exact .grown g.size grows (extent inside)
  · apply Sizes.kept
    · intro size found
      rw [grows] at found
      cases found
      exact same ⟨rfl, rfl⟩
    · rw [others region address same]
      exact Nat.le_max_left _ _

theorem sizes_memoryGrow {a : Activation} {i : Nat} {rest : List Instr} (hc : m.control = .run a)
    (code : a.code = .memoryGrow i :: rest) (inside : address < m.world.store.count region) :
    Sizes m (m.exec { a with code := rest } (.memoryGrow i)) region address := by
  cases operands : a.operands with
  | nil =>
    have quiet : m.growth? = none := by simp [growth?, hc, code, operands]
    simp only [exec]
    exact sizes_of_quiet quiet (refl_of World.Limited _) inside
  | cons n operands =>
    cases grown : (m.world.store.memory (a.owner.memories.getD i 0)).grow? n.word.toNat with
    | none =>
      have quiet : m.growth? = none := by simp only [growth?, hc, code, operands, grown]; rfl
      simp only [exec, grown]
      exact sizes_of_quiet quiet (refl_of World.Limited _) inside
    | some memory =>
      have grows : m.growth? = some ⟨.memory, a.owner.memories.getD i 0, memory.pages⟩ := by
        simp only [growth?, hc, code, operands, grown]
        rfl
      simp only [exec, grown]
      apply sizes_of_growth grows
      · intro there
        exact congrArg Memory.pages (getD_setIfInBounds there)
      · intro region address other
        cases region with
        | memory => exact congrArg Memory.pages (getD_setIfInBounds_ne fun same => other ⟨rfl, same⟩)
        | table => rfl
      · exact inside

theorem sizes_tableGrow {a : Activation} {i : Nat} {rest : List Instr} (hc : m.control = .run a)
    (code : a.code = .tableGrow i :: rest) (inside : address < m.world.store.count region) :
    Sizes m (m.exec { a with code := rest } (.tableGrow i)) region address := by
  rcases operands : a.operands with _ | ⟨n, _ | ⟨v, operands⟩⟩
  · have quiet : m.growth? = none := by simp [growth?, hc, code, operands]
    simp only [exec]
    exact sizes_of_quiet quiet (refl_of World.Limited _) inside
  · have quiet : m.growth? = none := by simp [growth?, hc, code, operands]
    simp only [exec]
    exact sizes_of_quiet quiet (refl_of World.Limited _) inside
  · cases grown : (m.world.store.table (a.owner.tables.getD i 0)).grow? n.word.toNat with
    | none =>
      have quiet : m.growth? = none := by simp only [growth?, hc, code, operands, grown]; rfl
      simp only [exec, grown]
      exact sizes_of_quiet quiet (refl_of World.Limited _) inside
    | some table =>
      have grows : m.growth? = some ⟨.table, a.owner.tables.getD i 0, table.size⟩ := by
        simp only [growth?, hc, code, operands, grown]
        rfl
      simp only [exec, grown]
      apply sizes_of_growth grows
      · intro there
        exact congrArg Table.size (getD_setIfInBounds there)
      · intro region address other
        cases region with
        | memory => rfl
        | table => exact congrArg Table.size (getD_setIfInBounds_ne fun same => other ⟨rfl, same⟩)
      · exact inside

theorem growth?_of_code {a : Activation} {instr : Instr} {rest : List Instr} (hc : m.control = .run a)
    (code : a.code = instr :: rest) (memory : ∀ i, instr ≠ .memoryGrow i) (table : ∀ i, instr ≠ .tableGrow i) :
    m.growth? = none := by
  unfold growth?
  rw [hc]
  dsimp only
  rw [code]
  split
  · rename_i found _
    exact absurd (List.cons.inj found).1 (memory _)
  · rename_i found _
    exact absurd (List.cons.inj found).1 (table _)
  · rfl

theorem growth?_of_outside (outside : ∀ a, m.control ≠ .run a) : m.growth? = none := by
  unfold growth?
  split
  · rename_i a hc
    exact absurd hc (outside a)
  · rfl

/-- Whatever the host does in a step stays within the limits. -/
theorem limited_of_outside (h : m.step = .inl m') (outside : ∀ a, m.control ≠ .run a) :
    World.Limited m.world m'.world := by
  have same {w : World} (limited : World.Limited m.world w) (store : m'.world.store = w.store) :
      World.Limited m.world m'.world := by
    obtain ⟨-, count, extent⟩ := limited
    rw [← store] at count extent
    exact ⟨step_config h, count, extent⟩
  cases step_store h with
  | code a hc own => exact absurd hc (outside a)
  | same store => exact same (refl_of World.Limited _) store
  | linked r store => exact same (Action.limited_prepare r m.world) store

theorem step_sizes (h : m.step = .inl m') (inside : address < m.world.store.count region) :
    Sizes m m' region address := by
  by_cases code : ∃ a, m.control = .run a
  · obtain ⟨a, hc⟩ := code
    cases code : a.code with
    | nil =>
      have quiet : m.growth? = none := by simp [growth?, hc, code]
      simp only [step, hc, code] at h
      cases h
      apply sizes_of_quiet quiet _ inside
      unfold fallOff
      split <;> exact refl_of World.Limited _
    | cons instr rest =>
      simp only [step, hc, code] at h
      cases h
      by_cases memory : ∃ i, instr = .memoryGrow i
      · obtain ⟨i, rfl⟩ := memory
        exact sizes_memoryGrow hc code inside
      by_cases table : ∃ i, instr = .tableGrow i
      · obtain ⟨i, rfl⟩ := table
        exact sizes_tableGrow hc code inside
      simp only [not_exists] at memory table
      apply sizes_of_quiet (growth?_of_code hc code memory table) _ inside
      exact World.limited_of_extends (local_exec m _ instr).still.kept.config (extends_exec m _ memory table)
  · have outside : ∀ a, m.control ≠ .run a := fun a hc => code ⟨a, hc⟩
    exact sizes_of_quiet (growth?_of_outside outside) (limited_of_outside h outside) inside

/-- No step removes an object. -/
theorem step_count (h : m.step = .inl m') (region : Region) : m.world.store.count region ≤ m'.world.store.count region := by
  cases step_store h with
  | code a hc own =>
    cases own with
    | go c => exact Nat.le_refl _
    | memory address memory a le =>
      cases region with
      | memory => exact Nat.le_of_eq Array.size_setIfInBounds.symm
      | table => exact Nat.le_refl _
    | table address table a le =>
      cases region with
      | memory => exact Nat.le_refl _
      | table => exact Nat.le_of_eq Array.size_setIfInBounds.symm
    | global address v a => cases region <;> exact Nat.le_refl _
    | invoke a callee type => exact Nat.le_refl _
  | same store => exact Nat.le_of_eq (by rw [store])
  | linked r store =>
    rw [store]
    exact (Action.limited_prepare r m.world).count region

end Machine

/-! Whole runs. -/

/-- A property of each state and of the states before it, which begin with `past`. -/
def Along (I : List Machine → Machine → Prop) (past : List Machine) : List Machine → Prop
  | [] => True
  | n :: rest => I past n ∧ Along I (past ++ [n]) rest

theorem along_append {I : List Machine → Machine → Prop} {past xs ys : List Machine} :
    Along I past (xs ++ ys) ↔ Along I past xs ∧ Along I (past ++ xs) ys := by
  induction xs generalizing past with
  | nil => simp [Along]
  | cons n xs ih => simp [Along, ih, and_assoc]

/-- The property holds wherever the states split. -/
theorem Along.split {I : List Machine → Machine → Prop} {past states before after : List Machine} {n : Machine}
    (h : Along I past states) (split : states = before ++ n :: after) : I (past ++ before) n := by
  rw [split, along_append] at h
  exact h.2.1

theorem Machine.along_visited {I : List Machine → Machine → Prop}
    (keep : ∀ {past m m'}, I past m → m.step = .inl m' → I (past ++ [m]) m') {past : List Machine} {m : Machine}
    (initially : I past m) (fuel : Nat) : Along I past (m.visited fuel) := by
  induction fuel generalizing past m with
  | zero => trivial
  | succ fuel ih =>
    unfold visited
    refine ⟨initially, ?_⟩
    cases step : m.step with
    | inl next => exact ih (keep initially step)
    | inr outcome => trivial

/-- The states left behind so far explain the size of an object: it is above the bound exactly if an instruction has made
it so. -/
structure World.Explained (config : Config) (region : Region) (address bound : Nat) (past : List Machine) (w : World) :
    Prop where
  config : w.config = config
  inside : address < w.store.count region
  exceeds : bound < w.store.extent region address ↔ ∃ x ∈ past, x.Exceeds region address bound

section Explained

open World (Explained)

variable {config : Config} {region : Region} {address bound : Nat} (enough : config.most region ≤ bound)
  {past : List Machine} {w w' : World} {m m' : Machine}

/-- What leaves configuration, objects and sizes alone needs no explanation. -/
theorem World.Explained.extends (h : Explained config region address bound past w) (same : w'.config = w.config)
    (objects : w.store.Extends w'.store) : Explained config region address bound past w' where
  config := same.trans h.config
  inside := Nat.lt_of_lt_of_le h.inside (objects.count region)
  exceeds := by
    rw [objects.extent region address h.inside]
    exact h.exceeds

theorem World.Explained.store (h : Explained config region address bound past w) (same : w'.config = w.config)
    (objects : w'.store = w.store) : Explained config region address bound past w' :=
  h.extends same (by rw [objects]; exact refl_of Store.Extends _)

include enough

theorem World.Explained.step (h : Explained config region address bound past m.world) (step : m.step = .inl m') :
    Explained config region address bound (past ++ [m]) m'.world where
  config := (Machine.step_config step).trans h.config
  inside := Nat.lt_of_lt_of_le h.inside (Machine.step_count step region)
  exceeds := by
    have grows := (Machine.step_grows step).extent_le region address
    simp only [List.mem_append, List.mem_singleton, or_and_right, exists_or, exists_eq_left, ← h.exceeds]
    cases Machine.step_sizes step h.inside with
    | grown size instruction extent =>
      rw [extent]
      constructor
      · intro larger
        exact .inr ⟨size, instruction, larger⟩
      · rintro (before | ⟨size', instruction', larger⟩)
        · omega
        · rw [instruction] at instruction'
          cases instruction'
          exact larger
    | kept other extent =>
      rw [h.config] at extent
      constructor
      · intro larger
        exact .inl (by omega)
      · rintro (before | ⟨size, instruction, -⟩)
        · omega
        · exact absurd instruction (other size)

omit enough in
/-- The state in which a call ends grows nothing. -/
theorem World.Explained.ended {outcome : Outcome} (h : Explained config region address bound past m.world)
    (ended : m.step = .inr outcome) : Explained config region address bound (past ++ [m]) m.world where
  config := h.config
  inside := h.inside
  exceeds := by
    have quiet : m.growth? = none := by
      apply Machine.growth?_of_outside
      intro a hc
      unfold Machine.step at ended
      rw [hc] at ended
      dsimp only at ended
      split at ended <;> cases ended
    simp only [List.mem_append, List.mem_singleton, or_and_right, exists_or, exists_eq_left, ← h.exceeds]
    constructor
    · exact Or.inl
    · rintro (before | ⟨size, instruction, -⟩)
      · exact before
      · rw [quiet] at instruction
        cases instruction

theorem World.Explained.run {fuel : Nat} {outcome : Outcome} (h : Explained config region address bound past m.world)
    (run : m.run fuel = some (w, outcome)) :
    Explained config region address bound (past ++ m.visited fuel) w := by
  obtain ⟨left, last, trace, holds, ended, rfl⟩ :=
    Machine.run_invariant (I := fun past n => Explained config region address bound past n.world)
      (fun holds step => holds.step enough step) run h
  rw [trace, ← List.append_assoc]
  exact holds.ended ended

theorem World.Explained.visited (h : Explained config region address bound past m.world) (fuel : Nat) :
    Along (fun past n => Explained config region address bound past n.world) past (m.visited fuel) :=
  Machine.along_visited (fun holds step => holds.step enough step) h fuel

end Explained

/-! Sessions. -/

/-- The memory or table at an address. -/
def Region.object : Region → Nat → Extern
  | .memory => .memory
  | .table => .table

/-- The name under which a base exports its memory or its table. -/
def Abi.shared (abi : Abi) : Region → String
  | .memory => abi.memory
  | .table => abi.table

/-- The address of the memory or the table that a base shares. -/
def BaseExports.address (e : BaseExports) : Region → Nat
  | .memory => e.memory
  | .table => e.table

/-- The address of the shared memory or the shared table. -/
def Session.address (s : Session) : Region → Nat
  | .memory => s.memory
  | .table => s.table

/-- A base exports what it shares. -/
theorem Action.baseExports_ok {owner : Instance} {e : BaseExports} {w w' : World}
    (h : (baseExports owner).run.run w = (.ok e, w')) (region : Region) :
    owner.export? (w.config.abi.shared region) = some (region.object (e.address region)) := by
  obtain ⟨-, memory, table, -⟩ := Run.baseExports_cases h
  cases region with
  | memory => exact memory
  | table => exact table

/-- What a base shares is in the store it has joined. -/
theorem Store.inside_of_export? {s s' : Store} {d : Definitions} {m : Module} {owner : Instance} {name : String}
    {region : Region} {address : Nat} (joined : s.instantiate d m = (.ok owner, s'))
    (exported : owner.export? name = some (region.object address)) : address < s'.count region := by
  obtain ⟨e, -, -, found⟩ := object?_of_export? joined exported
  have typed := typed_of_instantiate joined
  have kind := Instance.kind_of_object? found
  cases region with
  | memory =>
    rw [← kind] at found
    obtain ⟨a, found, same⟩ := Option.map_eq_some_iff.1 found
    cases same
    obtain ⟨inside, rfl⟩ := List.getElem?_eq_some_iff.1 found
    exact typed.memories.get (typed.memories.length_eq ▸ inside) inside
  | table =>
    rw [← kind] at found
    obtain ⟨a, found, same⟩ := Option.map_eq_some_iff.1 found
    cases same
    obtain ⟨inside, rfl⟩ := List.getElem?_eq_some_iff.1 found
    exact typed.tables.get (typed.tables.length_eq ▸ inside) inside

namespace Run

variable {w w' : World} {fuel : Nat} {base : Module} {e : BaseExports} {region : Region} {bound : Nat}

/-- The world when a base has joined the store and none of its code has run. -/
def joined (base : Module) (w : World) : World :=
  match Action.surface.run.run w with
  | (.ok d, v) => ((Action.instantiate d base).run.run v).2
  | (.error _, v) => v

open World (Explained)

/-- While a base is put in place, only its start function can make its memory and its table larger. -/
theorem place_explained (enough : w.config.most region ≤ bound)
    (begins : (joined base w).store.extent region (e.address region) ≤ bound)
    (h : (place fuel base).run.run w = some (.ok e, w')) :
    Along (fun past n => Explained w.config region (e.address region) bound past n.world) [] (starting fuel base w) ∧
      Explained w.config region (e.address region) bound (starting fuel base w) w' := by
  obtain ⟨d, v, owner, v₁, surfaced, instantiated, exports, installed⟩ := place_cases h
  obtain ⟨u, allocated, started⟩ := instantiate_cases instantiated
  have new : Explained w.config region (e.address region) bound [] u := by
    constructor
    · exact ((Action.keeps_instantiate d base).of_run allocated).config.trans
        (Action.keeps_surface.of_run surfaced).config
    · exact Store.inside_of_export? (Action.run_instantiate_ok allocated) (Action.baseExports_ok exports region)
    · unfold joined at begins
      rw [surfaced] at begins
      dsimp only at begins
      rw [allocated] at begins
      simp [begins]
  have ran : Along (fun past n => Explained w.config region (e.address region) bound past n.world) []
      (starting fuel base w) ∧ Explained w.config region (e.address region) bound (starting fuel base w) v₁ := by
    unfold starting
    rw [surfaced]
    dsimp only
    rw [allocated]
    dsimp only
    rcases started with ⟨callee, results, start, run⟩ | ⟨start, rfl⟩
    · rw [start]
      exact ⟨new.visited enough fuel, new.run enough run⟩
    · rw [start]
      exact ⟨trivial, new⟩
  obtain ⟨along, explained⟩ := ran
  refine ⟨along, ?_⟩
  obtain ⟨surface, -, rfl⟩ := Action.install_ok installed
  refine explained.store ?_ ?_
  · exact (World.kept_publish _ owner.symbols).config
  · exact World.store_publish _ owner.symbols

/-- While a base is loaded, only its own code and the code of units it links can make its memory and its table larger
than the limits. -/
theorem load_explained (enough : w.config.most region ≤ bound)
    (begins : (joined base w).store.extent region (e.address region) ≤ bound)
    (h : (load fuel base).run.run w = some (.ok e, w')) :
    Along (fun past n => Explained w.config region (e.address region) bound past n.world) []
        (starting fuel base w ++ initialization fuel base w) ∧
      Explained w.config region (e.address region) bound (starting fuel base w ++ initialization fuel base w) w' := by
  obtain ⟨v, v', results, ns, placed, run, rfl⟩ := load_cases h
  obtain ⟨along, explained⟩ := place_explained enough begins placed
  have trace : initialization fuel base w = Machine.visited fuel { world := v, control := .call e.initializer [] } := by
    unfold initialization
    rw [placed]
  rw [trace]
  constructor
  · exact along_append.2 ⟨along, explained.visited enough fuel⟩
  · refine (explained.run enough run).store ?_ ?_
    · exact (World.kept_noteAll _ ns).config
    · exact World.store_noteAll _ ns

end Run

namespace Session

open World (Explained)

variable {s s' : Session} {fuel : Nat} {config : Config} {region : Region} {address bound : Nat} {past : List Machine}

/-- The states that the reply to a question goes through. -/
def during (fuel : Nat) (s : Session) : Question → List Machine
  | .submit nanos text => (s.atTime nanos).visited fuel text
  | _ => []

/-- The states that the replies to questions go through. -/
def course (fuel : Nat) (s : Session) : List Question → List Machine
  | [] => []
  | question :: rest =>
    s.during fuel question ++
      match s.reply fuel question with
      | some (_, s) => s.course fuel rest
      | none => []

theorem evaluation_extends {text : String} {m : Machine} (fits : s.evaluation text = .ok m) :
    s.world.store.Extends m.world.store := by
  obtain ⟨memory, same, store⟩ := evaluation_written fits
  rw [store]
  exact Store.extends_setMemory same

variable (enough : config.most region ≤ bound)

include enough

theorem visited_explained (h : Explained config region address bound past s.world) (fuel : Nat) (text : String) :
    Along (fun past n => Explained config region address bound past n.world) past (s.visited fuel text) := by
  unfold Session.visited
  cases fits : s.evaluation text with
  | error f => trivial
  | ok m => exact (h.extends (evaluation_ok fits).1.config (evaluation_extends fits)).visited enough fuel

theorem submit_explained {text : String} {answer : Except Failure Response} (ready : s.state = .ready)
    (h : Explained config region address bound past s.world) (submitted : s.submit fuel text = some (answer, s')) :
    Explained config region address bound (past ++ s.visited fuel text) s'.world := by
  unfold Session.visited
  rcases submit_cases ready submitted with ⟨f, misfit, rfl⟩ | ⟨m, w, outcome, fits, run, rfl⟩
  · rw [misfit, List.append_nil]
    exact h.store rfl rfl
  · rw [fits]
    have begun := h.extends (evaluation_ok fits).1.config (evaluation_extends fits)
    refine (begun.run enough run).store ?_ ?_
    · exact (same_settled w outcome).1.config
    · exact store_settled w outcome

/-- A reply leaves a session ready, and only the code it runs can make memory or table larger than the limits. -/
theorem reply_explained {question : Question} {reply : Reply} (ready : s.state = .ready)
    (h : Explained config region address bound past s.world) (told : s.reply fuel question = some (reply, s')) :
    s'.state = .ready ∧
      Along (fun past n => Explained config region address bound past n.world) past (s.during fuel question) ∧
      Explained config region address bound (past ++ s.during fuel question) s'.world := by
  have looked (told : some (reply, s') = some (reply, s)) : s'.state = .ready ∧ True ∧
      Explained config region address bound (past ++ []) s'.world := by
    cases told
    rw [List.append_nil]
    exact ⟨ready, trivial, h⟩
  cases question with
  | submit nanos text =>
    obtain ⟨⟨answer, _⟩, submitted, told⟩ := Option.map_eq_some_iff.1 told
    cases told
    have later : Explained config region address bound past (s.atTime nanos).world := h.store rfl rfl
    obtain ⟨r, -, ready', -⟩ := submit_answered (s := s.atTime nanos) ready submitted
    exact ⟨ready', visited_explained enough later fuel text,
      submit_explained (s := s.atTime nanos) enough ready later submitted⟩
  | drainConsole =>
    cases told
    unfold during
    rw [List.append_nil]
    exact ⟨ready, trivial, h.store rfl rfl⟩
  | snapshot => cases told; exact looked rfl
  | history => cases told; exact looked rfl
  | info => cases told; exact looked rfl

theorem course_explained {questions : List Question} {replies : List Reply} (ready : s.state = .ready)
    (h : Explained config region address bound past s.world)
    (told : askEach (Session.reply fuel) s questions = some (replies, s')) :
    Along (fun past n => Explained config region address bound past n.world) past (s.course fuel questions) ∧
      Explained config region address bound (past ++ s.course fuel questions) s'.world := by
  induction questions generalizing s past replies with
  | nil =>
    cases told
    unfold course
    rw [List.append_nil]
    exact ⟨trivial, h⟩
  | cons question rest ih =>
    obtain ⟨⟨reply, next⟩, first, told⟩ := Option.bind_eq_some_iff.1 told
    obtain ⟨⟨more, last⟩, rest, told⟩ := Option.bind_eq_some_iff.1 told
    cases told
    obtain ⟨ready', along, explained⟩ := reply_explained enough ready h first
    obtain ⟨along', explained'⟩ := ih ready' explained rest
    unfold course
    rw [first]
    dsimp only
    rw [← List.append_assoc]
    exact ⟨along_append.2 ⟨along, along'⟩, explained'⟩

end Session

/-- A base with a page and four slots whose evaluator adds three pages and nine slots. -/
def Sample.greedyEvaluator : Module :=
  .ofEvaluator [] [] [.i32 3, .memoryGrow 0, .drop, .null .func, .i32 9, .tableGrow 0, .drop]

/-- A configuration that allows units two pages and eight slots. -/
def Sample.tight : Config := { maxMemoryPages := 2, maxTableSize := 8 }

/-- In every state of code that runs while a session is loaded and while it replies to its owner, and between replies, the
shared memory and the shared table are larger than the limit and than they were instantiated with exactly if some
instruction before has grown them so far. -/
theorem limits_exceeded_by_code {loading fuel : Nat} {engine : Engine} {base : Module} {config : Config}
    {log : Array Notice} {s s' : Session} {questions : List Question} {replies : List Reply}
    (loaded : Session.load loading engine base config log = some (.ok s))
    (told : askEach (Session.reply fuel) s questions = some (replies, s')) (region : Region) :
    let fresh := World.fresh engine config log
    let bound := max (config.most region) ((Run.joined base fresh).store.extent region (s.address region))
    let past := Run.starting loading base fresh ++ Run.initialization loading base fresh ++ s.course fuel questions
    (bound < s'.world.store.extent region (s.address region) ↔ ∃ x ∈ past, x.Exceeds region (s.address region) bound) ∧
    ∀ (more : Nat) (text : String) (before after : List Machine) (n : Machine),
      past ++ s'.visited more text = before ++ n :: after →
      (bound < n.world.store.extent region (s.address region) ↔
        ∃ x ∈ before, x.Exceeds region (s.address region) bound) := by
  intro fresh bound past
  obtain ⟨e, w, load, rfl⟩ := Session.load_cases loaded
  have address : Session.address ⟨w, e.memory, e.table, e.evaluate, .ready, []⟩ region = e.address region := by
    cases region <;> rfl
  have enough : fresh.config.most region ≤ bound := Nat.le_max_left _ _
  have begins : (Run.joined base fresh).store.extent region (e.address region) ≤ bound := by
    rw [← address]
    exact Nat.le_max_right _ _
  obtain ⟨along, explained⟩ := Run.load_explained (w := fresh) enough begins load
  obtain ⟨along', explained'⟩ := Session.course_explained enough rfl explained told
  rw [address]
  refine ⟨explained'.exceeds, ?_⟩
  intro more text before after n split
  have whole := along_append.2 ⟨along_append.2 ⟨along, along'⟩, Session.visited_explained enough explained' more text⟩
  exact (whole.split split).exceeds

/-- With two pages and eight slots allowed, an evaluation leaves four pages and thirteen slots. Two instructions have done
that. -/
theorem evaluator_exceeds_limits : ∃ s replies s',
    Session.load 100 {} Sample.greedyEvaluator Sample.tight = some (.ok s) ∧
    askEach (Session.reply 100) s [.submit 0 ""] = some (replies, s') ∧ s'.memoryPages = 4 ∧ s'.tableSize = 13 ∧
    let past := Run.starting 100 Sample.greedyEvaluator (.fresh {} Sample.tight #[]) ++
      Run.initialization 100 Sample.greedyEvaluator (.fresh {} Sample.tight #[]) ++ s.course 100 [.submit 0 ""]
    (∃ x ∈ past, x.Exceeds .memory s.memory 2) ∧ ∃ x ∈ past, x.Exceeds .table s.table 8 := by
  have evaluated : ((Session.load 100 {} Sample.greedyEvaluator Sample.tight).bind fun loaded => loaded.toOption.bind fun s =>
      (askEach (Session.reply 100) s [.submit 0 ""]).map fun told =>
        (told.2.world.store.extent .memory s.memory, told.2.world.store.extent .table s.table, told.2.memoryPages,
          told.2.tableSize,
          (Run.joined Sample.greedyEvaluator (.fresh {} Sample.tight #[])).store.extent .memory s.memory,
          (Run.joined Sample.greedyEvaluator (.fresh {} Sample.tight #[])).store.extent .table s.table)) =
      some (4, 13, 4, 13, 1, 4) := by decide +kernel
  obtain ⟨loaded, begun, evaluated⟩ := Option.bind_eq_some_iff.1 evaluated
  obtain ⟨s, ok, evaluated⟩ := Option.bind_eq_some_iff.1 evaluated
  obtain ⟨⟨replies, s'⟩, told, found⟩ := Option.map_eq_some_iff.1 evaluated
  simp only [Prod.mk.injEq] at found
  obtain ⟨pages, slots, memory, table, base, own⟩ := found
  rw [ok_of_toOption ok] at begun
  refine ⟨s, replies, s', begun, told, memory, table, ?_, ?_⟩
  · have exceeded := (limits_exceeded_by_code begun told .memory).1
    simp only [Session.address, base, pages] at exceeded
    exact exceeded.1 (by decide)
  · have exceeded := (limits_exceeded_by_code begun told .table).1
    simp only [Session.address, own, slots] at exceeded
    exact exceeded.1 (by decide)

end UnitHost
