import Mathlib.Data.List.Perm.Basic
import Mathlib.Order.Lattice
import UnitHost.Proofs.LinkGrowth

/-!
# Sizes after growth

What growth for a unit makes of the shared memory and the shared table, in terms of what the unit's imports ask for and
of the sizes there are. An import asks for `Import.pages` of the memory and `Import.slots` of the table. Growth succeeds
exactly if no import asks for more than the allowance, and then both sizes are the largest of the old size and all that
was asked for. A maximum does not depend on the order, and whoever asks for it again gets nothing new: the main result is
`growToFit_sizes`.
-/

namespace UnitHost

open Wasm

namespace Wasm.Import

variable {i : Import} {config : Config} {m : Memory} {t : Table}

/-- The pages an import asks of the shared memory; any other import asks for none. -/
def pages (abi : Abi) (i : Import) : Nat :=
  match i.type with
  | .memory limits => if i.module = abi.systemModule ∧ i.name = abi.importMemory then limits.min else 0
  | _ => 0

/-- The slots an import asks of the shared table; any other import asks for none. -/
def slots (abi : Abi) (i : Import) : Nat :=
  match i.type with
  | .table type => if i.module = abi.systemModule ∧ i.name = abi.importTable then type.limits.min else 0
  | _ => 0

theorem exceeds_iff :
    i.Exceeds config m t ↔
      m.room config.maxMemoryPages < i.pages config.abi ∨ t.room config.maxTableSize < i.slots config.abi := by
  unfold Exceeds pages slots
  cases i.type with
  | func _ => simp
  | global _ => simp
  | memory limits =>
    by_cases shared : i.module = config.abi.systemModule ∧ i.name = config.abi.importMemory
    · simp [shared]
    · simpa [shared] using fun system name => absurd ⟨system, name⟩ shared
  | table type =>
    by_cases shared : i.module = config.abi.systemModule ∧ i.name = config.abi.importTable
    · simp [shared]
    · simpa [shared] using fun system name => absurd ⟨system, name⟩ shared

end Wasm.Import

namespace Wasm.Module

variable {m : Module} {referenceTypes : Bool} {i : Import}

/-- A valid module asks for no more pages than a memory can have. -/
theorem pages_le_of_isValid (valid : m.isValid referenceTypes = true) (abi : Abi) (mem : i ∈ m.imports) :
    i.pages abi ≤ maxPages := by
  simp only [isValid, Bool.and_eq_true] at valid
  have all : m.memoryTypes.all memoryOk = true := by simp [valid]
  unfold Import.pages
  cases type : i.type with
  | memory limits =>
    have listed : limits ∈ m.memoryTypes :=
      List.mem_append_left _ (List.mem_filterMap.2 ⟨i, mem, by rw [type]⟩)
    have ok := List.all_eq_true.1 all limits listed
    simp only [memoryOk, Bool.and_eq_true, decide_eq_true_eq] at ok
    have small : limits.min ≤ maxPages := ok.1
    dsimp only
    split
    · exact small
    · exact Nat.zero_le _
  | func _ => exact Nat.zero_le _
  | table _ => exact Nat.zero_le _
  | global _ => exact Nat.zero_le _

/-- A valid module asks for no more slots than a table can have. -/
theorem slots_le_of_isValid (valid : m.isValid referenceTypes = true) (abi : Abi) (mem : i ∈ m.imports) :
    i.slots abi ≤ maxSlots := by
  simp only [isValid, Bool.and_eq_true] at valid
  have all : m.tableTypes.all (tableOk referenceTypes) = true := by simp [valid]
  unfold Import.slots
  cases type : i.type with
  | table wanted =>
    have listed : wanted ∈ m.tableTypes :=
      List.mem_append_left _ (List.mem_filterMap.2 ⟨i, mem, by rw [type]⟩)
    have ok := List.all_eq_true.1 all wanted listed
    simp only [tableOk, Bool.and_eq_true, decide_eq_true_eq] at ok
    have small : wanted.limits.min ≤ maxSlots := Nat.le_trans ok.1.1 (by decide)
    dsimp only
    split
    · exact small
    · exact Nat.zero_le _
  | func _ => exact Nat.zero_le _
  | memory _ => exact Nat.zero_le _
  | global _ => exact Nat.zero_le _

end Wasm.Module

/-- A configured limit, or an object's own if that is lower. -/
def capped (limit : Nat) (own : Option Nat) : Nat := own.elim limit (min limit)

namespace Memory

variable {m m' : Memory} {wanted limit : Nat}

/-- A memory with more pages: the bytes there were are kept, and the new ones are zero. -/
structure Enlarged (m m' : Memory) : Prop where
  pages : m.pages ≤ m'.pages
  bytes : ∀ address, m'.byte address = if address < m.size then m.byte address else 0

theorem Widens.enlarged (h : m.Widens m') : m.Enlarged m' := by
  refine ⟨h.pages, ?_⟩
  intro address
  rw [h.byte_eq]
  split
  · rfl
  · rename_i behind
    exact byte_of_size_le (Nat.not_lt.1 behind)

/-- What units may ask of a memory: the pages there are, or as many as the limits allow. -/
def allowance (m : Memory) (limit : Nat) : Nat := max m.pages (capped limit m.maximum)

/-- For what a memory can have at all, room and allowance are the same. -/
theorem le_room_iff (possible : wanted ≤ maxPages) : wanted ≤ m.room limit ↔ wanted ≤ m.allowance limit := by
  unfold room Memory.limit allowance capped
  cases m.maximum with
  | none => simp only [Option.getD_none, Option.elim_none]; omega
  | some own => simp only [Option.getD_some, Option.elim_some]; omega

theorem room_le (m : Memory) (limit : Nat) : m.room limit ≤ max m.pages limit := by
  unfold room
  omega

theorem pages_growTo (h : m.growTo wanted limit = .ok m') : m'.pages = max m.pages wanted := by
  unfold growTo at h
  split at h
  · cases h
    omega
  · split at h
    · cases h
    · split at h
      · rename_i m'' grown
        cases h
        rw [pages_grow? grown]
        omega
      · cases h

end Memory

namespace Table

variable {t t' : Table} {wanted limit : Nat}

/-- A table with more slots: those there were are kept, and the new ones are empty. -/
structure Enlarged (t t' : Table) : Prop where
  size : t.size ≤ t'.size
  slots : ∀ i, t'.get? i = if i < t.size then t.get? i else none

theorem Widens.enlarged (h : t.Widens t') : t.Enlarged t' := by
  refine ⟨h.size, ?_⟩
  intro i
  rw [h.get?_eq]
  split
  · rfl
  · rename_i behind
    exact get?_of_size_le (Nat.not_lt.1 behind)

/-- What units may ask of a table: the slots there are, or as many as the limits allow for a table of functions. -/
def allowance (t : Table) (limit : Nat) : Nat :=
  if t.kind = .func then max t.size (capped limit t.maximum) else t.size

/-- For what a table can have at all, room and allowance are the same. -/
theorem le_room_iff (possible : wanted ≤ maxSlots) : wanted ≤ t.room limit ↔ wanted ≤ t.allowance limit := by
  unfold room Table.limit allowance capped
  split
  · cases t.maximum with
    | none => simp only [Option.getD_none, Option.elim_none]; omega
    | some own => simp only [Option.getD_some, Option.elim_some]; omega
  · rfl

theorem room_le (t : Table) (limit : Nat) : t.room limit ≤ max t.size limit := by
  unfold room
  split <;> omega

theorem size_growTo (h : t.growTo wanted limit = .ok t') : t'.size = max t.size wanted := by
  unfold growTo at h
  split at h
  · cases h
    omega
  · split at h
    · cases h
    · split at h
      · cases h
      · split at h
        · rename_i t'' grown
          cases h
          rw [size_grow? grown]
          omega
        · cases h

end Table

/-! Growth for one import, and for all of them. -/

/-- What an import does not ask for needs no growth. -/
theorem Memory.growTo_zero (m : Memory) (limit : Nat) : m.growTo 0 limit = .ok m := if_pos (Nat.zero_le _)

theorem Table.growTo_zero (t : Table) (limit : Nat) : t.growTo 0 limit = .ok t := if_pos (Nat.zero_le _)

/-- Growth for an import is growth to what it asks for, of both objects. -/
theorem growFor_eq (abi : Abi) (config : Config) (i : Import) (m : Memory) (t : Table) :
    growFor abi config i m t =
      (m.growTo (i.pages abi) config.maxMemoryPages).bind fun m' =>
        (t.growTo (i.slots abi) config.maxTableSize).map fun t' => (m', t') := by
  unfold growFor Import.pages Import.slots
  by_cases system : i.module = abi.systemModule
  · cases type : i.type with
    | func _ => simp [system, Memory.growTo_zero, Table.growTo_zero, Except.bind, Except.map]
    | global _ => simp [system, Memory.growTo_zero, Table.growTo_zero, Except.bind, Except.map]
    | memory limits =>
      by_cases name : i.name = abi.importMemory
      · simp only [system, name, ne_eq, not_true, if_false, if_true, true_and, Table.growTo_zero]
        cases m.growTo limits.min config.maxMemoryPages <;> rfl
      · simp [system, name, Memory.growTo_zero, Table.growTo_zero, Except.bind, Except.map]
    | table wanted =>
      by_cases name : i.name = abi.importTable
      · simp only [system, name, ne_eq, not_true, if_false, if_true, true_and, Memory.growTo_zero]
        cases t.growTo wanted.limits.min config.maxTableSize <;> rfl
      · simp [system, name, Memory.growTo_zero, Table.growTo_zero, Except.bind, Except.map]
  · cases i.type <;> simp [system, Memory.growTo_zero, Table.growTo_zero, Except.bind, Except.map]

/-- Growth for an import ends with exactly what it asks for, if that is more than there was. -/
theorem growFor_sizes {abi : Abi} {config : Config} {i : Import} {m m' : Memory} {t t' : Table}
    (h : growFor abi config i m t = .ok (m', t')) :
    m'.pages = max m.pages (i.pages abi) ∧ t'.size = max t.size (i.slots abi) := by
  rw [growFor_eq] at h
  cases memory : m.growTo (i.pages abi) config.maxMemoryPages with
  | error fault => rw [memory] at h; cases h
  | ok grown =>
    cases table : t.growTo (i.slots abi) config.maxTableSize with
    | error fault => rw [memory, table] at h; cases h
    | ok widened =>
      rw [memory, table] at h
      cases h
      exact ⟨Memory.pages_growTo memory, Table.size_growTo table⟩

namespace Action

variable {w w' : World} {p : Program} {i : Import} {imports : List Import}

theorem sizes_growForImport (memory : p.memory < w.store.memories.size) (table : p.table < w.store.tables.size)
    (h : (growForImport p i).run.run w = (.ok (), w')) :
    (w'.memory p).pages = max (w.memory p).pages (i.pages w.config.abi) ∧
      (w'.table p).size = max (w.table p).size (i.slots w.config.abi) := by
  rw [run_growForImport] at h
  cases grown : growFor w.config.abi w.config i (w.memory p) (w.table p) with
  | error fault => rw [grown] at h; cases h
  | ok larger =>
    rw [grown] at h
    cases h
    obtain ⟨pages, slots⟩ := growFor_sizes grown
    rw [← w.tables_enlargeMemory p larger.1] at table
    rw [World.memory_enlargeTable, World.pages_enlargeMemory memory, World.size_enlargeTable table,
      World.table_enlargeMemory, pages, slots]
    omega

/-- Growth for all imports ends with the largest of the old size and all that was asked for. -/
theorem sizes_growToFit (memory : p.memory < w.store.memories.size) (table : p.table < w.store.tables.size)
    (h : (growToFit p imports).run.run w = (.ok (), w')) :
    (w'.memory p).pages = (imports.map (·.pages w.config.abi)).foldl max (w.memory p).pages ∧
      (w'.table p).size = (imports.map (·.slots w.config.abi)).foldl max (w.table p).size := by
  induction imports generalizing w with
  | nil =>
    cases h
    exact ⟨rfl, rfl⟩
  | cons i rest ih =>
    have begins : growToFit p (i :: rest) = (growForImport p i >>= fun _ => growToFit p rest) := rfl
    rw [begins, run_bind] at h
    rcases growForImport_cases p i w with ⟨v, served, first, -⟩ | ⟨fault, refused, -⟩
    · rw [served] at h
      obtain ⟨pages, slots⟩ := sizes_growForImport memory table served
      have later := ih (first.spares.memoryCount ▸ memory) (first.spares.tableCount ▸ table) h
      rw [first.spares.kept.config, pages, slots] at later
      exact later
    · rw [refused] at h
      cases h

/-- An import that asks for no more than there is leaves the world alone. -/
theorem run_growForImport_of_le (pages : i.pages w.config.abi ≤ (w.memory p).pages)
    (slots : i.slots w.config.abi ≤ (w.table p).size) : (growForImport p i).run.run w = (.ok (), w) := by
  have enough : growFor w.config.abi w.config i (w.memory p) (w.table p) = .ok (w.memory p, w.table p) := by
    rw [growFor_eq, Memory.growTo, if_pos pages, Table.growTo, if_pos slots]
    rfl
  rw [run_growForImport, enough]
  dsimp only
  rw [World.enlargeMemory, if_neg (Nat.lt_irrefl _), World.enlargeTable, if_neg (Nat.lt_irrefl _)]

theorem run_growToFit_of_le (enough : ∀ i ∈ imports, i.pages w.config.abi ≤ (w.memory p).pages ∧
    i.slots w.config.abi ≤ (w.table p).size) : (growToFit p imports).run.run w = (.ok (), w) := by
  induction imports with
  | nil => rfl
  | cons i rest ih =>
    have begins : growToFit p (i :: rest) = (growForImport p i >>= fun _ => growToFit p rest) := rfl
    obtain ⟨pages, slots⟩ := enough i List.mem_cons_self
    rw [begins, run_bind, run_growForImport_of_le pages slots]
    exact ih fun j mem => enough j (List.mem_cons_of_mem i mem)

end Action

/-- No import asks for more than the memory and the table are allowed to have. -/
def Fits (config : Config) (imports : List Import) (m : Memory) (t : Table) : Prop :=
  ∀ i ∈ imports, i.pages config.abi ≤ m.allowance config.maxMemoryPages ∧
    i.slots config.abi ≤ t.allowance config.maxTableSize

instance (config : Config) (imports : List Import) (m : Memory) (t : Table) : Decidable (Fits config imports m t) :=
  inferInstanceAs (Decidable (∀ i ∈ imports, _ ∧ _))

/-- No import asks for more than a memory or a table can have at all. -/
def Possible (abi : Abi) (imports : List Import) : Prop :=
  ∀ i ∈ imports, i.pages abi ≤ maxPages ∧ i.slots abi ≤ maxSlots

theorem Wasm.Module.possible {module : Module} {referenceTypes : Bool} (valid : module.isValid referenceTypes = true)
    (abi : Abi) : Possible abi module.imports := fun _ mem =>
  ⟨pages_le_of_isValid valid abi mem, slots_le_of_isValid valid abi mem⟩

theorem fits_iff {config : Config} {imports : List Import} {m : Memory} {t : Table}
    (possible : Possible config.abi imports) :
    Fits config imports m t ↔ ∀ i ∈ imports, ¬ i.Exceeds config m t := by
  unfold Fits
  apply forall₂_congr
  intro i mem
  obtain ⟨pages, slots⟩ := possible i mem
  rw [Import.exceeds_iff, not_or, Nat.not_lt, Nat.not_lt, Memory.le_room_iff pages, Table.le_room_iff slots]

theorem foldl_max_le_iff {sizes : List Nat} {size bound : Nat} :
    sizes.foldl max size ≤ bound ↔ size ≤ bound ∧ ∀ n ∈ sizes, n ≤ bound := by
  induction sizes generalizing size with
  | nil => simp
  | cons n rest ih => rw [List.foldl_cons, ih, List.forall_mem_cons, Nat.max_le, and_assoc]

namespace Action

variable {w w' : World} {p : Program} {imports : List Import} {result : Except Failure Unit}

theorem growToFit_ok_iff (possible : Possible w.config.abi imports)
    (run : (growToFit p imports).run.run w = (result, w')) :
    result = .ok () ↔ Fits w.config imports (w.memory p) (w.table p) := by
  rw [fits_iff possible]
  obtain ⟨v, -, ⟨grown, fit⟩ | ⟨fault, refused, i, mem, exceeds⟩⟩ := growToFit_cases p imports w
  · rw [run] at grown
    cases grown
    exact ⟨fun _ i mem => (fit i mem).2, fun _ => rfl⟩
  · rw [run] at refused
    cases refused
    exact ⟨nofun, fun within => absurd exceeds (within i mem)⟩

/-- Growth that succeeded has nothing left to do. -/
theorem growToFit_again (memory : p.memory < w.store.memories.size) (table : p.table < w.store.tables.size)
    (run : (growToFit p imports).run.run w = (.ok (), w')) : (growToFit p imports).run.run w' = (.ok (), w') := by
  obtain ⟨pages, slots⟩ := sizes_growToFit memory table run
  have config : w'.config = w.config := by
    obtain ⟨v, grown, ⟨ended, -⟩ | ⟨fault, refused, -⟩⟩ := growToFit_cases p imports w
    · rw [run] at ended
      cases ended
      exact grown.spares.kept.config
    · rw [run] at refused
      cases refused
  apply run_growToFit_of_le
  intro i mem
  rw [config]
  exact ⟨(foldl_max_le_iff.1 (Nat.le_of_eq pages.symm)).2 _ (List.mem_map_of_mem mem),
    (foldl_max_le_iff.1 (Nat.le_of_eq slots.symm)).2 _ (List.mem_map_of_mem mem)⟩

end Action

/-- Growth for a valid module succeeds exactly if its imports fit. Then memory and table have the largest size asked for,
in whatever order the imports stand, and growing again changes nothing. Whether it succeeds or not, what was there stays
and what is added is empty; if it fails, sizes are between what they were and the limits. -/
theorem growToFit_sizes {module : Module} {referenceTypes : Bool} {w w' : World} {p : Program} {m : Memory} {t : Table}
    {result : Except Failure Unit} (valid : module.isValid referenceTypes = true)
    (memory : w.store.memories[p.memory]? = some m) (table : w.store.tables[p.table]? = some t)
    (run : (Action.growToFit p module.imports).run.run w = (result, w')) :
    ∃ m' t', w'.store.memories[p.memory]? = some m' ∧ w'.store.tables[p.table]? = some t' ∧
      m.Enlarged m' ∧ t.Enlarged t' ∧
      (result = .ok () ↔ Fits w.config module.imports m t) ∧
      (result = .ok () →
        m'.pages = (module.imports.map (·.pages w.config.abi)).foldl max m.pages ∧
        t'.size = (module.imports.map (·.slots w.config.abi)).foldl max t.size ∧
        (Action.growToFit p module.imports).run.run w' = (.ok (), w')) ∧
      (∀ failure, result = .error failure →
        m'.pages ≤ max m.pages w.config.maxMemoryPages ∧ t'.size ≤ max t.size w.config.maxTableSize) ∧
      ∀ imports, imports.Perm module.imports → ∀ result' v,
        (Action.growToFit p imports).run.run w = (result', v) →
        (result' = .ok () ↔ result = .ok ()) ∧
        (result = .ok () → (v.memory p).pages = m'.pages ∧ (v.table p).size = t'.size) := by
  have possible := Module.possible valid w.config.abi
  obtain ⟨inMemory, -⟩ := Array.getElem?_eq_some_iff.1 memory
  obtain ⟨inTable, -⟩ := Array.getElem?_eq_some_iff.1 table
  have hm : w.memory p = m := by simp [World.memory, Store.memory, memory]
  have ht : w.table p = t := by simp [World.table, Store.table, table]
  have grown : w.Grown w' p := by
    obtain ⟨v, grown, ⟨ended, -⟩ | ⟨fault, ended, -⟩⟩ := Action.growToFit_cases p module.imports w
    · rw [run] at ended
      cases ended
      exact grown
    · rw [run] at ended
      cases ended
      exact grown
  obtain ⟨m', memory', wider⟩ := grown.spares.memory? memory
  obtain ⟨t', table', longer⟩ := grown.spares.table? table
  have hm' : w'.memory p = m' := by simp [World.memory, Store.memory, memory']
  have ht' : w'.table p = t' := by simp [World.table, Store.table, table']
  have iff := Action.growToFit_ok_iff possible run
  refine ⟨m', t', memory', table', wider.enlarged, longer.enlarged, ?_, ?_, ?_, ?_⟩
  · rw [iff, hm, ht]
  · rintro rfl
    obtain ⟨pages, slots⟩ := Action.sizes_growToFit inMemory inTable run
    rw [hm, hm'] at pages
    rw [ht, ht'] at slots
    exact ⟨pages, slots, Action.growToFit_again inMemory inTable run⟩
  · intro failure _
    have pages := grown.pages
    have slots := grown.slots
    rw [hm, hm'] at pages
    rw [ht, ht'] at slots
    have := m.room_le w.config.maxMemoryPages
    have := t.room_le w.config.maxTableSize
    have : m'.pages ≤ m'.room w.config.maxMemoryPages := Nat.le_max_left _ _
    have := t'.size_le_room w.config.maxTableSize
    omega
  · intro imports order result' v run'
    have iff' := Action.growToFit_ok_iff (fun i mem => possible i (order.mem_iff.1 mem)) run'
    have same : result' = .ok () ↔ result = .ok () := by
      rw [iff', iff]
      exact ⟨fun fits i mem => fits i (order.mem_iff.2 mem), fun fits i mem => fits i (order.mem_iff.1 mem)⟩
    refine ⟨same, ?_⟩
    rintro rfl
    obtain rfl := same.2 rfl
    obtain ⟨pages, slots⟩ := Action.sizes_growToFit inMemory inTable run
    obtain ⟨pages', slots'⟩ := Action.sizes_growToFit inMemory inTable run'
    rw [← hm', ← ht', pages, slots, pages', slots']
    exact ⟨(order.map _).foldl_eq _, (order.map _).foldl_eq _⟩

/-- A unit that imports the memory twice, with different sizes, and the table. -/
def Sample.importing : Module where
  imports := [
    { module := "env", name := "memory", type := .memory { min := 3 } },
    { module := "env", name := "__indirect_function_table", type := .table { limits := { min := 6 }, kind := .func } },
    { module := "env", name := "memory", type := .memory { min := 2 } }]

/-- A program whose memory and table are the first of the store. -/
def Sample.program : Program := { base := {}, memory := 0, table := 0, surface := {} }

/-- A world with a page and four slots, in which units may have `pages` pages. -/
def Sample.small (pages : Nat) : World where
  engine := {}
  config := { maxMemoryPages := pages }
  store := { memories := #[.zeroed 1], tables := #[.empty .func 4] }

/-- The unit gets three pages and six slots if it may have them. Where it may have two pages only, it is refused, and
memory does not grow beyond these. -/
theorem importing_needs_three_pages :
    (∃ w m t, (Action.growToFit Sample.program Sample.importing.imports).run.run (Sample.small 3) = (.ok (), w) ∧
      w.store.memories[0]? = some m ∧ w.store.tables[0]? = some t ∧ m.pages = 3 ∧ t.size = 6) ∧
    ∃ failure w m, (Action.growToFit Sample.program Sample.importing.imports).run.run (Sample.small 2) =
      (.error failure, w) ∧ w.store.memories[0]? = some m ∧ m.pages ≤ 2 := by
  have valid : Sample.importing.isValid true = true := by decide +kernel
  constructor
  · obtain ⟨⟨result, w⟩, run⟩ : ∃ ended, (Action.growToFit Sample.program Sample.importing.imports).run.run
      (Sample.small 3) = ended := ⟨_, rfl⟩
    obtain ⟨m, t, memory, table, -, -, fits, sizes, -⟩ := growToFit_sizes valid rfl rfl run
    obtain rfl := fits.2 (by decide +kernel)
    obtain ⟨pages, slots, -⟩ := sizes rfl
    exact ⟨w, m, t, run, memory, table, pages, slots⟩
  · obtain ⟨⟨result, w⟩, run⟩ : ∃ ended, (Action.growToFit Sample.program Sample.importing.imports).run.run
      (Sample.small 2) = ended := ⟨_, rfl⟩
    obtain ⟨m, t, memory, -, -, -, fits, -, failed, -⟩ := growToFit_sizes valid rfl rfl run
    cases result with
    | ok _ => exact absurd (fits.1 rfl) (by decide +kernel)
    | error failure => exact ⟨failure, w, m, run, memory, (failed failure rfl).1⟩

end UnitHost
