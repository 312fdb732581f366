import UnitHost.Proofs.Steps

/-!
# Growth for a unit

Before a unit joins the store, memory and table grow to what it imports, one import after the other. `Memory.room` and
`Table.room` say how far that can go. Growing within the room leaves the room as it was, so whether all imports are
served can be told from the sizes there are at the beginning: `growToFit_cases`. What was there stays, also if growth is
refused half way, and what is added is empty: `Memory.Widens` and `Table.Widens`.
-/

namespace UnitHost

open Wasm

namespace Memory

variable {m m' m'' : Memory} {wanted bound : Nat}

/-- The same memory with more pages, which are zeroed. -/
structure Widens (m m' : Memory) : Prop where
  pages : m.pages ≤ m'.pages
  maximum : m'.maximum = m.maximum
  cells : m'.cells = m.cells

theorem Widens.refl (m : Memory) : m.Widens m := ⟨Nat.le_refl _, rfl, rfl⟩

theorem Widens.trans (h : m.Widens m') (h' : m'.Widens m'') : m.Widens m'' :=
  ⟨Nat.le_trans h.pages h'.pages, h'.maximum.trans h.maximum, h'.cells.trans h.cells⟩

theorem Widens.byte_eq (h : m.Widens m') (address : Nat) : m'.byte address = m.byte address := by
  unfold byte
  rw [h.cells]

/-- What lies behind a memory reads as zero. -/
theorem byte_of_size_le {address : Nat} (h : m.size ≤ address) : m.byte address = 0 := by
  have absent : address ∉ m.cells := fun held => by
    have inside : address < m.size := m.cells_lt address held
    omega
  exact Cells.get_of_not_mem absent

theorem widens_grow? {delta : Nat} (h : m.grow? delta = some m') : m.Widens m' := by
  obtain ⟨-, h⟩ := Option.ite_none_right_eq_some.1 h
  cases h
  exact ⟨Nat.le_add_right _ _, rfl, rfl⟩

/-- The most pages a unit can make a memory have: it keeps what it has, and grows as far as the bound and its own limit
allow. -/
def room (m : Memory) (bound : Nat) : Nat := max m.pages (min bound m.limit)

theorem Widens.room_eq (h : m.Widens m') (within : m'.pages ≤ m.room bound) : m'.room bound = m.room bound := by
  have same : m'.limit = m.limit := by unfold limit; rw [h.maximum]
  have grown := h.pages
  unfold room at *
  rw [same]
  omega

/-- Memory grows to what is wanted exactly if there is room. -/
theorem growTo_cases (m : Memory) (wanted bound : Nat) :
    (∃ m', m.growTo wanted bound = .ok m' ∧ m.Widens m' ∧ m'.pages ≤ m.room bound ∧ wanted ≤ m'.pages ∧
        wanted ≤ m.room bound) ∨
      ∃ fault, m.growTo wanted bound = .error fault ∧ m.room bound < wanted := by
  unfold growTo room
  by_cases enough : wanted ≤ m.pages
  · rw [if_pos enough]
    exact .inl ⟨m, rfl, .refl m, Nat.le_max_left _ _, enough, Nat.le_trans enough (Nat.le_max_left _ _)⟩
  rw [if_neg enough]
  by_cases refused : bound < wanted
  · rw [if_pos refused]
    exact .inr ⟨_, rfl, by omega⟩
  rw [if_neg refused]
  cases grown : m.grow? (wanted - m.pages) with
  | some m' =>
    obtain ⟨allowed, -⟩ := Option.ite_none_right_eq_some.1 grown
    have pages := pages_grow? grown
    exact .inl ⟨m', rfl, widens_grow? grown, by omega, by omega, by omega⟩
  | none =>
    have full : ¬ m.pages + (wanted - m.pages) ≤ m.limit := fun allowed => by
      rw [grow?, if_pos allowed] at grown
      cases grown
    exact .inr ⟨_, rfl, by omega⟩

end Memory

namespace Table

variable {t t' t'' : Table} {wanted bound : Nat}

/-- The same table with more slots, which are empty. -/
structure Widens (t t' : Table) : Prop where
  size : t.size ≤ t'.size
  kind : t'.kind = t.kind
  maximum : t'.maximum = t.maximum
  slots : t'.slots = t.slots

theorem Widens.refl (t : Table) : t.Widens t := ⟨Nat.le_refl _, rfl, rfl, rfl⟩

theorem Widens.trans (h : t.Widens t') (h' : t'.Widens t'') : t.Widens t'' :=
  ⟨Nat.le_trans h.size h'.size, h'.kind.trans h.kind, h'.maximum.trans h.maximum, h'.slots.trans h.slots⟩

theorem Widens.get?_eq (h : t.Widens t') (i : Nat) : t'.get? i = t.get? i := by
  unfold get?
  rw [h.slots]

/-- There is nothing behind a table. -/
theorem get?_of_size_le {i : Nat} (h : t.size ≤ i) : t.get? i = none := by
  have absent : i ∉ t.slots := fun held => by
    have inside := t.slots_lt i held
    omega
  exact Std.TreeMap.getElem?_eq_none absent

theorem widens_grow? {delta : Nat} (h : t.grow? delta = some t') : t.Widens t' := by
  obtain ⟨-, h⟩ := Option.ite_none_right_eq_some.1 h
  cases h
  exact ⟨Nat.le_add_right _ _, rfl, rfl, rfl⟩

/-- The most slots a unit can make a table have. Only a table of functions grows. -/
def room (t : Table) (bound : Nat) : Nat :=
  if t.kind = .func then max t.size (min bound t.limit) else t.size

theorem size_le_room (t : Table) (bound : Nat) : t.size ≤ t.room bound := by
  unfold room
  split
  · exact Nat.le_max_left _ _
  · exact Nat.le_refl _

theorem Widens.room_eq (h : t.Widens t') (within : t'.size ≤ t.room bound) : t'.room bound = t.room bound := by
  have same : t'.limit = t.limit := by unfold limit; rw [h.maximum]
  have grown := h.size
  unfold room at *
  rw [same, h.kind]
  split at within
  · rename_i functions
    rw [if_pos functions, if_pos functions]
    omega
  · rename_i foreign
    rw [if_neg foreign, if_neg foreign]
    omega

/-- A table grows to what is wanted exactly if there is room. -/
theorem growTo_cases (t : Table) (wanted bound : Nat) :
    (∃ t', t.growTo wanted bound = .ok t' ∧ t.Widens t' ∧ t'.size ≤ t.room bound ∧ wanted ≤ t'.size ∧
        wanted ≤ t.room bound) ∨
      ∃ fault, t.growTo wanted bound = .error fault ∧ t.room bound < wanted := by
  unfold growTo
  by_cases enough : wanted ≤ t.size
  · rw [if_pos enough]
    exact .inl ⟨t, rfl, .refl t, t.size_le_room bound, enough, Nat.le_trans enough (t.size_le_room bound)⟩
  rw [if_neg enough]
  by_cases functions : t.kind = .func
  · unfold room
    rw [if_pos functions]
    by_cases refused : bound < wanted
    · rw [if_pos refused]
      exact .inr ⟨_, rfl, by omega⟩
    rw [if_neg refused, if_neg (not_not_intro functions)]
    cases grown : t.grow? (wanted - t.size) with
    | some t' =>
      obtain ⟨allowed, -⟩ := Option.ite_none_right_eq_some.1 grown
      have size := size_grow? grown
      exact .inl ⟨t', rfl, widens_grow? grown, by omega, by omega, by omega⟩
    | none =>
      have full : ¬ t.size + (wanted - t.size) ≤ t.limit := fun allowed => by
        rw [grow?, if_pos allowed] at grown
        cases grown
      exact .inr ⟨_, rfl, by omega⟩
  · unfold room
    rw [if_neg functions]
    split
    · exact .inr ⟨_, rfl, by omega⟩
    · exact .inr ⟨_, rfl, by omega⟩

end Table

/-! Worlds. -/

/-- The program, the pending response and the console are as before, and so is every function, memory and table, except
that memories and tables may be larger. -/
structure World.Spares (w w' : World) : Prop where
  kept : Kept w w'
  console : w'.journal.console = w.journal.console
  funcs : w'.store.funcs = w.store.funcs
  memoryCount : w'.store.memories.size = w.store.memories.size
  tableCount : w'.store.tables.size = w.store.tables.size
  memories : ∀ address, (w.store.memory address).Widens (w'.store.memory address)
  tables : ∀ address, (w.store.table address).Widens (w'.store.table address)

/-- An object that is read with a default is there if the address is in bounds. -/
theorem getElem?_of_getD {xs ys : Array α} {absent x : α} {i : Nat} (count : ys.size = xs.size)
    (found : xs[i]? = some x) : ys[i]? = some (ys[i]?.getD absent) := by
  obtain ⟨inside, -⟩ := Array.getElem?_eq_some_iff.1 found
  rw [Array.getElem?_eq_getElem (count ▸ inside)]
  rfl

namespace World

variable {w w' w'' : World}

theorem Spares.refl (w : World) : w.Spares w :=
  ⟨.refl w, rfl, rfl, rfl, rfl, fun _ => .refl _, fun _ => .refl _⟩

theorem Spares.trans (h : w.Spares w') (h' : w'.Spares w'') : w.Spares w'' where
  kept := h.kept.trans h'.kept
  console := h'.console.trans h.console
  funcs := h'.funcs.trans h.funcs
  memoryCount := h'.memoryCount.trans h.memoryCount
  tableCount := h'.tableCount.trans h.tableCount
  memories a := (h.memories a).trans (h'.memories a)
  tables a := (h.tables a).trans (h'.tables a)

theorem Spares.memory? (h : w.Spares w') {address : Nat} {m : Memory} (found : w.store.memories[address]? = some m) :
    ∃ m', w'.store.memories[address]? = some m' ∧ m.Widens m' := by
  have widens := h.memories address
  unfold Store.memory at widens
  rw [found] at widens
  exact ⟨_, getElem?_of_getD h.memoryCount found, widens⟩

theorem Spares.table? (h : w.Spares w') {address : Nat} {t : Table} (found : w.store.tables[address]? = some t) :
    ∃ t', w'.store.tables[address]? = some t' ∧ t.Widens t' := by
  have widens := h.tables address
  unfold Store.table at widens
  rw [found] at widens
  exact ⟨_, getElem?_of_getD h.tableCount found, widens⟩

end World

namespace Store

variable {s : Store} {address : Nat}

theorem widens_setMemory {m : Memory} (h : (s.memory address).Widens m) (other : Nat) :
    (s.memory other).Widens ((s.setMemory address m).memory other) :=
  rel_getD_setIfInBounds Memory.Widens.refl h other

theorem widens_setTable {t : Table} (h : (s.table address).Widens t) (other : Nat) :
    (s.table other).Widens ((s.setTable address t).table other) :=
  rel_getD_setIfInBounds Table.Widens.refl h other

end Store

/-! Imports. -/

/-- An import asks for more of the shared memory or table than there is room for. -/
def Wasm.Import.Exceeds (i : Import) (config : Config) (m : Memory) (t : Table) : Prop :=
  i.module = config.abi.systemModule ∧
    match i.type with
    | .memory limits => i.name = config.abi.importMemory ∧ m.room config.maxMemoryPages < limits.min
    | .table type => i.name = config.abi.importTable ∧ t.room config.maxTableSize < type.limits.min
    | _ => False

/-- Memory and table have what an import asks for. -/
def Wasm.Import.Sized (i : Import) (abi : Abi) (pages slots : Nat) : Prop :=
  i.module = abi.systemModule →
    match i.type with
    | .memory limits => i.name = abi.importMemory → limits.min ≤ pages
    | .table type => i.name = abi.importTable → type.limits.min ≤ slots
    | _ => True

/-- Memory and table after growth for an import, within the room there was. -/
structure GrownFor (config : Config) (i : Import) (m m' : Memory) (t t' : Table) : Prop where
  memory : m.Widens m'
  pages : m'.pages ≤ m.room config.maxMemoryPages
  table : t.Widens t'
  slots : t'.size ≤ t.room config.maxTableSize
  sized : i.Sized config.abi m'.pages t'.size

theorem GrownFor.refl {config : Config} {i : Import} {m : Memory} {t : Table} (sized : i.Sized config.abi m.pages t.size) :
    GrownFor config i m m t t :=
  ⟨.refl m, Nat.le_max_left _ _, .refl t, t.size_le_room _, sized⟩

/-- One import is served exactly if it does not exceed the room. -/
theorem growFor_cases (config : Config) (i : Import) (m : Memory) (t : Table) :
    (∃ m' t', growFor config.abi config i m t = .ok (m', t') ∧ GrownFor config i m m' t t' ∧ ¬ i.Exceeds config m t) ∨
      ∃ fault, growFor config.abi config i m t = .error fault ∧ i.Exceeds config m t := by
  -- Anything but the shared memory and the shared table is none of growth's business.
  have other (unchanged : growFor config.abi config i m t = .ok (m, t)) (sized : i.Sized config.abi m.pages t.size)
      (within : ¬ i.Exceeds config m t) :
      (∃ m' t', growFor config.abi config i m t = .ok (m', t') ∧ GrownFor config i m m' t t' ∧ ¬ i.Exceeds config m t) ∨
        ∃ fault, growFor config.abi config i m t = .error fault ∧ i.Exceeds config m t :=
    .inl ⟨m, t, unchanged, .refl sized, within⟩
  by_cases system : i.module = config.abi.systemModule
  · cases type : i.type with
    | memory limits =>
      by_cases name : i.name = config.abi.importMemory
      · have grows : growFor config.abi config i m t =
            (fun m' => (m', t)) <$> m.growTo limits.min config.maxMemoryPages := by simp [growFor, system, type, name]
        have exceeds : i.Exceeds config m t ↔ m.room config.maxMemoryPages < limits.min := by
          simp [Import.Exceeds, system, type, name]
        rw [grows, exceeds]
        rcases m.growTo_cases limits.min config.maxMemoryPages with
          ⟨m', grown, widens, pages, enough, fits⟩ | ⟨fault, full, more⟩
        · have sized : i.Sized config.abi m'.pages t.size := by simp [Import.Sized, type, enough]
          rw [grown]
          exact .inl ⟨m', t, rfl, ⟨widens, pages, .refl t, t.size_le_room _, sized⟩, Nat.not_lt.2 fits⟩
        · rw [full]
          exact .inr ⟨fault, rfl, more⟩
      · exact other (by simp [growFor, system, type, name]) (by simp [Import.Sized, type, name])
          (by simp [Import.Exceeds, type, name])
    | table wanted =>
      by_cases name : i.name = config.abi.importTable
      · have grows : growFor config.abi config i m t =
            (fun t' => (m, t')) <$> t.growTo wanted.limits.min config.maxTableSize := by
          simp [growFor, system, type, name]
        have exceeds : i.Exceeds config m t ↔ t.room config.maxTableSize < wanted.limits.min := by
          simp [Import.Exceeds, system, type, name]
        rw [grows, exceeds]
        rcases t.growTo_cases wanted.limits.min config.maxTableSize with
          ⟨t', grown, widens, size, enough, fits⟩ | ⟨fault, full, more⟩
        · have sized : i.Sized config.abi m.pages t'.size := by simp [Import.Sized, type, enough]
          rw [grown]
          exact .inl ⟨m, t', rfl, ⟨.refl m, Nat.le_max_left _ _, widens, size, sized⟩, Nat.not_lt.2 fits⟩
        · rw [full]
          exact .inr ⟨fault, rfl, more⟩
      · exact other (by simp [growFor, system, type, name]) (by simp [Import.Sized, type, name])
          (by simp [Import.Exceeds, type, name])
    | func _ => exact other (by simp [growFor, type]) (by simp [Import.Sized, type]) (by simp [Import.Exceeds, type])
    | global _ => exact other (by simp [growFor, type]) (by simp [Import.Sized, type]) (by simp [Import.Exceeds, type])
  · exact other (by simp [growFor, system]) (by simp [Import.Sized, system]) (by simp [Import.Exceeds, system])

/-- An object that is replaced is the new one, if it was there. -/
theorem getD_setIfInBounds {xs : Array α} {absent x : α} {i : Nat} (inside : i < xs.size) :
    (xs.setIfInBounds i x)[i]?.getD absent = x := by
  simp [inside]

namespace World

variable {w w' : World} {p : Program} {i : Import}

/-- An import exceeds the room of the shared memory or table. -/
def Refuses (w : World) (p : Program) (i : Import) : Prop := i.Exceeds w.config (w.memory p) (w.table p)

/-- The shared memory and table, where they exist, have what an import asks for. -/
def Sized (w : World) (p : Program) (i : Import) : Prop :=
  ∃ pages slots, i.Sized w.config.abi pages slots ∧
    (p.memory < w.store.memories.size → pages ≤ (w.memory p).pages) ∧
    (p.table < w.store.tables.size → slots ≤ (w.table p).size)

theorem Spares.sized (h : w.Spares w') (sized : w.Sized p i) : w'.Sized p i := by
  obtain ⟨pages, slots, sized, memory, table⟩ := sized
  refine ⟨pages, slots, by rw [h.kept.config]; exact sized, fun inside => ?_, fun inside => ?_⟩
  · exact Nat.le_trans (memory (h.memoryCount ▸ inside)) (h.memories p.memory).pages
  · exact Nat.le_trans (table (h.tableCount ▸ inside)) (h.tables p.table).size

/-- What growth for a unit leaves: nothing is lost, no global is added, and the same imports are refused. -/
structure Grown (w w' : World) (p : Program) : Prop where
  spares : w.Spares w'
  globals : w'.store.globals = w.store.globals
  pages : (w'.memory p).room w.config.maxMemoryPages = (w.memory p).room w.config.maxMemoryPages
  slots : (w'.table p).room w.config.maxTableSize = (w.table p).room w.config.maxTableSize

theorem Grown.refl (w : World) (p : Program) : w.Grown w p := ⟨.refl w, rfl, rfl, rfl⟩

theorem Grown.trans {w'' : World} (h : w.Grown w' p) (h' : w'.Grown w'' p) : w.Grown w'' p := by
  have pages := h'.pages
  have slots := h'.slots
  rw [h.spares.kept.config] at pages slots
  exact ⟨h.spares.trans h'.spares, h'.globals.trans h.globals, pages.trans h.pages, slots.trans h.slots⟩

theorem Grown.refuses_iff (h : w.Grown w' p) (i : Import) : w'.Refuses p i ↔ w.Refuses p i := by
  unfold Refuses Import.Exceeds
  rw [h.spares.kept.config, h.pages, h.slots]

theorem grown_enlargeMemory {m : Memory} (h : (w.memory p).Widens m)
    (within : m.pages ≤ (w.memory p).room w.config.maxMemoryPages) : w.Grown (w.enlargeMemory p m) p := by
  unfold enlargeMemory
  by_cases more : (w.memory p).pages < m.pages
  · rw [if_pos more]
    exact {
      spares :=
        ⟨⟨rfl, rfl, rfl, rfl⟩, rfl, rfl, Array.size_setIfInBounds, rfl, Store.widens_setMemory h, fun _ => .refl _⟩
      globals := rfl
      pages := rel_getD_setIfInBounds
        (R := fun m m' : Memory => m'.room w.config.maxMemoryPages = m.room w.config.maxMemoryPages)
        (fun _ => rfl) (h.room_eq within) p.memory
      slots := rfl }
  · rw [if_neg more]
    exact .refl w p

theorem grown_enlargeTable {t : Table} (h : (w.table p).Widens t)
    (within : t.size ≤ (w.table p).room w.config.maxTableSize) : w.Grown (w.enlargeTable p t) p := by
  unfold enlargeTable
  by_cases more : (w.table p).size < t.size
  · rw [if_pos more]
    exact {
      spares :=
        ⟨⟨rfl, rfl, rfl, rfl⟩, rfl, rfl, rfl, Array.size_setIfInBounds, fun _ => .refl _, Store.widens_setTable h⟩
      globals := rfl
      pages := rfl
      slots := rel_getD_setIfInBounds
        (R := fun t t' : Table => t'.room w.config.maxTableSize = t.room w.config.maxTableSize)
        (fun _ => rfl) (h.room_eq within) p.table }
  · rw [if_neg more]
    exact .refl w p

/-- A memory is written back only if it has grown, and otherwise it has the pages it is to have. -/
theorem pages_enlargeMemory {m : Memory} (inside : p.memory < w.store.memories.size) :
    ((w.enlargeMemory p m).memory p).pages = max (w.memory p).pages m.pages := by
  unfold enlargeMemory
  by_cases more : (w.memory p).pages < m.pages
  · rw [if_pos more, Nat.max_eq_right (Nat.le_of_lt more)]
    exact congrArg Memory.pages (getD_setIfInBounds inside)
  · rw [if_neg more, Nat.max_eq_left (Nat.not_lt.1 more)]

theorem size_enlargeTable {t : Table} (inside : p.table < w.store.tables.size) :
    ((w.enlargeTable p t).table p).size = max (w.table p).size t.size := by
  unfold enlargeTable
  by_cases more : (w.table p).size < t.size
  · rw [if_pos more, Nat.max_eq_right (Nat.le_of_lt more)]
    exact congrArg Table.size (getD_setIfInBounds inside)
  · rw [if_neg more, Nat.max_eq_left (Nat.not_lt.1 more)]

end World

namespace Action

variable {w : World} {p : Program}

/-- Growth for one import: it is served, or refused before anything changes. -/
theorem growForImport_cases (p : Program) (i : Import) (w : World) :
    (∃ w', (growForImport p i).run.run w = (.ok (), w') ∧ w.Grown w' p ∧ w'.Sized p i ∧ ¬ w.Refuses p i) ∨
      ∃ fault, (growForImport p i).run.run w = (.error (.resourceLimit fault), w) ∧ w.Refuses p i := by
  rw [run_growForImport]
  rcases growFor_cases w.config i (w.memory p) (w.table p) with ⟨m, t, grown, within, allowed⟩ | ⟨fault, full, refused⟩
  · rw [grown]
    have larger := World.grown_enlargeMemory within.memory within.pages
    have table := w.table_enlargeMemory p m
    have wider : (w.enlargeMemory p m).Grown ((w.enlargeMemory p m).enlargeTable p t) p := by
      apply World.grown_enlargeTable
      · rw [table]
        exact within.table
      · rw [table, larger.spares.kept.config]
        exact within.slots
    have whole := larger.trans wider
    refine .inl ⟨_, rfl, whole, ⟨m.pages, t.size, ?_, fun inside => ?_, fun inside => ?_⟩, allowed⟩
    · rw [whole.spares.kept.config]
      exact within.sized
    · rw [World.memory_enlargeTable, World.pages_enlargeMemory (whole.spares.memoryCount ▸ inside)]
      exact Nat.le_max_right _ _
    · rw [World.size_enlargeTable (wider.spares.tableCount ▸ inside)]
      exact Nat.le_max_right _ _
  · rw [full]
    exact .inr ⟨fault, rfl, refused⟩

/-- Growth for a module succeeds exactly if none of its imports exceeds the room there is at the beginning. It takes
nothing away, also if it stops at a later import. -/
theorem growToFit_cases (p : Program) (imports : List Import) (w : World) :
    ∃ w', w.Grown w' p ∧
      ((growToFit p imports).run.run w = (.ok (), w') ∧ (∀ i ∈ imports, w'.Sized p i ∧ ¬ w.Refuses p i) ∨
        ∃ fault, (growToFit p imports).run.run w = (.error (.resourceLimit fault), w') ∧ ∃ i ∈ imports, w.Refuses p i) := by
  induction imports generalizing w with
  | nil => exact ⟨w, .refl w p, .inl ⟨rfl, by simp⟩⟩
  | cons i rest ih =>
    have begins : growToFit p (i :: rest) = (growForImport p i >>= fun _ => growToFit p rest) := rfl
    rw [begins, run_bind]
    rcases growForImport_cases p i w with ⟨v, served, first, sized, allowed⟩ | ⟨fault, refused, exceeds⟩
    · rw [served]
      obtain ⟨w', later, ⟨grown, fit⟩ | ⟨fault, refused, j, mem, exceeds⟩⟩ := ih v
      · refine ⟨w', first.trans later, .inl ⟨grown, fun j mem => ?_⟩⟩
        rcases List.mem_cons.1 mem with rfl | mem
        · exact ⟨later.spares.sized sized, allowed⟩
        · exact ⟨(fit j mem).1, fun exceeds => (fit j mem).2 ((first.refuses_iff j).2 exceeds)⟩
      · exact ⟨w', first.trans later,
          .inr ⟨fault, refused, j, List.mem_cons_of_mem i mem, (first.refuses_iff j).1 exceeds⟩⟩
    · rw [refused]
      exact ⟨w, .refl w p, .inr ⟨fault, rfl, i, List.mem_cons_self, exceeds⟩⟩

end Action

end UnitHost
