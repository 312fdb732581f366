import UnitHost.Proofs.Growth

/-!
# Instances

What an instance refers to. Its index spaces begin with the objects it imports and go on with its own; its exports are
read off them. Each index of the module has an object in the store that the instance has joined, and a global has the
type that the module gives it: `Instance.Typed`.
-/

namespace UnitHost

open Wasm

/-- The kind of object that an import asks for. -/
def Wasm.ExternType.kind : ExternType → ObjectKind
  | .func _ => .func
  | .memory _ => .memory
  | .table _ => .table
  | .global _ => .global

/-- The kind of an object. -/
def Extern.kind : Extern → ObjectKind
  | .func _ => .func
  | .memory _ => .memory
  | .table _ => .table
  | .global _ => .global

/-- The object of a kind at an index. -/
def Instance.object? (i : Instance) (kind : ObjectKind) (index : Nat) : Option Extern :=
  match kind with
  | .func => i.funcs[index]?.map .func
  | .memory => i.memories[index]?.map .memory
  | .table => i.tables[index]?.map .table
  | .global => i.globals[index]?.map .global

theorem Instance.kind_of_object? {i : Instance} {kind : ObjectKind} {index : Nat} {object : Extern}
    (h : i.object? kind index = some object) : object.kind = kind := by
  cases kind <;> obtain ⟨_, -, rfl⟩ := Option.map_eq_some_iff.1 h <;> rfl

/-- Every index of a module has an object. Memories, tables and globals are in the store, globals with their types. -/
structure Instance.Typed (owner : Instance) (m : Module) (s : Store) : Prop where
  funcs : List.Forall₂ (fun _ _ => True) m.funcTypes owner.funcs
  memories : List.Forall₂ (fun _ address => address < s.memories.size) m.memoryTypes owner.memories
  tables : List.Forall₂ (fun _ address => address < s.tables.size) m.tableTypes owner.tables
  globals : List.Forall₂ (fun type address => s.globals[address]?.map (·.type) = some type) m.globalTypes owner.globals

namespace Store

variable {s s' : Store} {d : Definitions} {m : Module} {owner : Instance} {objects : List Extern}

theorem kind_of_fits {object : Extern} {type : ExternType} (h : s.fits object type = true) :
    object.kind = type.kind := by
  cases object <;> cases type <;> first | rfl | cases h

/-- An instance exports what its module names, under the module's names and in the module's order. -/
theorem exports_allocate (s : Store) (m : Module) (objects : List Extern) :
    (s.allocate m objects).1.exports =
      m.exports.filterMap fun e => ((s.allocate m objects).1.object? e.kind e.index).map (e.name, ·) := rfl

/-- A module that has joined the store was allocated with what its imports resolve to, and all its segments fit. -/
theorem instantiate_ok (joined : s.instantiate d m = (.ok owner, s')) :
    ∃ objects, d.resolve s m.imports = .ok objects ∧ owner = (s.allocate m objects).1 ∧
      (s.allocate m objects).2.writeSegments m owner = (.ok (), s') := by
  unfold instantiate at joined
  split at joined
  · cases joined
  · rename_i objects resolved
    dsimp only at joined
    split at joined
    · rename_i written
      cases joined
      exact ⟨objects, resolved, rfl, written⟩
    · cases joined

/-- Objects are the same in number, and functions and globals are the same. -/
structure SameObjects (s s' : Store) : Prop where
  funcs : s'.funcs = s.funcs
  globals : s'.globals = s.globals
  memories : s'.memories.size = s.memories.size
  tables : s'.tables.size = s.tables.size

instance : IsPreorder Store SameObjects where
  refl _ := ⟨rfl, rfl, rfl, rfl⟩
  trans _ _ _ h h' := ⟨h'.funcs.trans h.funcs, h'.globals.trans h.globals, h'.memories.trans h.memories,
    h'.tables.trans h.tables⟩

theorem sameObjects_setMemory (s : Store) (address : Nat) (m : Memory) : s.SameObjects (s.setMemory address m) :=
  ⟨rfl, rfl, Array.size_setIfInBounds, rfl⟩

theorem sameObjects_setTable (s : Store) (address : Nat) (t : Table) : s.SameObjects (s.setTable address t) :=
  ⟨rfl, rfl, rfl, Array.size_setIfInBounds⟩

/-- Segments change what is in memories and tables, no more. -/
theorem sameObjects_writeSegments (s : Store) (m : Module) (owner : Instance) :
    s.SameObjects (s.writeSegments m owner).2 :=
  rel_writeSegments (fun s address m _ => s.sameObjects_setMemory address m)
    (fun s address t _ => s.sameObjects_setTable address t) s m owner

section Spaces

variable {P : α → β → Prop}

/-- The objects of one index space, the imported ones before the module's own. -/
theorem forall₂_space {imports : List Import} {declared : Import → Option α} {found : Extern → Option β}
    {own : List α} {new : List β}
    (select : ∀ i object, s.fits object i.type = true → Option.Rel P (declared i) (found object))
    (bound : List.Forall₂ (fun i object => s.fits object i.type = true) imports objects) (fresh : List.Forall₂ P own new) :
    List.Forall₂ P (imports.filterMap declared ++ own) (objects.filterMap found ++ new) :=
  List.rel_append (List.rel_filterMap (fun i object fits => select i object fits) bound) fresh

/-- New objects come behind those that are there, in order. -/
theorem forall₂_range' {own : List α} {start : Nat} {P : α → Nat → Prop}
    (each : ∀ i (inside : i < own.length), P own[i] (start + i)) : List.Forall₂ P own (List.range' start own.length) := by
  refine List.forall₂_iff_get.2 ⟨List.length_range'.symm, fun i inside _ => ?_⟩
  simpa using each i inside

end Spaces

theorem lt_of_any {xs : Array α} {i : Nat} {p : α → Bool} (h : xs[i]?.any p = true) : i < xs.size := by
  cases found : xs[i]? with
  | none => rw [found] at h; cases h
  | some x => exact (Array.getElem?_eq_some_iff.1 found).1

/-- An object that fits is of the kind asked for. Memories, tables and globals are there, globals with the type. -/
theorem fits_cases {object : Extern} {type : ExternType} (h : s.fits object type = true) :
    (∃ callee t, object = .func callee ∧ type = .func t) ∨
      (∃ a t, object = .memory a ∧ type = .memory t ∧ a < s.memories.size) ∨
      (∃ a t, object = .table a ∧ type = .table t ∧ a < s.tables.size) ∨
      ∃ a t, object = .global a ∧ type = .global t ∧ s.globals[a]?.map (·.type) = some t := by
  cases object with
  | func callee =>
    cases type with
    | func t => exact .inl ⟨callee, t, rfl, rfl⟩
    | _ => cases h
  | memory a =>
    cases type with
    | memory t => exact .inr (.inl ⟨a, t, rfl, rfl, lt_of_any h⟩)
    | _ => cases h
  | table a =>
    cases type with
    | table t => exact .inr (.inr (.inl ⟨a, t, rfl, rfl, lt_of_any h⟩))
    | _ => cases h
  | global a =>
    cases type with
    | global t =>
      refine .inr (.inr (.inr ⟨a, t, rfl, rfl, ?_⟩))
      simpa [fits, Option.any_eq_true] using h
    | _ => cases h

/-- An instance is typed in the store it is allocated in, before its segments are written. -/
theorem typed_allocate (bound : List.Forall₂ (fun i object => s.fits object i.type = true) m.imports objects) :
    (s.allocate m objects).1.Typed m (s.allocate m objects).2 where
  funcs := by
    refine forall₂_space ?_ bound ?_
    · intro i object fits
      rcases fits_cases fits with ⟨callee, t, rfl, type⟩ | ⟨a, t, rfl, type, -⟩ | ⟨a, t, rfl, type, -⟩ | ⟨a, t, rfl, type, -⟩
      · simp only [type]
        exact .some trivial
      all_goals
        simp only [type]
        exact .none
    · exact List.forall₂_iff_get.2 ⟨by simp, fun _ _ _ => trivial⟩
  memories := by
    refine forall₂_space ?_ bound (forall₂_range' ?_)
    · intro i object fits
      rcases fits_cases fits with ⟨callee, t, rfl, type⟩ | ⟨a, t, rfl, type, there⟩ | ⟨a, t, rfl, type, -⟩ | ⟨a, t, rfl, type, -⟩
      · simp only [type]
        exact .none
      · simp only [type]
        refine .some ?_
        simp only [allocate, Array.size_append]
        omega
      all_goals
        simp only [type]
        exact .none
    · intro i inside
      simp only [allocate, Array.size_append, List.size_toArray, List.length_map]
      omega
  tables := by
    refine forall₂_space ?_ bound (forall₂_range' ?_)
    · intro i object fits
      rcases fits_cases fits with ⟨callee, t, rfl, type⟩ | ⟨a, t, rfl, type, -⟩ | ⟨a, t, rfl, type, there⟩ | ⟨a, t, rfl, type, -⟩
      rotate_left 2
      · simp only [type]
        refine .some ?_
        simp only [allocate, Array.size_append]
        omega
      all_goals
        simp only [type]
        exact .none
    · intro i inside
      simp only [allocate, Array.size_append, List.size_toArray, List.length_map]
      omega
  globals := by
    refine forall₂_space ?_ bound ?_
    · intro i object fits
      rcases fits_cases fits with ⟨callee, t, rfl, type⟩ | ⟨a, t, rfl, type, -⟩ | ⟨a, t, rfl, type, -⟩ | ⟨a, t, rfl, type, typed⟩
      rotate_left 3
      · simp only [type]
        refine .some ?_
        obtain ⟨g, found, rfl⟩ := Option.map_eq_some_iff.1 typed
        simp only [allocate]
        rw [Array.getElem?_append_left (Array.getElem?_eq_some_iff.1 found).1, found]
        rfl
      all_goals
        simp only [type]
        exact .none
    · have count : (m.globals.map (·.1)).length = m.globals.length := List.length_map _
      rw [← count]
      refine forall₂_range' ?_
      intro i inside
      rw [count] at inside
      simp only [allocate]
      rw [Array.getElem?_append_right (by omega)]
      simp [inside]

theorem typed_of_instantiate (joined : s.instantiate d m = (.ok owner, s')) : owner.Typed m s' := by
  obtain ⟨objects, resolved, rfl, written⟩ := instantiate_ok joined
  have typed := typed_allocate ((Definitions.resolve_ok resolved).imp fun _ _ found => found.2)
  have same := (s.allocate m objects).2.sameObjects_writeSegments m (s.allocate m objects).1
  rw [written] at same
  exact ⟨typed.funcs, same.memories ▸ typed.memories, same.tables ▸ typed.tables, same.globals ▸ typed.globals⟩

/-- What an instance exports is one of its objects. -/
theorem object?_of_export? (joined : s.instantiate d m = (.ok owner, s')) {name : String} {object : Extern}
    (exported : owner.export? name = some object) :
    ∃ e ∈ m.exports, e.name = name ∧ owner.object? e.kind e.index = some object := by
  obtain ⟨objects, -, rfl, -⟩ := instantiate_ok joined
  unfold Instance.export? at exported
  rw [exports_allocate] at exported
  obtain ⟨front, back, split, -⟩ := List.lookup_eq_some_iff.1 exported
  have mem : (name, object) ∈ front ++ (name, object) :: back := List.mem_append_right _ List.mem_cons_self
  rw [← split] at mem
  obtain ⟨e, listed, found⟩ := List.mem_filterMap.1 mem
  obtain ⟨object', found, same⟩ := Option.map_eq_some_iff.1 found
  cases same
  exact ⟨e, listed, rfl, found⟩

end Store

end UnitHost
