import Mathlib.Data.List.Induction
import Mathlib.Data.List.Nodup
import UnitHost.Proofs.Lives

/-!
# What the symbol table holds

Links end in another order than they begin, and some append a unit without publishing it. Still the
symbol table is at every moment a function of the base and the list of units: publish the base, then
each functional unit in the order of the list. `Defines` says the same of a single name: the latest
functional unit that exports it, else the base. Both rest on exports having distinct names, which a
valid module has.
-/

namespace UnitHost

open Wasm

/-! Exports of a valid module. -/

namespace Wasm.Module

theorem nodup_of_distinctNames {exports : List Export} (h : distinctNames exports = true) :
    (exports.map (·.name)).Nodup := by
  induction exports with
  | nil => exact List.nodup_nil
  | cons e rest ih =>
    simp only [distinctNames, Bool.and_eq_true, Bool.not_eq_true', List.any_eq_false, beq_iff_eq] at h
    rw [List.map_cons, List.nodup_cons]
    refine ⟨fun mem => ?_, ih h.2⟩
    obtain ⟨other, found, same⟩ := List.mem_map.1 mem
    exact h.1 other found same

theorem distinctNames_of_isValid {m : Module} {referenceTypes : Bool}
    (valid : m.isValid referenceTypes = true) : distinctNames m.exports = true := by
  simp only [isValid, Bool.and_eq_true] at valid
  simp [valid]

end Wasm.Module

/-- No name is exported twice. -/
def Instance.Distinct (i : Instance) : Prop := (i.symbols.map (·.1)).Nodup

/-- An instance exports what its module does, under the same names. -/
theorem Store.allocate_names (s : Store) (m : Module) (imports : List Extern) :
    ((s.allocate m imports).1.exports.map (·.1)).Sublist (m.exports.map (·.name)) := by
  unfold allocate
  dsimp only
  generalize m.exports = exports
  induction exports with
  | nil => exact .slnil
  | cons e rest ih =>
    rw [List.filterMap_cons, List.map_cons]
    split
    · exact ih.cons _
    · rename_i named
      obtain ⟨object, -, rfl⟩ := Option.map_eq_some_iff.1 named
      exact ih.cons_cons _

theorem Instance.distinct_of_instantiate {s s' : Store} {d : Definitions} {m : Module} {owner : Instance}
    {referenceTypes : Bool} (valid : m.isValid referenceTypes = true)
    (joined : s.instantiate d m = (.ok owner, s')) : owner.Distinct := by
  have nodup := Module.nodup_of_distinctNames (Module.distinctNames_of_isValid valid)
  unfold Store.instantiate at joined
  split at joined
  · cases joined
  · rename_i imports _
    dsimp only at joined
    split at joined
    · cases joined
      have names := (s.allocate_names m imports).nodup nodup
      exact (List.filter_sublist.map _).nodup names
    · cases joined

/-! Publishing. -/

namespace Symbols

variable {abi : Abi} {name other : String} {object : Extern}

theorem lookup_insertEntry (entries : List (String × Extern)) :
    (insertEntry name object entries).lookup other =
      if other = name then some object else entries.lookup other := by
  induction entries with
  | nil =>
    by_cases h : other = name
    · simp [insertEntry, h]
    · simp [insertEntry, List.lookup_cons, beq_false_of_ne h, h]
  | cons entry rest ih =>
    obtain ⟨key, old⟩ := entry
    by_cases hk : key = name
    · have replaced : insertEntry name object ((key, old) :: rest) = (name, object) :: rest := by
        simp [insertEntry, hk]
      by_cases h : other = name
      · simp [replaced, h]
      · subst hk
        simp [replaced, List.lookup_cons, beq_false_of_ne h, h]
    · have kept : insertEntry name object ((key, old) :: rest) =
          (key, old) :: insertEntry name object rest := by simp [insertEntry, hk]
      by_cases h : other = key
      · simp [kept, h, hk]
      · simp [kept, List.lookup_cons, beq_false_of_ne h, ih]

theorem find?_insert (s : Symbols) :
    (s.insert name object).find? other = if other = name then some object else s.find? other :=
  lookup_insertEntry s.entries

theorem publish_cons (s : Symbols) (rest : List (String × Extern)) :
    s.publish abi ((name, object) :: rest) =
      (if abi.isReserved name then s else s.insert name object).publish abi rest := rfl

/-- Publishing never touches a reserved name. -/
theorem find?_publish_of_reserved (reserved : abi.isReserved other = true) (s : Symbols)
    (exports : List (String × Extern)) : (s.publish abi exports).find? other = s.find? other := by
  induction exports generalizing s with
  | nil => rfl
  | cons e rest ih =>
    obtain ⟨name, object⟩ := e
    rw [publish_cons, ih]
    by_cases h : abi.isReserved name = true
    · rw [if_pos h]
    · have ne : other ≠ name := fun same => h (same ▸ reserved)
      rw [if_neg h, find?_insert, if_neg ne]

/-- Publishing leaves a name that is not exported as it was. -/
theorem find?_publish_of_not_mem {exports : List (String × Extern)} (absent : other ∉ exports.map (·.1))
    (s : Symbols) : (s.publish abi exports).find? other = s.find? other := by
  induction exports generalizing s with
  | nil => rfl
  | cons e rest ih =>
    obtain ⟨name, object⟩ := e
    rw [List.map_cons, List.mem_cons, not_or] at absent
    rw [publish_cons, ih absent.2]
    by_cases h : abi.isReserved name = true
    · rw [if_pos h]
    · rw [if_neg h, find?_insert, if_neg absent.1]

/-- Publishing binds each exported name that is not reserved. -/
theorem find?_publish_of_mem {exports : List (String × Extern)} (distinct : (exports.map (·.1)).Nodup)
    (mem : (name, object) ∈ exports) (free : abi.isReserved name = false) (s : Symbols) :
    (s.publish abi exports).find? name = some object := by
  induction exports generalizing s with
  | nil => cases mem
  | cons e rest ih =>
    rw [List.map_cons, List.nodup_cons] at distinct
    rcases List.mem_cons.1 mem with rfl | later
    · rw [publish_cons, free, find?_publish_of_not_mem distinct.1]
      simp [find?_insert]
    · rw [publish_cons]
      exact ih distinct.2 later _

/-- What a name stands for once distinct exports were published. -/
theorem find?_publish_iff {exports : List (String × Extern)} (distinct : (exports.map (·.1)).Nodup)
    (free : abi.isReserved name = false) (s : Symbols) :
    (s.publish abi exports).find? name = some object ↔
      (name, object) ∈ exports ∨ name ∉ exports.map (·.1) ∧ s.find? name = some object := by
  by_cases exported : name ∈ exports.map (·.1)
  · obtain ⟨⟨_, found⟩, mem, rfl⟩ := List.mem_map.1 exported
    rw [find?_publish_of_mem distinct mem free]
    constructor
    · intro h; cases h; exact .inl mem
    · rintro (h | ⟨absent, -⟩)
      · have again := find?_publish_of_mem distinct h free s
        rw [find?_publish_of_mem distinct mem free] at again
        exact again
      · exact absurd exported absent
  · rw [find?_publish_of_not_mem exported]
    constructor
    · exact fun h => .inr ⟨exported, h⟩
    · rintro (h | ⟨-, h⟩)
      · exact absurd (List.mem_map.2 ⟨_, h, rfl⟩) exported
      · exact h

end Symbols

/-! The program's symbols. -/

/-- The current definition of a name: that of the latest functional unit exporting it, else that of
the base if it exports it. -/
inductive Defines (base : Instance) (units : List LinkedUnit) (name : String) (object : Extern) : Prop where
  | unit (earlier later : List LinkedUnit) (u : LinkedUnit) (split : units = earlier ++ u :: later)
      (functional : u.isFunctional = true) (exported : (name, object) ∈ u.owner.symbols)
      (latest : ∀ v ∈ later, v.isFunctional = true → name ∉ v.exportNames)
  | base (exported : (name, object) ∈ base.symbols)
      (only : ∀ v ∈ units, v.isFunctional = true → name ∉ v.exportNames)

section Defines

variable {base : Instance} {units : List LinkedUnit} {u : LinkedUnit} {name : String} {object : Extern}

theorem Defines.concat (h : Defines base units name object)
    (absent : u.isFunctional = true → name ∉ u.exportNames) : Defines base (units ++ [u]) name object := by
  cases h with
  | unit earlier later v split functional exported latest =>
    refine .unit earlier (later ++ [u]) v (by simp [split]) functional exported fun w mem => ?_
    rcases List.mem_append.1 mem with old | new
    · exact latest w old
    · rw [List.mem_singleton.1 new]; exact absent
  | base exported only =>
    refine .base exported fun w mem => ?_
    rcases List.mem_append.1 mem with old | new
    · exact only w old
    · rw [List.mem_singleton.1 new]; exact absent

/-- One more unit at the end takes over the names it exports, if it is functional. -/
theorem defines_concat_iff : Defines base (units ++ [u]) name object ↔
    u.isFunctional = true ∧ (name, object) ∈ u.owner.symbols ∨
      (u.isFunctional = true → name ∉ u.exportNames) ∧ Defines base units name object := by
  constructor
  · intro h
    cases h with
    | unit earlier later v split functional exported latest =>
      rcases List.eq_nil_or_concat later with rfl | ⟨later, w, rfl⟩
      · obtain ⟨rfl, same⟩ := List.append_inj' split rfl
        cases same
        exact .inl ⟨functional, exported⟩
      · rw [List.concat_eq_append, ← List.cons_append, ← List.append_assoc] at split
        obtain ⟨rfl, same⟩ := List.append_inj' split rfl
        cases same
        exact .inr ⟨latest u (by simp), .unit earlier later v rfl functional exported
          fun w mem => latest w (by simp [mem])⟩
    | base exported only =>
      exact .inr ⟨only u (by simp), .base exported fun v mem => only v (by simp [mem])⟩
  · rintro (⟨functional, exported⟩ | ⟨absent, h⟩)
    · exact .unit units [] u rfl functional exported (by simp)
    · exact h.concat absent

end Defines

/-- Publishes the exports of each functional unit, in order. -/
def Symbols.publishUnits (s : Symbols) (abi : Abi) (units : List LinkedUnit) : Symbols :=
  (units.filter (·.isFunctional)).foldl (fun s u => s.publish abi u.owner.symbols) s

section Published

variable {abi : Abi} {base : Instance} {units : List LinkedUnit} {u : LinkedUnit} {name : String}
  {object : Extern}

theorem Symbols.publishUnits_concat (s : Symbols) (functional : u.isFunctional = true) :
    s.publishUnits abi (units ++ [u]) = (s.publishUnits abi units).publish abi u.owner.symbols := by
  simp [publishUnits, List.filter_append, functional]

theorem Symbols.publishUnits_concat_other (s : Symbols) (other : u.isFunctional = false) :
    s.publishUnits abi (units ++ [u]) = s.publishUnits abi units := by
  simp [publishUnits, List.filter_append, other]

theorem find?_publishUnits_of_reserved (s : Symbols) (reserved : abi.isReserved name = true) :
    (s.publishUnits abi units).find? name = s.find? name := by
  induction units using List.reverseRecOn with
  | nil => rfl
  | append_singleton units u ih =>
    cases functional : u.isFunctional with
    | true =>
      rw [s.publishUnits_concat functional, Symbols.find?_publish_of_reserved reserved, ih]
    | false => rw [s.publishUnits_concat_other functional, ih]

/-- Publishing everything in order gives each name its current definition. -/
theorem find?_publishUnits_iff (distinct : base.Distinct) (each : ∀ u ∈ units, u.owner.Distinct)
    (free : abi.isReserved name = false) :
    ((({} : Symbols).publish abi base.symbols).publishUnits abi units).find? name = some object ↔
      Defines base units name object := by
  induction units using List.reverseRecOn with
  | nil =>
    change (({} : Symbols).publish abi base.symbols).find? name = some object ↔ _
    rw [Symbols.find?_publish_iff distinct free]
    constructor
    · rintro (h | ⟨-, h⟩)
      · exact .base h (by simp)
      · cases h
    · rintro (⟨_, _, _, split⟩ | ⟨exported⟩)
      · simp at split
      · exact .inl exported
  | append_singleton units u ih =>
    have earlier := ih fun v mem => each v (by simp [mem])
    rw [defines_concat_iff]
    cases functional : u.isFunctional with
    | true =>
      rw [Symbols.publishUnits_concat _ functional,
        Symbols.find?_publish_iff (each u (by simp)) free, earlier]
      simp [LinkedUnit.exportNames]
    | false =>
      rw [Symbols.publishUnits_concat_other _ functional, earlier]
      simp

end Published

/-- The symbols are what publishing the base and then each functional unit gives, units stand at their
indices, and no export list has a name twice. -/
structure Program.Published (p : Program) (abi : Abi) : Prop where
  symbols : p.symbols = (({} : Symbols).publish abi p.base.symbols).publishUnits abi p.units
  indices : p.units.map (·.index) = List.range p.units.length
  base : p.base.Distinct
  units : ∀ u ∈ p.units, u.owner.Distinct

namespace Program.Published

variable {p : Program} {abi : Abi} {l : Linking}

theorem distinct_append (h : p.Published abi) (distinct : l.owner.Distinct) (state : UnitState) :
    ∀ u ∈ (p.append l state).units, u.owner.Distinct := by
  intro u mem
  rcases List.mem_append.1 mem with old | new
  · exact h.units u old
  · rw [List.mem_singleton.1 new]; exact distinct

theorem indices_append (h : p.Published abi) (state : UnitState) :
    (p.append l state).units.map (·.index) = List.range (p.append l state).units.length := by
  simp [append, h.indices, List.range_succ]

/-- A unit that is appended without having run to its end publishes nothing. -/
theorem append_unfinished (h : p.Published abi) (distinct : l.owner.Distinct) {state : UnitState}
    (unfinished : state.result? = none) : (p.append l state).Published abi where
  symbols := by
    have other : ({ l with index := p.units.length, state } : LinkedUnit).isFunctional = false := by
      simp [LinkedUnit.isFunctional, unfinished]
    rw [append, Symbols.publishUnits_concat_other _ other]
    exact h.symbols
  indices := h.indices_append state
  base := h.base
  units := h.distinct_append distinct state

/-- A unit that has run to its end is published as it is appended. -/
theorem append_executed (h : p.Published abi) (distinct : l.owner.Distinct) (value : Int32) :
    (append { p with symbols := p.symbols.publish abi l.owner.symbols } l (.executed value)).Published abi where
  symbols := by
    have functional :
        ({ l with index := p.units.length, state := .executed value } : LinkedUnit).isFunctional = true := rfl
    rw [append, Symbols.publishUnits_concat _ functional, ← h.symbols]
  indices := h.indices_append (.executed value)
  base := h.base
  units := h.distinct_append distinct (.executed value)

end Program.Published

/-- In every state the symbols are published, and the units being linked can be. -/
theorem invariant_published : Invariant fun _ w frames =>
    (∀ p, w.program = some p → p.Published w.config.abi) ∧
      ∀ l ∈ frames.filterMap Frame.linking?, l.owner.Distinct where
  unplaced := by
    intro w empty
    refine ⟨fun p hp => ?_, by simp⟩
    rw [empty] at hp
    cases hp
  placed := by
    intro engine base w p valid placed
    obtain ⟨d, s, s', joined⟩ := placed.joined
    refine ⟨fun q hq => ?_, by simp⟩
    rw [placed.program] at hq
    cases hq
    refine ⟨?_, by simp [placed.units], Instance.distinct_of_instantiate valid joined, by simp [placed.units]⟩
    rw [placed.symbols, placed.units]
    rfl
  step := by
    intro life m m' _ ⟨published, distinct⟩ h
    have same {w : World} (kept : World.SameProgram w m'.world)
        (published : ∀ p, w.program = some p → p.Published w.config.abi) :
        ∀ p, m'.world.program = some p → p.Published m'.world.config.abi := by
      rw [kept.program, kept.config]
      exact published
    change ∀ l ∈ m.linking, _ at distinct
    change _ ∧ ∀ l ∈ m'.linking, _
    cases Machine.step_change h with
    | still quiet still => exact ⟨same still.kept.same published, by rw [still.linking]; exact distinct⟩
    | posted r posted world linking =>
      refine ⟨same ?_ published, by rw [linking]; exact distinct⟩
      rw [world]
      exact World.same_post m.world r
    | began r p l quiet prepared kept linking =>
      obtain ⟨d, s, s', joined⟩ := prepared.joined
      have own := Instance.distinct_of_instantiate (Engine.compile?_valid prepared.compiled) joined
      refine ⟨same kept.same published, ?_⟩
      rw [linking]
      exact List.forall_mem_cons.2 ⟨own, distinct⟩
    | dropped l quiet kept linking =>
      rw [linking] at distinct
      exact ⟨same kept.same published, (List.forall_mem_cons.1 distinct).2⟩
    | appended l state quiet unfinished kept linking =>
      rw [linking] at distinct
      obtain ⟨own, others⟩ := List.forall_mem_cons.1 distinct
      refine ⟨same kept.same fun q hq => ?_, others⟩
      obtain ⟨p, installed, rfl⟩ := Option.map_eq_some_iff.1 hq
      exact (published p installed).append_unfinished own unfinished
    | executed l value quiet kept linking =>
      rw [linking] at distinct
      obtain ⟨own, others⟩ := List.forall_mem_cons.1 distinct
      have bound := (World.kept_publish m.world l.owner.symbols).append l (.executed value)
      refine ⟨same (bound.trans kept).same fun q hq => ?_, others⟩
      obtain ⟨_, updated, rfl⟩ := Option.map_eq_some_iff.1 hq
      obtain ⟨p, installed, rfl⟩ := Option.map_eq_some_iff.1 updated
      exact (published p installed).append_executed own value
  ended := by
    rintro life m outcome ⟨published, -⟩ -
    exact ⟨published, by simp⟩
  outside := by
    intro life w w' ⟨published, distinct⟩ same
    rw [same.program, same.config]
    exact ⟨published, distinct⟩

/-- At every stage of every life the symbol table is what publishing the base and then each functional
unit by increasing index gives. A name is bound exactly if it is not reserved and the base or a functional unit
exports it, and then to its current definition. -/
theorem symbols_published_in_order {life : List Machine} {stage : Stage} (h : Life life stage)
    {p : Program} (hp : stage.world.program = some p) :
    p.symbols = (({} : Symbols).publish stage.world.config.abi p.base.symbols).publishUnits
        stage.world.config.abi p.units ∧
      p.units.map (·.index) = List.range p.units.length ∧
      ∀ name object, p.symbols.find? name = some object ↔
        stage.world.config.abi.isReserved name = false ∧ Defines p.base p.units name object := by
  obtain ⟨symbols, indices, base, units⟩ := (invariant_published.holds h).1 p hp
  refine ⟨symbols, indices, fun name object => ?_⟩
  rw [symbols]
  cases reserved : stage.world.config.abi.isReserved name with
  | true =>
    rw [find?_publishUnits_of_reserved _ reserved, Symbols.find?_publish_of_reserved reserved]
    simp [Symbols.find?]
  | false =>
    rw [find?_publishUnits_iff base units reserved]
    simp

/-- After nested links a name both units export has its current definition. -/
theorem nested_main_defined : ∃ life s p object, Life life (.idle s) ∧ s.world.program = some p ∧
    p.units.length = 2 ∧ p.symbols.find? "main" = some object ∧ Defines p.base p.units "main" object := by
  obtain ⟨life, s, h, bases, bound⟩ := Sample.nested
  obtain ⟨object, bound⟩ := Option.isSome_iff_exists.1 bound
  obtain ⟨p, hp, bound⟩ := Option.bind_eq_some_iff.1 bound
  have both : p.units.length = 2 := by
    have counted := congrArg List.length bases
    simpa [World.units, hp] using counted
  obtain ⟨-, -, current⟩ := symbols_published_in_order h hp
  exact ⟨life, s, p, object, h, hp, both, bound, ((current "main" object).1 bound).2⟩

end UnitHost
