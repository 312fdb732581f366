import UnitHost.Proofs.SymbolTable

/-!
# Host items and published symbols

The names that are never published are kept as a list of cases of its own, while the pairs the host defines
come from three other places. `Abi.isReserved_iff` says that they are the same, and from there on it is a
matter of lists: symbols have distinct names that are not reserved, so they cannot clash with the host's pairs
or with each other. What is left to clash are the two bases, which nothing defines while a session is loaded;
whether they do depends on the names alone.
-/

namespace UnitHost

open Wasm

namespace Abi

/-- A base has the pair of the other one, or one of those defined once for a session. -/
def BasesCollide (abi : Abi) : Prop :=
  abi.memoryBase = abi.tableBase ∨ ∃ pair ∈ abi.basePairs, pair ∈ abi.surfacePairs

instance (abi : Abi) : Decidable abi.BasesCollide := inferInstanceAs (Decidable (_ ∨ _))

/-- What the host defines under its pairs, for a unit whose bases lie at the given address. -/
def hostItems (abi : Abi) (p : Program) (address : Nat) : List ((String × String) × Extern) :=
  abi.surfaceItems 0 p.memory p.table ++ abi.baseItems address

theorem hostItems_pairs (abi : Abi) (p : Program) (address : Nat) :
    (abi.hostItems p address).map (·.1) = abi.hostPairs := by
  rw [hostItems, List.map_append, surfaceItems_pairs, baseItems_pairs, hostPairs]

/-- Once a session is loaded, only the bases can make two of the host's pairs the same. -/
theorem nodup_hostPairs_iff {abi : Abi} (distinct : abi.surfacePairs.Nodup) :
    abi.hostPairs.Nodup ↔ ¬ abi.BasesCollide := by
  have bases : abi.basePairs.Nodup ↔ abi.memoryBase ≠ abi.tableBase := by simp [basePairs]
  rw [hostPairs, List.nodup_append, bases]
  constructor
  · rintro ⟨-, apart, disjoint⟩ (same | ⟨pair, base, surface⟩)
    · exact apart same
    · exact disjoint pair surface pair base rfl
  · intro apart
    refine ⟨distinct, fun same => apart (.inl same), fun pair surface other base same => apart (.inr ?_)⟩
    exact ⟨other, base, same ▸ surface⟩

theorem mem_symbolItems {abi : Abi} {entries : List (String × Extern)} {module name : String} {object : Extern} :
    ((module, name), object) ∈ abi.symbolItems entries ↔ module = abi.exportsModule ∧ (name, object) ∈ entries := by
  simp only [symbolItems, List.mem_map, Prod.mk.injEq]
  constructor
  · rintro ⟨e, mem, ⟨module, rfl⟩, rfl⟩
    exact ⟨module.symm, mem⟩
  · rintro ⟨module, mem⟩
    exact ⟨(name, object), mem, ⟨module.symm, rfl⟩, rfl⟩

end Abi

/-! Symbols. -/

namespace Symbols

/-- No name is bound twice, and no reserved name is bound. -/
structure Clean (s : Symbols) (abi : Abi) : Prop where
  distinct : (s.entries.map (·.1)).Nodup
  free : ∀ name ∈ s.entries.map (·.1), abi.isReserved name = false

/-- Binding a name that is bound keeps the names, and binding another one adds it. -/
theorem insertEntry_names (name : String) (object : Extern) (entries : List (String × Extern)) :
    (insertEntry name object entries).map (·.1) =
      if name ∈ entries.map (·.1) then entries.map (·.1) else entries.map (·.1) ++ [name] := by
  induction entries with
  | nil => rfl
  | cons e rest ih =>
    obtain ⟨key, old⟩ := e
    by_cases same : key = name
    · simp [insertEntry, same]
    · have kept : insertEntry name object ((key, old) :: rest) = (key, old) :: insertEntry name object rest := by
        simp [insertEntry, same]
      rw [kept, List.map_cons, ih]
      by_cases bound : name ∈ rest.map (·.1)
      · rw [if_pos bound, if_pos (by simp [bound])]
        rfl
      · have absent : name ∉ ((key, old) :: rest).map (·.1) := by
          rw [List.map_cons, List.mem_cons, not_or]
          exact ⟨fun found => same found.symm, bound⟩
        rw [if_neg bound, if_neg absent]
        rfl

variable {s : Symbols} {abi : Abi} {name : String}

theorem Clean.insert (h : s.Clean abi) (free : abi.isReserved name = false) (object : Extern) :
    (s.insert name object).Clean abi := by
  have names := insertEntry_names name object s.entries
  by_cases bound : name ∈ s.entries.map (·.1)
  · rw [if_pos bound] at names
    exact ⟨by rw [Symbols.insert, names]; exact h.distinct, by rw [Symbols.insert, names]; exact h.free⟩
  · rw [if_neg bound] at names
    constructor
    · rw [Symbols.insert, names, List.nodup_append]
      refine ⟨h.distinct, List.nodup_singleton name, fun other mem last new same => bound ?_⟩
      rw [← List.mem_singleton.1 new, ← same]
      exact mem
    · intro other mem
      rw [Symbols.insert, names, List.mem_append, List.mem_singleton] at mem
      rcases mem with old | rfl
      · exact h.free other old
      · exact free

theorem Clean.publish (h : s.Clean abi) (exports : List (String × Extern)) : (s.publish abi exports).Clean abi := by
  induction exports generalizing s with
  | nil => exact h
  | cons e rest ih =>
    obtain ⟨name, object⟩ := e
    rw [publish_cons]
    cases reserved : abi.isReserved name with
    | true => exact ih h
    | false => exact ih (h.insert reserved object)

theorem Clean.publishUnits (h : s.Clean abi) (units : List LinkedUnit) : (s.publishUnits abi units).Clean abi := by
  induction units using List.reverseRecOn with
  | nil => exact h
  | append_singleton units u ih =>
    cases functional : u.isFunctional with
    | true => rw [publishUnits_concat s functional]; exact ih.publish _
    | false => rw [publishUnits_concat_other s functional]; exact ih

/-- The pair of a symbol is not one of the host's. -/
theorem Clean.not_mem_hostPairs (h : s.Clean abi) {entry : (String × String) × Extern}
    (mem : entry ∈ abi.symbolItems s.entries) : entry.1 ∉ abi.hostPairs := by
  obtain ⟨⟨module, name⟩, object⟩ := entry
  obtain ⟨rfl, bound⟩ := Abi.mem_symbolItems.1 mem
  intro defined
  have free := h.free name (List.mem_map.2 ⟨(name, object), bound, rfl⟩)
  rw [(abi.isReserved_iff name).2 defined] at free
  cases free

theorem Clean.nodup_symbolItems (h : s.Clean abi) : ((abi.symbolItems s.entries).map (·.1)).Nodup := by
  have names : (abi.symbolItems s.entries).map (·.1) = (s.entries.map (·.1)).map (abi.exportsModule, ·) := by
    simp [Abi.symbolItems]
  rw [names]
  exact h.distinct.map fun _ _ same => (Prod.mk.inj same).2

theorem Clean.perm {order : List (String × Extern)} (h : s.Clean abi) (perm : order.Perm s.entries) :
    ({ entries := order } : Symbols).Clean abi :=
  ⟨(perm.map _).nodup_iff.2 h.distinct, fun name mem => h.free name ((perm.map _).mem_iff.1 mem)⟩

end Symbols

/-! The import object. -/

/-- The surface is the one made when the session was loaded, and the symbols do not clash with it. -/
structure Program.Linkable (p : Program) (abi : Abi) : Prop where
  surface : ({} : Definitions).extend (abi.surfaceItems 0 p.memory p.table) = .ok p.surface
  clean : p.symbols.Clean abi

/-- The host's items are found under the host's pairs, and published symbols under every other name in the
module of exports. -/
def Definitions.Offers (d : Definitions) (abi : Abi) (p : Program) (address : Nat) : Prop :=
  ∀ module name object, d.find? module name = some object ↔
    ((module, name), object) ∈ abi.hostItems p address ∨
      module = abi.exportsModule ∧ p.symbols.find? name = some object

namespace Program.Linkable

variable {p : Program} {abi : Abi} {order : List (String × Extern)} {d : Definitions}

theorem surface_eq (h : p.Linkable abi) :
    p.surface = { entries := abi.surfaceItems 0 p.memory p.table } ∧ abi.surfacePairs.Nodup := by
  have empty : ({} : Definitions).pairs.Nodup := List.nodup_nil
  have made := (Definitions.extend_eq_ok_iff empty).1 h.surface
  have pairs : ({} : Definitions).pairs ++ (abi.surfaceItems 0 p.memory p.table).map (·.1) = abi.surfacePairs :=
    abi.surfaceItems_pairs 0 p.memory p.table
  rw [pairs] at made
  exact made

/-- The two bases can be defined exactly if they do not collide. -/
theorem extend_baseItems_iff (h : p.Linkable abi) (address : Nat) :
    p.surface.extend (abi.baseItems address) = .ok d ↔
      d = { entries := abi.hostItems p address } ∧ ¬ abi.BasesCollide := by
  obtain ⟨surface, distinct⟩ := h.surface_eq
  have pairs : p.surface.pairs = abi.surfacePairs := by
    rw [surface]
    exact abi.surfaceItems_pairs 0 p.memory p.table
  rw [Definitions.extend_eq_ok_iff (by rw [pairs]; exact distinct), pairs, Abi.baseItems_pairs, ← Abi.hostPairs,
    Abi.nodup_hostPairs_iff distinct, surface]
  rfl

/-- The symbols can be defined after the bases, in any order. -/
theorem extend_symbolItems (h : p.Linkable abi) (perm : order.Perm p.symbols.entries) (address : Nat)
    (apart : ¬ abi.BasesCollide) :
    ({ entries := abi.hostItems p address } : Definitions).extend (abi.symbolItems order) =
        .ok { entries := abi.hostItems p address ++ abi.symbolItems order } ∧
      ((abi.hostItems p address ++ abi.symbolItems order).map (·.1)).Nodup := by
  have clean := h.clean.perm perm
  have pairs : ({ entries := abi.hostItems p address } : Definitions).pairs = abi.hostPairs :=
    abi.hostItems_pairs p address
  have hosts : abi.hostPairs.Nodup := (Abi.nodup_hostPairs_iff h.surface_eq.2).2 apart
  have nodup : (abi.hostPairs ++ (abi.symbolItems order).map (·.1)).Nodup := by
    refine List.nodup_append.2 ⟨hosts, clean.nodup_symbolItems, fun pair host other symbol same => ?_⟩
    obtain ⟨entry, mem, rfl⟩ := List.mem_map.1 symbol
    exact clean.not_mem_hostPairs mem (same ▸ host)
  constructor
  · exact (Definitions.extend_eq_ok_iff (by rw [pairs]; exact hosts)).2 ⟨rfl, by rw [pairs]; exact nodup⟩
  · rw [List.map_append, Abi.hostItems_pairs]
    exact nodup

/-- Host items and symbols together are what a unit is to find. -/
theorem offers (h : p.Linkable abi) (perm : order.Perm p.symbols.entries) (address : Nat)
    (apart : ¬ abi.BasesCollide) :
    ({ entries := abi.hostItems p address ++ abi.symbolItems order } : Definitions).Offers abi p address := by
  intro module name object
  rw [Definitions.find?_eq_some_iff (h.extend_symbolItems perm address apart).2]
  simp only [List.mem_append, Abi.mem_symbolItems, perm.mem_iff, Symbols.find?,
    lookup_eq_some_iff_mem h.clean.distinct]

/-- If the bases collide, the import object fails, and one of their pairs is named. -/
theorem importObject_of_collide (h : p.Linkable abi) (collide : abi.BasesCollide) (w : World)
    (names : w.config.abi = abi) (memoryBase tableBase : Nat) :
    ∃ pair ∈ abi.basePairs,
      (Action.importObject { p with symbols := { entries := order } } memoryBase tableBase).run.run w =
        (.error (.instantiation (.definedTwice pair.1 pair.2)), w.withBases memoryBase tableBase) := by
  rw [Action.run_importObject, names, Definitions.extend_append]
  cases based : p.surface.extend (abi.baseItems w.store.globals.size) with
  | ok d => exact absurd collide ((h.extend_baseItems_iff _).1 based).2
  | error fault =>
    obtain ⟨pair, mem, rfl⟩ := Definitions.mem_of_extend_error based
    exact ⟨pair, mem, rfl⟩

/-- If they do not, it succeeds, whatever the order of the symbols. -/
theorem importObject_of_apart (h : p.Linkable abi) (perm : order.Perm p.symbols.entries)
    (apart : ¬ abi.BasesCollide) (w : World) (names : w.config.abi = abi) (memoryBase tableBase : Nat) :
    ∃ d : Definitions, d.Offers abi p w.store.globals.size ∧
      (Action.importObject { p with symbols := { entries := order } } memoryBase tableBase).run.run w =
        (.ok d, w.withBases memoryBase tableBase) := by
  refine ⟨_, h.offers perm w.store.globals.size apart, ?_⟩
  rw [Action.run_importObject, names, Definitions.extend_append,
    (h.extend_baseItems_iff w.store.globals.size).2 ⟨rfl, apart⟩]
  change (Except.mapError _ (Definitions.extend _ _), _) = _
  rw [(h.extend_symbolItems perm w.store.globals.size apart).1]
  rfl

end Program.Linkable

/-! Every stage. -/

/-- In every state the program can be linked into, and the configuration is that of all states before. -/
theorem invariant_linkable : Invariant fun life w _ =>
    (∀ m ∈ life, m.world.config = w.config) ∧
      ∀ p, w.program = some p → ({} : Definitions).extend (w.config.abi.surfaceItems 0 p.memory p.table) = .ok p.surface where
  unplaced := by
    intro w empty
    refine ⟨by simp, fun p hp => ?_⟩
    rw [empty] at hp
    cases hp
  placed := by
    intro engine base w p valid placed
    refine ⟨by simp, fun q hq => ?_⟩
    rw [placed.program] at hq
    cases hq
    exact placed.surface
  step := by
    intro life m m' _ ⟨config, surface⟩ h
    have same := Machine.step_config h
    constructor
    · intro n mem
      rcases List.mem_append.1 mem with before | last
      · exact (config n before).trans same.symm
      · rw [List.mem_singleton.1 last, same]
    · intro p' hp'
      obtain ⟨p, hp, ground⟩ := Machine.step_ground h hp'
      rw [same, ground.memory, ground.table, ground.surface]
      exact surface p hp
  ended := by
    intro life m outcome ⟨config, surface⟩ _
    refine ⟨fun n mem => ?_, surface⟩
    rcases List.mem_append.1 mem with before | last
    · exact config n before
    · rw [List.mem_singleton.1 last]
  outside := by
    intro life w w' ⟨config, surface⟩ same
    rw [same.program, same.config]
    exact ⟨config, surface⟩

theorem Life.linkable {life : List Machine} {stage : Stage} (h : Life life stage) {p : Program}
    (hp : stage.world.program = some p) : p.Linkable stage.world.config.abi := by
  have published := (invariant_published.holds h).1 p hp
  refine ⟨(invariant_linkable.holds h).2 p hp, ?_⟩
  have empty : ({} : Symbols).Clean stage.world.config.abi := ⟨List.nodup_nil, by simp⟩
  rw [published.symbols]
  exact (empty.publish _).publishUnits _

/-- An import of one of the host's pairs gets the host's item. -/
theorem Definitions.Offers.resolve {d : Definitions} {abi : Abi} {p : Program} {address : Nat}
    (h : d.Offers abi p address) {s : Store} {imports : List Import} {objects : List Extern}
    (resolved : d.resolve s imports = .ok objects) :
    List.Forall₂ (fun i object => (i.module, i.name) ∈ abi.hostPairs →
      ((i.module, i.name), object) ∈ abi.hostItems p address) imports objects := by
  refine (Definitions.resolve_ok resolved).imp fun i object bound host => ?_
  rw [← abi.hostItems_pairs p address] at host
  obtain ⟨⟨_, item⟩, mem, rfl⟩ := List.mem_map.1 host
  have hosted := (h i.module i.name item).2 (.inl mem)
  rw [bound.1] at hosted
  cases hosted
  exact mem

/-- Under any names, those reserved are the ones the host defines in the module of exports. So at every stage of
a session with these names the import object of a unit fails exactly if the bases collide, whatever the order of
the symbols, and it is then a base that is defined twice. Otherwise it offers the host's items and the symbols,
and an import of one of the host's pairs gets the host's item. -/
theorem host_pairs_never_redefined (abi : Abi) :
    (∀ name, abi.isReserved name = true ↔ (abi.exportsModule, name) ∈ abi.hostPairs) ∧
    ∀ {life : List Machine} {stage : Stage} {p : Program}, Life life stage → stage.world.program = some p →
      stage.world.config.abi = abi →
      (∀ m ∈ life, m.world.config.abi = abi) ∧
      ∀ {order : List (String × Extern)}, order.Perm p.symbols.entries →
        ∀ w : World, w.config.abi = abi → ∀ memoryBase tableBase : Nat,
          (abi.BasesCollide → ∃ pair ∈ abi.basePairs,
            (Action.importObject { p with symbols := { entries := order } } memoryBase tableBase).run.run w =
              (.error (.instantiation (.definedTwice pair.1 pair.2)), w.withBases memoryBase tableBase)) ∧
          (¬ abi.BasesCollide → ∃ d : Definitions,
            (Action.importObject { p with symbols := { entries := order } } memoryBase tableBase).run.run w =
              (.ok d, w.withBases memoryBase tableBase) ∧
            d.Offers abi p w.store.globals.size ∧
            ∀ {s : Store} {imports : List Import} {objects : List Extern}, d.resolve s imports = .ok objects →
              List.Forall₂ (fun i object => (i.module, i.name) ∈ abi.hostPairs →
                ((i.module, i.name), object) ∈ abi.hostItems p w.store.globals.size) imports objects) := by
  refine ⟨abi.isReserved_iff, fun {life stage p} h hp names => ?_⟩
  subst names
  have linkable := h.linkable hp
  refine ⟨fun m mem => by rw [(invariant_linkable.holds h).1 m mem], fun {order} perm w names mb tb => ⟨?_, ?_⟩⟩
  · exact fun collide => linkable.importObject_of_collide collide w names mb tb
  · intro apart
    obtain ⟨d, offers, run⟩ := linkable.importObject_of_apart perm apart w names mb tb
    exact ⟨d, run, offers, offers.resolve⟩

/-- A session with the usual names and one in which a base has the name of the memory. -/
theorem import_objects_of_two_sessions :
    (∃ life s p d, Life life (.idle s) ∧ s.world.program = some p ∧ ¬ ({} : Abi).BasesCollide ∧
      (Action.importObject { p with symbols := { entries := p.symbols.entries.reverse } } 1024 1).run.run s.world =
        (.ok d, s.world.withBases 1024 1) ∧ d.Offers {} p s.world.store.globals.size) ∧
    ∃ life s p pair, Life life (.idle s) ∧ s.world.program = some p ∧
      ({ memoryBase := "memory" } : Abi).BasesCollide ∧
      (Action.importObject p 1024 1).run.run s.world =
        (.error (.instantiation (.definedTwice "env" pair)), s.world.withBases 1024 1) := by
  have loaded (abi : Abi) (evaluated : ((Session.load 10 {} (.ofEvaluator [] [] []) { abi }).map fun r =>
      r.toOption.map fun s => (s.world.program.isSome, decide (s.world.config.abi = abi))) = some (some (true, true))) :
      ∃ life s p, Life life (.idle s) ∧ s.world.program = some p ∧ s.world.config.abi = abi := by
    obtain ⟨result, loaded, found⟩ := Option.map_eq_some_iff.1 evaluated
    obtain ⟨s, ok, found⟩ := Option.map_eq_some_iff.1 found
    rw [ok_of_toOption ok] at loaded
    obtain ⟨placed, names⟩ := Prod.mk.inj found
    obtain ⟨p, hp⟩ := Option.isSome_iff_exists.1 placed
    exact ⟨_, s, p, .loaded (by decide) loaded, hp, of_decide_eq_true names⟩
  constructor
  · obtain ⟨life, s, p, h, hp, names⟩ := loaded {} (by decide +kernel)
    obtain ⟨-, stages⟩ := host_pairs_never_redefined {}
    obtain ⟨-, built⟩ := stages h hp names
    have apart : ¬ ({} : Abi).BasesCollide := by decide
    obtain ⟨d, run, offers, -⟩ := (built (List.reverse_perm _) s.world names 1024 1).2 apart
    exact ⟨life, s, p, d, h, hp, apart, run, offers⟩
  · obtain ⟨life, s, p, h, hp, names⟩ := loaded { memoryBase := "memory" } (by decide +kernel)
    obtain ⟨-, stages⟩ := host_pairs_never_redefined { memoryBase := "memory" }
    obtain ⟨-, built⟩ := stages h hp names
    have collide : ({ memoryBase := "memory" } : Abi).BasesCollide := by decide
    obtain ⟨pair, base, run⟩ := (built (List.Perm.refl _) s.world names 1024 1).1 collide
    have module : pair.1 = "env" := by
      rcases List.mem_cons.1 base with rfl | base
      · rfl
      · rw [List.mem_singleton.1 base]
    rw [module] at run
    exact ⟨life, s, p, pair.2, h, hp, collide, run⟩

end UnitHost
