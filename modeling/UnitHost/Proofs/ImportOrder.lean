import UnitHost.Proofs.HostPairs
import UnitHost.Proofs.Instances
import UnitHost.Proofs.LinkRuns

/-!
# Units link backwards

The imports of a unit are bound when its link begins, and it gets its index when its entry points have run;
units that are linked in between come before it. `Instance.import?` reads what an import was bound to off the instance,
whose index spaces begin with the imported objects. `Linking.BoundWithin` says that all imports were bound to what the
host, the base and given units offer: it holds of a link with the units there are when it begins
(`LinkRequest.Prepared.bound`), and more units do not break it.
-/

namespace UnitHost

open Wasm

/-! What an import is bound to. -/

/-- What the import at a position is bound to. Its index is the number of imports of the same kind before it. -/
def Instance.import? (owner : Instance) (imports : List Import) (position : Nat) : Option Extern :=
  imports[position]?.bind fun i =>
    owner.object? i.type.kind ((imports.take position).countP fun j => j.type.kind == i.type.kind)

/-- An element that a filter keeps stands behind those it keeps before it. -/
theorem getElem?_filter_countP {keep : α → Bool} {xs : List α} {n : Nat} {x : α} (found : xs[n]? = some x)
    (kept : keep x = true) : (xs.filter keep)[(xs.take n).countP keep]? = some x := by
  obtain ⟨inside, rfl⟩ := List.getElem?_eq_some_iff.1 found
  have split : xs.filter keep = (xs.take n).filter keep ++ xs[n] :: (xs.drop (n + 1)).filter keep := by
    rw [← List.filter_cons_of_pos kept, ← List.filter_append, ← List.drop_eq_getElem_cons inside,
      List.take_append_drop]
  rw [split, List.countP_eq_length_filter, List.getElem?_append_right (Nat.le_refl _), Nat.sub_self,
    List.getElem?_cons_zero]

/-- The objects of one kind at the front of an index space. -/
theorem getElem?_imported {wrap : α → Extern} {part : Extern → Option α} {kind : ObjectKind}
    (parts : ∀ object, (part object).map wrap = Option.guard (fun o => o.kind == kind) object)
    {objects : List Extern} {own : List α} {index : Nat} {object : Extern}
    (h : (objects.filter fun o => o.kind == kind)[index]? = some object) :
    (objects.filterMap part ++ own)[index]?.map wrap = some object := by
  have imported : (objects.filterMap part).map wrap = objects.filter fun o => o.kind == kind := by
    rw [List.map_filterMap, ← List.filterMap_eq_filter]
    exact List.filterMap_congr fun object _ => parts object
  rw [← imported, List.getElem?_map] at h
  obtain ⟨part, found, same⟩ := Option.map_eq_some_iff.1 h
  rw [List.getElem?_append_left (List.getElem?_eq_some_iff.1 found).1, found]
  exact congrArg some same

/-- The index spaces of an instance begin with the imported objects. -/
theorem Store.object?_allocate (s : Store) (m : Module) {imports : List Extern} {kind : ObjectKind} {index : Nat}
    {object : Extern} (h : (imports.filter fun o => o.kind == kind)[index]? = some object) :
    (s.allocate m imports).1.object? kind index = some object := by
  cases kind <;> exact getElem?_imported (fun object => by cases object <;> rfl) h

/-- An instance has bound each import to what was defined under its pair. -/
theorem Store.import?_of_instantiate {s s' : Store} {d : Definitions} {m : Module} {owner : Instance}
    (joined : s.instantiate d m = (.ok owner, s')) {position : Nat} {i : Import} (hi : m.imports[position]? = some i) :
    ∃ object, owner.import? m.imports position = some object ∧ d.find? i.module i.name = some object := by
  obtain ⟨objects, resolved, rfl, -⟩ := instantiate_ok joined
  have bound := Definitions.resolve_ok resolved
  have kinds : m.imports.map (·.type.kind) = objects.map Extern.kind := by
    rw [← List.forall₂_eq_eq_eq, List.forall₂_map_left_iff, List.forall₂_map_right_iff]
    exact bound.imp fun i object found => (kind_of_fits found.2).symm
  obtain ⟨inside, rfl⟩ := List.getElem?_eq_some_iff.1 hi
  have there : position < objects.length := bound.length_eq ▸ inside
  obtain ⟨found, fits⟩ := bound.get inside there
  have same : objects[position].kind = m.imports[position].type.kind := kind_of_fits fits
  have before : (m.imports.take position).countP (fun j => j.type.kind == m.imports[position].type.kind) =
      (objects.take position).countP (fun o => o.kind == m.imports[position].type.kind) := by
    have counted := congrArg (fun kinds => (kinds.take position).countP (· == m.imports[position].type.kind)) kinds
    simp only [← List.map_take, List.countP_map] at counted
    exact counted
  refine ⟨objects[position], ?_, found⟩
  unfold Instance.import?
  rw [hi, Option.bind_some, before]
  exact object?_allocate s m (getElem?_filter_countP (List.getElem?_eq_getElem there) (by simp [same]))

/-! What a link finds. -/

/-- The base or a functional unit exports an object under a name. -/
def Exported (base : Instance) (units : List LinkedUnit) (name : String) (object : Extern) : Prop :=
  (name, object) ∈ base.symbols ∨ ∃ v ∈ units, v.isFunctional = true ∧ (name, object) ∈ v.owner.symbols

/-- Every import that is not one of the host's was bound to what the base or one of the units exports. -/
def Linking.BoundWithin (l : Linking) (abi : Abi) (base : Instance) (units : List LinkedUnit) : Prop :=
  ∀ (position : Nat) (i : Import), l.module.imports[position]? = some i → (i.module, i.name) ∉ abi.hostPairs →
    i.module = abi.exportsModule ∧
      ∃ object, l.owner.import? l.module.imports position = some object ∧ Exported base units i.name object

section Bound

variable {abi : Abi} {base : Instance} {units more : List LinkedUnit} {l : Linking} {p : Program}

theorem Exported.mono {name : String} {object : Extern} (h : Exported base units name object)
    (subset : ∀ u ∈ units, u ∈ more) : Exported base more name object := by
  rcases h with based | ⟨v, mem, functional, exported⟩
  · exact .inl based
  · exact .inr ⟨v, subset v mem, functional, exported⟩

theorem Linking.BoundWithin.mono (h : l.BoundWithin abi base units) (subset : ∀ u ∈ units, u ∈ more) :
    l.BoundWithin abi base more := by
  intro position i hi foreign
  obtain ⟨module, object, bound, exported⟩ := h position i hi foreign
  exact ⟨module, object, bound, exported.mono subset⟩

/-- What is bound in the symbol table is exported. -/
theorem Program.Published.exported (h : p.Published abi) {name : String} {object : Extern}
    (found : p.symbols.find? name = some object) : Exported p.base p.units name object := by
  rw [h.symbols] at found
  cases reserved : abi.isReserved name with
  | true =>
    rw [find?_publishUnits_of_reserved _ reserved, Symbols.find?_publish_of_reserved reserved] at found
    cases found
  | false =>
    cases (find?_publishUnits_iff h.base h.units reserved).1 found with
    | base exported only => exact .inl exported
    | unit earlier later u split functional exported latest =>
      exact .inr ⟨u, by simp [split], functional, exported⟩

/-- An import object that was built offers the host's items and the symbols. -/
theorem Program.Linkable.offers_of_run (h : p.Linkable abi) {d : Definitions} {v v' : World}
    {memoryBase tableBase : Nat} (names : v.config.abi = abi)
    (run : (Action.importObject p memoryBase tableBase).run.run v = (.ok d, v')) :
    d.Offers abi p v.store.globals.size := by
  by_cases collide : abi.BasesCollide
  · obtain ⟨pair, -, failed⟩ : ∃ pair ∈ abi.basePairs, (Action.importObject p memoryBase tableBase).run.run v =
        (.error (.instantiation (.definedTwice pair.1 pair.2)), v.withBases memoryBase tableBase) :=
      h.importObject_of_collide collide v names memoryBase tableBase
    rw [run] at failed
    cases failed
  · obtain ⟨d', offers, built⟩ := h.importObject_of_apart (.refl p.symbols.entries) collide v names memoryBase tableBase
    rw [run] at built
    cases built
    exact offers

/-- One that was not is what an instantiation fails with. -/
theorem Action.fault_of_importObject {f : Failure} {v v' : World} {memoryBase tableBase : Nat}
    (run : (importObject p memoryBase tableBase).run.run v = (.error f, v')) : ∃ fault, f = .instantiation fault := by
  rw [run_importObject] at run
  obtain ⟨result, -⟩ := Prod.mk.inj run
  cases built : p.surface.extend (v.config.abi.baseItems v.store.globals.size ++
      v.config.abi.symbolItems p.symbols.entries) with
  | error fault => rw [built] at result; cases result; exact ⟨fault, rfl⟩
  | ok d => rw [built] at result; cases result

/-- What is found under a pair that is not the host's is a symbol. -/
theorem Definitions.Offers.symbol {d : Definitions} {address : Nat} {module name : String} {object : Extern}
    (h : d.Offers abi p address) (foreign : (module, name) ∉ abi.hostPairs)
    (found : d.find? module name = some object) :
    module = abi.exportsModule ∧ p.symbols.find? name = some object := by
  rcases (h module name object).1 found with host | symbol
  · refine absurd ?_ foreign
    rw [← abi.hostItems_pairs p address]
    exact List.mem_map.2 ⟨_, host, rfl⟩
  · exact symbol

/-- When a link begins, its imports are bound to what there is then. -/
theorem LinkRequest.Prepared.bound {r : LinkRequest} {w : World} (h : r.Prepared w p l)
    (linkable : p.Linkable w.config.abi) (published : p.Published w.config.abi) :
    l.BoundWithin w.config.abi p.base p.units := by
  intro position i hi foreign
  obtain ⟨d, v, v', s, config, built, joined⟩ := h.linked
  have offers := linkable.offers_of_run (congrArg Config.abi config) built
  obtain ⟨object, bound, found⟩ := Store.import?_of_instantiate joined hi
  obtain ⟨module, symbol⟩ := offers.symbol foreign found
  exact ⟨module, object, bound, published.exported symbol⟩

end Bound

/-! Every stage. -/

/-- The imports of each unit were bound within the units before it, and those of each unit being linked within the
units there are. -/
structure Program.Backwards (p : Program) (abi : Abi) (linking : List Linking) : Prop where
  units : ∀ (i : Nat) (u : LinkedUnit), p.units[i]? = some u → u.toLinking.BoundWithin abi p.base (p.units.take i)
  linking : ∀ l ∈ linking, l.BoundWithin abi p.base p.units

namespace Program.Backwards

variable {p : Program} {abi : Abi} {linking : List Linking} {l : Linking}

/-- A unit that is appended comes after all that it was bound to. -/
theorem append (h : p.Backwards abi (l :: linking)) (state : UnitState) : (p.append l state).Backwards abi linking := by
  obtain ⟨own, others⟩ := List.forall_mem_cons.1 h.linking
  refine ⟨fun i u found => ?_, fun k mem => (others k mem).mono fun u listed => List.mem_append_left _ listed⟩
  rcases Nat.lt_or_ge i p.units.length with old | new
  · have before : (p.append l state).units.take i = p.units.take i := List.take_append_of_le_length (Nat.le_of_lt old)
    rw [before]
    exact h.units i u ((List.getElem?_append_left old).symm.trans found)
  · rw [Program.append, List.getElem?_append_right new] at found
    obtain ⟨last, rfl⟩ := List.getElem?_eq_some_iff.1 found
    have at_end : i = p.units.length := by
      simp only [List.length_singleton] at last
      omega
    subst at_end
    simpa [Program.append] using own

/-- Publishing symbols neither adds units nor takes any away. -/
theorem publish (h : p.Backwards abi linking) (symbols : Symbols) :
    ({ p with symbols } : Program).Backwards abi linking := ⟨h.units, h.linking⟩

end Program.Backwards

/-- In every state units link backwards. -/
theorem invariant_backwards : Invariant fun _ w frames =>
    ∀ p, w.program = some p → p.Backwards w.config.abi (frames.filterMap Frame.linking?) where
  unplaced := by
    intro w empty p hp
    rw [empty] at hp
    cases hp
  placed := by
    intro engine base w p valid placed q hq
    rw [placed.program] at hq
    cases hq
    exact ⟨by simp [placed.units], by simp⟩
  step := by
    intro life m m' lived backwards h
    have same {w : World} {linking : List Linking} (kept : World.SameProgram w m'.world)
        (backwards : ∀ p, w.program = some p → p.Backwards w.config.abi linking) :
        ∀ p, m'.world.program = some p → p.Backwards m'.world.config.abi linking := by
      rw [kept.program, kept.config]
      exact backwards
    change ∀ p, m.world.program = some p → p.Backwards m.world.config.abi m.linking at backwards
    change ∀ p, m'.world.program = some p → p.Backwards m'.world.config.abi m'.linking
    cases Machine.step_change h with
    | still quiet still =>
      rw [still.linking]
      exact same still.kept.same backwards
    | posted r posted world linking =>
      rw [linking]
      exact same (world ▸ World.same_post m.world r) backwards
    | began r p l quiet prepared kept linking =>
      rw [linking]
      refine same kept.same fun q hq => ?_
      rw [prepared.program] at hq
      cases hq
      have published := (invariant_published.holds lived).1 p prepared.program
      have bound := prepared.bound (lived.linkable prepared.program) published
      have before := backwards p prepared.program
      exact ⟨before.units, List.forall_mem_cons.2 ⟨bound, before.linking⟩⟩
    | dropped l quiet kept linking =>
      rw [linking] at backwards
      refine same kept.same fun p hp => ?_
      exact ⟨(backwards p hp).units, (List.forall_mem_cons.1 (backwards p hp).linking).2⟩
    | appended l state quiet unfinished kept linking =>
      rw [linking] at backwards
      refine same kept.same fun q hq => ?_
      obtain ⟨p, installed, rfl⟩ := Option.map_eq_some_iff.1 hq
      exact (backwards p installed).append state
    | executed l value quiet kept linking =>
      rw [linking] at backwards
      have bound := (World.kept_publish m.world l.owner.symbols).append l (.executed value)
      refine same (bound.trans kept).same fun q hq => ?_
      obtain ⟨_, updated, rfl⟩ := Option.map_eq_some_iff.1 hq
      obtain ⟨p, installed, rfl⟩ := Option.map_eq_some_iff.1 updated
      exact ((backwards p installed).publish _).append _
  ended := by
    intro life m outcome backwards ended p hp
    exact ⟨(backwards p hp).units, by simp⟩
  outside := by
    intro life w w' backwards same
    rw [same.program, same.config]
    exact backwards

/-! Links that find no definition. -/

/-- The module of the link that the next step begins, if its range, its code and its bases are right and memory and
table can grow to what it imports. -/
def Machine.passing? (m : Machine) : Option Module := do
  let r ← m.link?
  let p ← m.world.program
  let bytes ← ((m.world.memory p).readBytes r.address r.count).toOption
  let module ← m.world.engine.compile? bytes
  let _ ← (r.checkBases p.floor).toOption
  let _ ← ((Action.growToFit p module.imports).run.run m.world).1.toOption
  pure module

section Unbound

variable {p : Program} {module : Module} {i : Import}

/-- Such a link fails exactly as the import object or the unit's joining the store does. -/
theorem Machine.run_prepare_of_passing {m : Machine} (hp : m.world.program = some p)
    (passing : m.passing? = some module) :
    ∃ r bytes memoryBase tableBase v, m.link? = some r ∧ v.config = m.world.config ∧
      (Action.prepare r).run.run m.world =
        (Action.importObject p memoryBase tableBase >>= fun d => Action.instantiate d module >>= fun owner =>
          pure { bytes, module, owner, memoryBase, tableBase : Linking }).run.run v := by
  obtain ⟨r, link, passing⟩ := Option.bind_eq_some_iff.1 passing
  obtain ⟨_, program, passing⟩ := Option.bind_eq_some_iff.1 passing
  rw [hp] at program
  cases program
  obtain ⟨bytes, read, passing⟩ := Option.bind_eq_some_iff.1 passing
  obtain ⟨_, compiled, passing⟩ := Option.bind_eq_some_iff.1 passing
  obtain ⟨⟨memoryBase, tableBase⟩, bases, passing⟩ := Option.bind_eq_some_iff.1 passing
  obtain ⟨⟨⟩, grown, passing⟩ := Option.bind_eq_some_iff.1 passing
  cases passing
  rcases run : (Action.growToFit p module.imports).run.run m.world with ⟨result, v⟩
  rw [run] at grown
  obtain rfl : result = .ok () := ok_of_toOption grown
  exact ⟨r, bytes, memoryBase, tableBase, v, link, ((Action.keeps_growToFit p module.imports).of_run run).config,
    Action.run_prepare_of_grown hp (ok_of_toOption read) compiled (ok_of_toOption bases) run⟩

/-- A module that imports what nobody defines does not join the store. -/
theorem Definitions.Offers.instantiate_error {d : Definitions} {abi : Abi} {address : Nat} (h : d.Offers abi p address)
    (mem : i ∈ module.imports) (foreign : (i.module, i.name) ∉ abi.hostPairs)
    (unbound : i.module = abi.exportsModule → p.symbols.find? i.name = none) (s : Store) :
    ∃ fault s', s.instantiate d module = (.error fault, s') := by
  rcases joined : s.instantiate d module with ⟨fault | owner, s'⟩
  · exact ⟨fault, s', rfl⟩
  · obtain ⟨position, inside, rfl⟩ := List.mem_iff_getElem.1 mem
    obtain ⟨object, -, found⟩ := Store.import?_of_instantiate joined (List.getElem?_eq_getElem inside)
    obtain ⟨exports, symbol⟩ := h.symbol foreign found
    rw [unbound exports] at symbol
    cases symbol

theorem Machine.link_of_unbound {life : List Machine} {m : Machine} (h : Life life (.running m))
    (hp : m.world.program = some p) (passing : m.passing? = some module) (mem : i ∈ module.imports)
    (foreign : (i.module, i.name) ∉ m.world.config.abi.hostPairs)
    (unbound : i.module = m.world.config.abi.exportsModule → p.symbols.find? i.name = none) :
    ∃ fault m', m.step = .inl m' ∧ m'.control = .raise (.failure (.instantiation fault)) ∧
      m'.frames = m.frames ∧ m'.world.units = m.world.units := by
  obtain ⟨r, bytes, memoryBase, tableBase, v, link, config, run⟩ := run_prepare_of_passing hp passing
  have linkable := h.linkable hp
  have names : v.config.abi = m.world.config.abi := congrArg Config.abi config
  obtain ⟨fault, w, failed⟩ : ∃ fault w, (Action.prepare r).run.run m.world = (.error (.instantiation fault), w) := by
    rw [run, Action.run_bind]
    rcases built : (Action.importObject p memoryBase tableBase).run.run v with ⟨f | d, v'⟩
    · obtain ⟨fault, rfl⟩ := Action.fault_of_importObject built
      exact ⟨fault, v', rfl⟩
    · have offers := linkable.offers_of_run names built
      obtain ⟨fault, s, joined⟩ := offers.instantiate_error mem foreign unbound v'.store
      dsimp only
      rw [Action.run_bind, Action.run_instantiate_error joined]
      exact ⟨fault, _, rfl⟩
  have kept := (Action.keeps_prepare r).of_run failed
  refine ⟨fault, m.link r, (step_link link).1, ?_, ?_, ?_⟩
  · rw [Machine.link, failed]
    rfl
  · rw [Machine.link, failed]
    rfl
  · rw [Machine.link, failed]
    exact kept.same.units

end Unbound

/-- A base that nests the link of a unit which imports a name that nobody defines. -/
def Sample.danglingBase : Module := nesting "(import \"env\" \"ghost\"(func))"

/-- At every stage of every life each import of a unit that is not one of the host's was bound to an export of the base
or of a functional unit with a smaller index. A link that finds memory and table large enough, but imports what neither
the host defines nor the symbol table binds at that moment, fails with an instantiation error, and no unit is appended. -/
theorem units_link_backwards {life : List Machine} {stage : Stage} (h : Life life stage) {p : Program}
    (hp : stage.world.program = some p) :
    (∀ u ∈ p.units, ∀ (position : Nat) (i : Import), u.module.imports[position]? = some i →
      (i.module, i.name) ∉ stage.world.config.abi.hostPairs →
      i.module = stage.world.config.abi.exportsModule ∧
      ∃ object, u.owner.import? u.module.imports position = some object ∧
        ((i.name, object) ∈ p.base.symbols ∨
          ∃ v ∈ p.units, v.index < u.index ∧ v.isFunctional = true ∧ (i.name, object) ∈ v.owner.symbols)) ∧
    ∀ (m : Machine) (module : Module) (i : Import), stage = .running m → m.passing? = some module →
      i ∈ module.imports → (i.module, i.name) ∉ m.world.config.abi.hostPairs →
      (i.module = m.world.config.abi.exportsModule → p.symbols.find? i.name = none) →
      ∃ fault m', m.step = .inl m' ∧ m'.control = .raise (.failure (.instantiation fault)) ∧
        m'.frames = m.frames ∧ m'.world.units = m.world.units := by
  constructor
  · intro u mem position i hi foreign
    obtain ⟨n, inside, rfl⟩ := List.mem_iff_getElem.1 mem
    have units : stage.world.units = p.units := by simp [World.units, hp]
    have index {k : Nat} {v : LinkedUnit} (found : p.units[k]? = some v) : v.index = k := h.index_eq (units ▸ found)
    have bound := (invariant_backwards.holds h p hp).units n _ (List.getElem?_eq_getElem inside)
    obtain ⟨exports, object, found, exported⟩ := bound position i hi foreign
    refine ⟨exports, object, found, ?_⟩
    rcases exported with based | ⟨v, earlier, functional, exported⟩
    · exact .inl based
    · obtain ⟨k, before, rfl⟩ := List.mem_take_iff_getElem.1 earlier
      have less : k < n := by omega
      refine .inr ⟨_, List.getElem_mem _, ?_, functional, exported⟩
      rw [index (List.getElem?_eq_getElem _), index (List.getElem?_eq_getElem inside)]
      exact less
  · rintro m module i rfl passing mem foreign unbound
    exact Machine.link_of_unbound h hp passing mem foreign unbound

/-- The outer unit was bound to a function of the base; the inner link finds nothing under its name and fails. -/
theorem outer_bound_inner_unbound :
    (∃ life s p u i object, Life life (.idle s) ∧ s.world.program = some p ∧ u ∈ p.units ∧
      u.module.imports[0]? = some i ∧ i.name = "nest" ∧ (i.module, i.name) ∉ s.world.config.abi.hostPairs ∧
      u.owner.import? u.module.imports 0 = some object ∧
      ((i.name, object) ∈ p.base.symbols ∨
        ∃ v ∈ p.units, v.index < u.index ∧ v.isFunctional = true ∧ (i.name, object) ∈ v.owner.symbols)) ∧
    ∃ life m p module i fault m', Life life (.running m) ∧ m.world.program = some p ∧ m.passing? = some module ∧
      i ∈ module.imports ∧ i.name = "ghost" ∧ (i.module, i.name) ∉ m.world.config.abi.hostPairs ∧
      p.symbols.find? i.name = none ∧ m.step = .inl m' ∧ m'.control = .raise (.failure (.instantiation fault)) ∧
      m'.frames = m.frames ∧ m'.world.units = m.world.units := by
  have evaluated : ((Session.load 100 {} Sample.danglingBase {}).bind fun loaded => loaded.toOption.bind fun s =>
      (s.submit 100 "").bind fun answered => answered.2.world.program.bind fun p => p.units.head?.bind fun u =>
      u.module.imports[0]?.bind fun i =>
      ((s.visited 100 "").find? fun m => m.passing?.any fun module => module.imports.any (·.name == "ghost")).bind fun m =>
      m.world.program.bind fun q => m.passing?.bind fun module => module.imports[0]?.map fun j =>
        (i.name, decide ((i.module, i.name) ∉ answered.2.world.config.abi.hostPairs), j.name,
          decide ((j.module, j.name) ∉ m.world.config.abi.hostPairs), (q.symbols.find? j.name).isNone)) =
      some ("nest", true, "ghost", true, true) := by decide +kernel
  obtain ⟨loaded, begun, evaluated⟩ := Option.bind_eq_some_iff.1 evaluated
  obtain ⟨s, ok, evaluated⟩ := Option.bind_eq_some_iff.1 evaluated
  rw [ok_of_toOption ok] at begun
  have before := Life.loaded (by decide +kernel) begun
  obtain ⟨⟨answer, s'⟩, submitted, evaluated⟩ := Option.bind_eq_some_iff.1 evaluated
  obtain ⟨p, hp, evaluated⟩ := Option.bind_eq_some_iff.1 evaluated
  obtain ⟨u, first, evaluated⟩ := Option.bind_eq_some_iff.1 evaluated
  obtain ⟨i, hi, evaluated⟩ := Option.bind_eq_some_iff.1 evaluated
  obtain ⟨m, reached, evaluated⟩ := Option.bind_eq_some_iff.1 evaluated
  obtain ⟨q, hq, evaluated⟩ := Option.bind_eq_some_iff.1 evaluated
  obtain ⟨module, passing, evaluated⟩ := Option.bind_eq_some_iff.1 evaluated
  obtain ⟨j, hj, found⟩ := Option.map_eq_some_iff.1 evaluated
  simp only [Prod.mk.injEq, decide_eq_true_eq, Option.isNone_iff_eq_none] at found
  obtain ⟨nest, own, ghost, foreign, unbound⟩ := found
  constructor
  · have after := before.submitted submitted
    have listed := List.mem_of_mem_head? first
    obtain ⟨-, object, bound, exported⟩ := (units_link_backwards after hp).1 u listed 0 i hi own
    exact ⟨_, s', p, u, i, object, after, hp, listed, hi, nest, own, bound, exported⟩
  · obtain ⟨life, h⟩ := before.of_evaluated (List.mem_of_find?_eq_some reached)
    have imported := List.mem_of_getElem? hj
    obtain ⟨fault, m', step, control, frames, units⟩ :=
      (units_link_backwards h hq).2 m module j rfl passing imported foreign fun _ => unbound
    exact ⟨life, m, q, module, j, fault, m', h, hq, passing, imported, ghost, foreign, unbound, step, control, frames,
      units⟩

end UnitHost
