import Mathlib.Data.List.Chain
import UnitHost.Proofs.Lives

/-!
# The order of unit bases

A link reads the bases of the latest unit when it begins and appends its own unit when its entry
points have run. Links made in between append their units first, so the unit just before another
need not be the one it was checked against. A `Ledger` remembers, for each running link and each
unit, how many units there were when the link began; `Ledger.Fits` says what the check gives then.
Bases are in order exactly as far as units that were overtaken in this way allow.
-/

namespace UnitHost

open Wasm

/-- How many units there were when a link began: for each link still running, innermost first, and for
each unit, in order. -/
structure Ledger where
  running : List Nat := []
  begun : List Nat := []

namespace Ledger

/-- What the step taken from a state adds: a link that begins is entered, one that ends is struck out,
and its entry goes to its unit if it appended one. -/
def record (l : Ledger) (m : Machine) : Ledger :=
  match m.step with
  | .inr _ => l
  | .inl m' =>
    if m.linking.length < m'.linking.length then
      { l with running := m.world.units.length :: l.running }
    else if m'.linking.length < m.linking.length then
      { running := l.running.tail
        begun := if m.world.units.length < m'.world.units.length then l.begun ++ l.running.take 1 else l.begun }
    else l

/-- The ledger of a life. -/
def of (life : List Machine) : Ledger := life.foldl record {}

theorem of_concat (life : List Machine) (m : Machine) : of (life ++ [m]) = (of life).record m := by
  simp [of]

section Record

variable {l : Ledger} {m m' : Machine} {outcome : Outcome} (h : m.step = .inl m')

theorem record_ended (h : m.step = .inr outcome) : l.record m = l := by
  unfold record
  rw [h]

include h

theorem record_same (linking : m'.linking = m.linking) : l.record m = l := by
  simp [record, h, linking]

theorem record_began {k : Linking} (linking : m'.linking = k :: m.linking) :
    l.record m = { l with running := m.world.units.length :: l.running } := by
  simp [record, h, linking]

theorem record_dropped {k : Linking} (linking : m.linking = k :: m'.linking)
    (units : m'.world.units = m.world.units) : l.record m = { l with running := l.running.tail } := by
  have fewer : ¬ m'.linking.length + 1 < m'.linking.length := by omega
  simp [record, h, linking, units, fewer]

theorem record_appended {k : Linking} {u : LinkedUnit} (linking : m.linking = k :: m'.linking)
    (units : m'.world.units = m.world.units ++ [u]) :
    l.record m = { running := l.running.tail, begun := l.begun ++ l.running.take 1 } := by
  have fewer : ¬ m'.linking.length + 1 < m'.linking.length := by omega
  simp [record, h, linking, units, fewer]

end Record

end Ledger

/-- Both bases are at least those of the other unit. -/
def Linking.Above (l l' : Linking) : Prop := l'.memoryBase ≤ l.memoryBase ∧ l'.tableBase ≤ l.tableBase

/-- Both bases are at least those of the last of some units. -/
def Linking.AboveLast (l : Linking) (units : List LinkedUnit) : Prop :=
  ∀ u ∈ units.getLast?, l.Above u.toLinking

theorem checkBase_ok {region : Region} {requested : Int32} {previous n : Nat}
    (h : checkBase region requested previous = .ok n) : previous ≤ n := by
  unfold checkBase at h
  split at h
  · rename_i accepted
    cases h
    exact accepted.2
  · cases h

theorem LinkRequest.checkBases_ok {r : LinkRequest} {previous : Nat × Nat} {memoryBase tableBase : Nat}
    (h : r.checkBases previous = .ok (memoryBase, tableBase)) :
    previous.1 ≤ memoryBase ∧ previous.2 ≤ tableBase := by
  unfold checkBases at h
  cases hm : checkBase .memory r.memoryBase previous.1 with
  | error f => rw [hm] at h; cases h
  | ok memory =>
    cases ht : checkBase .table r.tableBase previous.2 with
    | error f => rw [hm, ht] at h; cases h
    | ok table =>
      rw [hm, ht] at h
      cases h
      exact ⟨checkBase_ok hm, checkBase_ok ht⟩

/-- A link is checked against the latest unit. -/
theorem LinkRequest.Prepared.aboveLast {r : LinkRequest} {w : World} {p : Program} {l : Linking}
    (prepared : r.Prepared w p l) : l.AboveLast p.units := by
  have bases := prepared.bases
  intro u last
  have floor : p.floor = (u.memoryBase, u.tableBase) := by
    unfold Program.floor
    rw [Option.mem_def.1 last]
  rw [floor] at bases
  exact LinkRequest.checkBases_ok bases

namespace Ledger

/-- Each running link and each unit was checked against the units there were when its link began. -/
structure Fits (l : Ledger) (units : List LinkedUnit) (linking : List Linking) : Prop where
  running : List.Forall₂ (fun n k => n ≤ units.length ∧ k.AboveLast (units.take n)) l.running linking
  length : l.begun.length = units.length
  begun : ∀ {i n : Nat} {u : LinkedUnit}, l.begun[i]? = some n → units[i]? = some u →
    n ≤ i ∧ u.AboveLast (units.take n)

variable {l : Ledger} {units : List LinkedUnit} {linking : List Linking} {k : Linking}

theorem Fits.began (h : l.Fits units linking) (above : k.AboveLast units) :
    { l with running := units.length :: l.running : Ledger}.Fits units (k :: linking) where
  running := .cons ⟨Nat.le_refl _, by rwa [List.take_length]⟩ h.running
  length := h.length
  begun := h.begun

theorem Fits.dropped (h : l.Fits units (k :: linking)) :
    { l with running := l.running.tail : Ledger}.Fits units linking where
  running := by
    obtain ⟨n, rest, -, others, same⟩ := List.forall₂_cons_right_iff.1 h.running
    rw [same]
    exact others
  length := h.length
  begun := h.begun

theorem Fits.appended (h : l.Fits units (k :: linking)) {u : LinkedUnit} (same : u.toLinking = k) :
    { running := l.running.tail, begun := l.begun ++ l.running.take 1 : Ledger }.Fits (units ++ [u]) linking := by
  obtain ⟨n, rest, ⟨le, above⟩, others, running⟩ := List.forall₂_cons_right_iff.1 h.running
  have earlier {n : Nat} (le : n ≤ units.length) : (units ++ [u]).take n = units.take n :=
    List.take_append_of_le_length le
  rw [running, List.tail_cons, List.take_one, List.head?_cons, Option.toList_some]
  refine ⟨?_, by simp [h.length], ?_⟩
  · refine others.imp fun n k ⟨le, above⟩ => ⟨?_, ?_⟩
    · rw [List.length_append]; omega
    · rwa [earlier le]
  · intro i m v begun unit
    rcases Nat.lt_or_ge i units.length with old | new
    · rw [List.getElem?_append_left (by rw [h.length]; exact old)] at begun
      rw [List.getElem?_append_left old] at unit
      obtain ⟨bound, above⟩ := h.begun begun unit
      exact ⟨bound, by rwa [earlier (by omega)]⟩
    · rw [List.getElem?_append_right (by rw [h.length]; exact new), h.length] at begun
      rw [List.getElem?_append_right new] at unit
      obtain ⟨at_end, rfl⟩ := List.getElem?_eq_some_iff.1 unit
      have last : i - units.length = 0 := by simpa using at_end
      simp only [last, List.getElem?_cons_zero, Option.some.injEq] at begun
      subst begun
      refine ⟨by omega, ?_⟩
      simp only [last, List.getElem_cons_zero]
      rwa [earlier le, same]

/-- The ledger fits through a step that ends a link with its unit appended. Before there is a program
nothing is appended. -/
theorem Fits.ended {m m' : Machine} {w : World} {state : UnitState} (h : l.Fits m.world.units m.linking)
    (step : m.step = .inl m') (linking : m.linking = k :: m'.linking)
    (before : w.units = m.world.units) (kept : World.SameProgram (w.append k state).2 m'.world) :
    (l.record m).Fits m'.world.units m'.linking := by
  rw [linking] at h
  have after : m'.world.units = (w.append k state).2.units := by unfold World.units; rw [kept.program]
  cases hp : w.program with
  | none =>
    have units : m'.world.units = m.world.units := by
      rw [after, ← before]
      simp [World.units, World.append, World.updateProgram, hp]
    rw [record_dropped step linking units, units]
    exact h.dropped
  | some p =>
    have units : m'.world.units = m.world.units ++ [{ k with index := p.units.length, state }] := by
      rw [after, ← before]
      simp [World.units, World.append, World.updateProgram, Program.append, hp]
    rw [record_appended step linking units, units]
    exact h.appended rfl

end Ledger

/-- In every state the ledger of the life so far fits. -/
theorem invariant_ledger : Invariant fun life w frames =>
    (Ledger.of life).Fits w.units (frames.filterMap Frame.linking?) where
  unplaced := by
    intro w empty
    have none : w.units = [] := by simp [World.units, empty]
    rw [none]
    exact ⟨.nil, rfl, by simp⟩
  placed := by
    intro engine base w p valid placed
    have none : w.units = [] := by simp [World.units, placed.program, placed.units]
    rw [none]
    exact ⟨.nil, rfl, by simp⟩
  step := by
    intro life m m' _ fits step
    rw [Ledger.of_concat]
    change (Ledger.of life).Fits m.world.units m.linking at fits
    change ((Ledger.of life).record m).Fits m'.world.units m'.linking
    cases Machine.step_change step with
    | still quiet still =>
      rw [Ledger.record_same step still.linking, still.kept.same.units, still.linking]
      exact fits
    | posted r posted world linking =>
      rw [Ledger.record_same step linking, world, (World.same_post m.world r).units, linking]
      exact fits
    | began r p l quiet prepared kept linking =>
      have units : m.world.units = p.units := by simp [World.units, prepared.program]
      rw [Ledger.record_began step linking, kept.same.units, linking]
      exact fits.began (by rw [units]; exact prepared.aboveLast)
    | dropped l quiet kept linking =>
      rw [Ledger.record_dropped step linking kept.same.units, kept.same.units]
      rw [linking] at fits
      exact fits.dropped
    | appended l state quiet unfinished kept linking => exact fits.ended step linking rfl kept.same
    | executed l value quiet kept linking =>
      have units : (m.world.publish l.owner.symbols).units = m.world.units := by
        have bound := (World.kept_publish m.world l.owner.symbols).same.units
        rw [bound]
        cases hp : m.world.program <;> simp [World.units, World.updateProgram, hp]
      exact fits.ended step linking units kept.same
  ended := by
    intro life m outcome fits ended
    rw [Machine.frames_of_ended ended] at fits
    rw [Ledger.of_concat, Ledger.record_ended ended]
    exact fits
  outside := by
    intro life w w' fits same
    rw [same.units]
    exact fits

/-- Neither base decreases from one unit to the other. -/
def LinkedUnit.Precedes (u v : LinkedUnit) : Prop := v.toLinking.Above u.toLinking

instance : Trans LinkedUnit.Precedes LinkedUnit.Precedes LinkedUnit.Precedes where
  trans h h' := ⟨h.1.trans h'.1, h.2.trans h'.2⟩

/-- The bases of units never decrease. -/
def InOrder (units : List LinkedUnit) : Prop := units.Pairwise LinkedUnit.Precedes

/-- Every unit was checked against the last unit there was when its link began. So the bases of the
units are in order exactly if no unit is below one that overtook it: that was appended just before
it, while its link was running. -/
theorem bases_in_order_iff {life : List Machine} {stage : Stage} (h : Life life stage) :
    (Ledger.of life).begun.length = stage.world.units.length ∧
      (∀ {i n : Nat} {u : LinkedUnit}, (Ledger.of life).begun[i]? = some n → stage.world.units[i]? = some u →
        n ≤ i ∧ u.AboveLast (stage.world.units.take n)) ∧
      (InOrder stage.world.units ↔ ∀ {i n : Nat} {u v : LinkedUnit},
        (Ledger.of life).begun[i + 1]? = some n → n ≤ i →
          stage.world.units[i]? = some u → stage.world.units[i + 1]? = some v → u.Precedes v) := by
  have fits := invariant_ledger.holds h
  refine ⟨fits.length, fits.begun, ?_⟩
  unfold InOrder
  rw [← List.isChain_iff_pairwise, List.isChain_iff_getElem]
  constructor
  · intro ordered i n u v _ _ hu hv
    obtain ⟨_, rfl⟩ := List.getElem?_eq_some_iff.1 hu
    obtain ⟨next, rfl⟩ := List.getElem?_eq_some_iff.1 hv
    exact ordered i next
  · intro overtaken i next
    have entry : i + 1 < (Ledger.of life).begun.length := by rw [fits.length]; exact next
    have found := List.getElem?_eq_getElem entry
    have hu := List.getElem?_eq_getElem (Nat.lt_of_succ_lt next)
    have hv := List.getElem?_eq_getElem next
    obtain ⟨le, above⟩ := fits.begun found hv
    rcases Nat.lt_or_ge i (Ledger.of life).begun[i + 1] with present | absent
    · -- The unit before was there when the link began, so it is the one checked against.
      have last : (Ledger.of life).begun[i + 1] = i + 1 := by omega
      refine above _ ?_
      rw [last, Option.mem_def, List.getLast?_take, if_neg (Nat.succ_ne_zero i), Nat.add_sub_cancel, hu,
        Option.some_or]
    · exact overtaken found absent hu hv

/-- Bases need not be in order. -/
theorem nested_bases_out_of_order : ∃ life s, Life life (.idle s) ∧ ¬ InOrder s.world.units := by
  obtain ⟨life, s, h, bases, -⟩ := Sample.nested
  refine ⟨life, s, h, fun ordered => ?_⟩
  have mapped : [(2048, 2), (1024, 1)].Pairwise fun b c : Nat × Nat => b.1 ≤ c.1 ∧ b.2 ≤ c.2 := by
    rw [← bases, List.pairwise_map]
    exact ordered
  exact absurd mapped (by decide)

/-- The unit that is out of order was overtaken. -/
theorem nested_unit_overtaken : ∃ life s, Life life (.idle s) ∧ ∃ i n u v,
    (Ledger.of life).begun[i + 1]? = some n ∧ n ≤ i ∧ s.world.units[i]? = some u ∧
      s.world.units[i + 1]? = some v ∧ ¬ u.Precedes v := by
  obtain ⟨life, s, h, disordered⟩ := nested_bases_out_of_order
  obtain ⟨-, -, ordered⟩ := bases_in_order_iff h
  refine ⟨life, s, h, by_contra fun none => disordered (ordered.2 fun {i n u v} begun le hu hv => ?_)⟩
  by_contra below
  exact none ⟨i, n, u, v, begun, le, hu, hv, below⟩

end UnitHost
