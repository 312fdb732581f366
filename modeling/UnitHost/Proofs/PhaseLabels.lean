import UnitHost.Proofs.LinkRuns
import UnitHost.Proofs.Transcript

/-!
# The labels of entry phases

Each entry phase of a unit runs in a console group whose label holds a number. It is the number of units there are when
the entry points are found, while the unit gets its index when they have run; units that are linked in between come
first. `Machine.opened?` reads labels off the console, and `Machine.Pushed` says which frame a step can leave behind and
what it has recorded then. From this `invariant_labels` follows each unit from the state in which its entry points are
found to the one in which they have run: the number is its index exactly if no other unit has finished in between.
-/

namespace UnitHost

open Wasm

/-! Labels. -/

/-- The label of the group that an entry phase runs in. -/
def phaseLabel (n : Nat) (entry : String) : String := s!"unit {n} {entry}"

theorem toList_phaseLabel (n : Nat) (entry : String) :
    (phaseLabel n entry).toList = "unit ".toList ++ (Nat.toDigits 10 n ++ ' ' :: entry.toList) := by
  have text : phaseLabel n entry = "unit " ++ (Nat.repr n ++ (" " ++ entry)) := by
    rw [← String.append_assoc, ← String.append_assoc]
    rfl
  rw [text, String.toList_append, String.toList_append, String.toList_append, Nat.toList_repr]
  rfl

/-- The digits of a label end at the first blank after them. -/
theorem takeWhile_phaseLabel (n : Nat) (entry : String) :
    ((phaseLabel n entry).toList.drop 5).takeWhile Char.isDigit = Nat.toDigits 10 n := by
  have start : ("unit ".toList).length = 5 := rfl
  rw [toList_phaseLabel, ← start, List.drop_left, List.takeWhile_append_of_pos]
  · simp
  · exact fun c digit => Nat.isDigit_of_mem_toDigits (by decide) (by decide) digit

/-- Labels with different numbers are different. -/
theorem phaseLabel_inj {n n' : Nat} {entry entry' : String} (h : phaseLabel n entry = phaseLabel n' entry') : n = n' := by
  have digits : Nat.toDigits 10 n = Nat.toDigits 10 n' := by rw [← takeWhile_phaseLabel n entry, h, takeWhile_phaseLabel]
  have number (n : Nat) : Nat.ofDigitChars 10 (Nat.toDigits 10 n) 0 = n :=
    Nat.ofDigitChars_toDigits (by decide) (by decide)
  rw [← number n, digits, number]

/-- The entry phases that a unit in a state has gone into. -/
def UnitState.phases (abi : Abi) : UnitState → List String
  | failed => [abi.staticInit]
  | initialized => [abi.staticInit, abi.main]
  | executed _ => [abi.staticInit, abi.main]

theorem UnitState.staticInit_mem_phases (abi : Abi) (state : UnitState) : abi.staticInit ∈ state.phases abi := by
  cases state <;> exact List.mem_cons_self

namespace Machine

/-- The label of the group that the next step opens: that of the last entry it records. -/
def opened? (m : Machine) : Option String :=
  match m.step with
  | .inl m' =>
    match (m'.world.recorded.drop m.world.recorded.length).getLast? with
    | some (.opened _ label) => some label
    | _ => none
  | .inr _ => none

/-- The labels of the groups that are opened right above a part of the stack. -/
def openedOn (below : List Frame) (states : List Machine) : List String := toldOn opened? below states

variable {m m' : Machine} {f : Frame} {l : Linking} {below : List Frame}

theorem openedOn_own {label : String} (own : m.base = below) (opened : m.opened? = some label) :
    openedOn below [m] = [label] := by
  rw [openedOn, toldOn_own (congrArg List.length own), opened, Option.toList_some]

/-- Whatever a step records before it opens a group, it is the group that counts. -/
theorem opened?_of_openGroup {w : World} {label : String} (h : m.step = .inl m') (before : m.world.Records w)
    (opened : m'.world.journal.console = w.journal.console.openGroup label) : m.opened? = some label := by
  obtain ⟨-, new, events, -⟩ := before
  have recorded : m'.world.recorded = m.world.recorded ++ (new ++ [.opened w.journal.console.depth label]) := by
    unfold World.recorded
    rw [opened, ← List.append_assoc, ← events]
    exact Array.toList_push
  unfold opened?
  rw [h]
  dsimp only
  rw [recorded, List.drop_left, List.getLast?_concat]

/-! What a step leaves behind on the stack. -/

/-- A frame that the next step leaves behind right above what is left of the stack. -/
inductive Pushed (m : Machine) : Frame → Prop where
  | caller (a : Activation) : Pushed m (.caller a)
  | start (l : Linking) : Pushed m (.start l)
  | staticInit (l : Linking) (main : Callee) (depth : Nat) (resolved : m.resolved? = some l)
      (opened : m.opened? = some (phaseLabel m.world.units.length m.world.config.abi.staticInit)) :
      Pushed m (.staticInit l main m.world.units.length depth)
  | main (l : Linking) (callee : Callee) (next outer depth : Nat) (o : Outcome)
      (received : m.received? = some (.staticInit l callee next outer, o))
      (opened : m.opened? = some (phaseLabel next m.world.config.abi.main)) : Pushed m (.main l depth)
  | report (index : Nat) : Pushed m (.report index)

/-- A unit that is entered opens the group of its first phase. -/
theorem enterUnit_pushed (h : (m.enterUnit l).frames = f :: m.frames) :
    ∃ main, f = .staticInit l main m.world.units.length m.world.depth ∧ l.hasEntries m.world = true ∧
      (m.enterUnit l).world.journal.console =
        m.world.journal.console.openGroup (phaseLabel m.world.units.length m.world.config.abi.staticInit) := by
  obtain ⟨initializer, main, first, second, entered⟩ := enterUnit_entered h
  rw [entered] at h ⊢
  cases h
  refine ⟨main, rfl, ?_, rfl⟩
  unfold Linking.hasEntries
  rw [first, second]
  rfl

theorem link_pushed {r : LinkRequest} (link : m.link? = some r) (h : (m.link r).frames = f :: m.frames) : m.Pushed f := by
  have kept := Action.keeps_prepare r m.world
  have records : m.world.Records ((Action.prepare r).run.run m.world).2 :=
    Action.respects_linking (fun _ _ => World.records_of_timed rfl) (fun _ _ => World.records_of_timed rfl) r m.world
  have step := (step_link link).1
  have found := link_frames link
  unfold Machine.link at h step found
  rcases run : (Action.prepare r).run.run m.world with ⟨fault | l, w⟩
  · rw [run] at h
    exact not_pushed h
  · rw [run] at h kept records step found
    dsimp only at h step found
    cases start : l.module.start.bind (l.owner.funcs[·]?) with
    | some callee =>
      rw [start] at h
      cases h
      exact .start l
    | none =>
      rw [start] at h step found
      obtain ⟨main, entered, -, console⟩ := enterUnit_pushed (m := { m with world := w }) h
      have opened := opened?_of_openGroup step records console
      have units : w.units.length = m.world.units.length := congrArg List.length kept.same.units
      have names : w.config = m.world.config := kept.config
      have resolved : m.resolved? = some l := by
        dsimp only at found
        rw [h, entered] at found
        rcases found with ⟨frames, -⟩ | ⟨k, frames, -⟩ | ⟨k, callee, next, depth, frames, resolved⟩
        · exact not_pushed frames.symm
        · cases frames
        · cases frames
          exact resolved
      dsimp only at entered opened
      rw [units, names] at opened
      rw [entered, units]
      exact .staticInit l main _ resolved opened

theorem receive_pushed {g : Frame} {o : Outcome} (received : m.received? = some (g, o))
    (h : (m.pop.receive g o).frames = f :: m.pop.frames) : m.Pushed f := by
  have step := (step_received received).1
  cases g with
  | caller a => cases o <;> exact not_pushed h
  | report index => cases o <;> exact not_pushed h
  | start l =>
    cases o with
    | error r => exact not_pushed h
    | ok results =>
      obtain ⟨main, rfl, entries, console⟩ := enterUnit_pushed h
      have resolved : m.resolved? = some l := by
        unfold resolved?
        rw [link?_of_received received, received]
        exact if_pos entries
      exact .staticInit l main _ resolved (opened?_of_openGroup step (refl_of World.Records m.world) console)
  | staticInit l callee next outer =>
    cases o with
    | error r => exact not_pushed h
    | ok results =>
      unfold receive resume initialized at h step
      dsimp only at h step
      split at h
      · rename_i zero
        rw [if_pos zero] at step
        cases h
        exact .main l callee next outer _ _ received (opened?_of_openGroup step (m.records_closePhase outer) rfl)
      · exact not_pushed h
  | main l depth =>
    cases o with
    | error r => exact not_pushed h
    | ok results =>
      unfold receive resume executed at h
      dsimp only at h
      split at h
      · exact not_pushed h
      · split at h
        · exact not_pushed h
        · cases h
          exact .report _

theorem step_pushed (h : m.step = .inl m') (frames : m'.frames = f :: m.base) : m.Pushed f := by
  cases hr : m.received? with
  | some received =>
    obtain ⟨g, o⟩ := received
    rw [(step_received hr).1] at h
    cases h
    rw [base_of_received hr] at frames
    exact receive_pushed hr frames
  | none =>
    rw [base_of_unreceived hr] at frames
    cases step_taken h with
    | code a _ hc own =>
      cases own with
      | invoke a callee type =>
        cases frames
        exact .caller _
      | go c => exact not_pushed frames
      | memory address memory a le => exact not_pushed frames
      | table address table a le => exact not_pushed frames
      | global address v a => exact not_pushed frames
    | call callee args hc =>
      unfold call at frames
      split at frames
      · repeat' split at frames
        all_goals exact not_pushed frames
      · exact link_pushed (by rw [link?, hc]) frames
      · split at frames <;> exact not_pushed frames
    | resume g rest results hc hf => simp [received?, hc, hf] at hr
    | abandon g rest r hc hf => simp [received?, hc, hf] at hr

/-! From the first entry point to the last. -/

/-- The entry points of a unit are found in one state, and in the states after it the unit has gone into some phases, all
with the number of units there were in the first. -/
structure Phases (l : Linking) (entries : List String) (x : Machine) (between : List Machine) : Prop where
  resolved : x.resolved? = some l
  inside : ∀ n ∈ between, x.base.length < n.frames.length
  opened : openedOn x.base (x :: between) = entries.map (phaseLabel x.world.units.length)

/-- A unit that waits above a part of the stack has gone into phases with a number, and the units there are now are those
it counts and those that have finished since. -/
def Entered (life : List Machine) (w : World) (l : Linking) (below : List Frame) (number : Nat) (entries : List String) :
    Prop :=
  ∃ before x between, life = before ++ x :: between ∧ Phases l entries x between ∧ x.base = below ∧
    x.world.units.length = number ∧ w.units.length = number + (between.filterMap finished?).length

/-- A unit has finished and has the given index. -/
def Labelled (life : List Machine) (abi : Abi) (l : Linking) (state : UnitState) (index number : Nat) : Prop :=
  ∃ before x between y after, life = before ++ x :: (between ++ y :: after) ∧ Phases l (state.phases abi) x between ∧
    x.world.units.length = number ∧ y.finished? = some (l, state) ∧ y.base = x.base ∧
    index = number + (between.filterMap finished?).length

section Entered

variable {life : List Machine} {w w' : World} {number index : Nat} {entries more : List String} {abi : Abi} {state : UnitState}

theorem entered_of_resolved (resolved : m.resolved? = some l)
    (opened : m.opened? = some (phaseLabel m.world.units.length abi.staticInit))
    (units : w.units.length = m.world.units.length) :
    Entered (life ++ [m]) w l m.base m.world.units.length [abi.staticInit] :=
  ⟨life, m, [], rfl, ⟨resolved, by simp, openedOn_own rfl opened⟩, rfl, rfl, units⟩

/-- One more state while the unit waits: it goes into the phases that are opened for it. -/
theorem Entered.concat (h : Entered life m.world l below number entries) (inside : below.length < m.frames.length)
    (opened : openedOn below [m] = more.map (phaseLabel number))
    (units : w.units.length = m.world.units.length + m.finished?.toList.length) :
    Entered (life ++ [m]) w l below number (entries ++ more) := by
  obtain ⟨before, x, between, rfl, phases, rfl, rfl, count⟩ := h
  refine ⟨before, x, between ++ [m], by simp, ⟨phases.resolved, ?_, ?_⟩, rfl, rfl, ?_⟩
  · intro n mem
    rcases List.mem_append.1 mem with earlier | last
    · exact phases.inside n earlier
    · rw [List.mem_singleton.1 last]
      exact inside
  · have split : openedOn x.base (x :: between ++ [m]) = openedOn x.base (x :: between) ++ openedOn x.base [m] :=
      toldOn_append opened? x.base (x :: between) [m]
    rw [← List.cons_append, split, phases.opened, opened, List.map_append]
  · rw [units, count, List.filterMap_append]
    cases finished : m.finished? with
    | none => simp [finished]
    | some entry =>
      simp only [Option.toList_some, List.length_singleton, List.filterMap_cons, finished, List.filterMap_nil,
        List.length_append]
      omega

theorem Entered.labelled (h : Entered life m.world l m.base number (state.phases abi))
    (finished : m.finished? = some (l, state)) : Labelled (life ++ [m]) abi l state m.world.units.length number := by
  obtain ⟨before, x, between, rfl, phases, base, units, count⟩ := h
  exact ⟨before, x, between, m, [], by simp, phases, units, finished, base.symm, count⟩

theorem Labelled.append (h : Labelled life abi l state index number) (later : List Machine) :
    Labelled (life ++ later) abi l state index number := by
  obtain ⟨before, x, between, y, after, rfl, rest⟩ := h
  exact ⟨before, x, between, y, after ++ later, by simp, rest⟩

end Entered

end Machine

/-- What the states so far say of a frame in which a unit waits for an entry point. -/
def Frame.Origin (life : List Machine) (w : World) (below : List Frame) : Frame → Prop
  | .staticInit l _ next _ => Machine.Entered life w l below next [w.config.abi.staticInit]
  | .main l _ => ∃ number, Machine.Entered life w l below number [w.config.abi.staticInit, w.config.abi.main]
  | _ => True

namespace Machine

variable {m m' : Machine} {f : Frame} {l : Linking} {below rest : List Frame} {life : List Machine} {state : UnitState}

/-- A unit whose entry points are found has not finished. -/
theorem finished?_of_resolved (h : m.resolved? = some l) : m.finished? = none := by
  unfold finished?
  cases hr : m.received? with
  | none => rfl
  | some received =>
    obtain ⟨g, o⟩ := received
    unfold resolved? at h
    rw [link?_of_received hr, hr] at h
    cases g with
    | start k => cases o <;> rfl
    | caller a => cases h
    | staticInit k main next depth => cases h
    | main k depth => cases h
    | report index => cases h

/-- A frame that a step leaves where it is keeps its origin. -/
theorem origin_of_above (h : f.Origin life m.world below) (frames : m.base = rest ++ f :: below)
    (config : m'.world.config = m.world.config) (inside : below.length < m.frames.length)
    (units : m'.world.units.length = m.world.units.length + m.finished?.toList.length) :
    f.Origin (life ++ [m]) m'.world below := by
  have quiet : openedOn below [m] = [] := toldOn_above (by rw [frames, List.length_append, List.length_cons]; omega)
  have same {k : Linking} {number : Nat} {entries : List String} (h : Entered life m.world k below number entries) :
      Entered (life ++ [m]) m'.world k below number entries := by
    have concat : Entered (life ++ [m]) m'.world k below number (entries ++ []) := h.concat inside quiet units
    rwa [List.append_nil] at concat
  cases f with
  | staticInit k main next depth =>
    unfold Frame.Origin at h ⊢
    rw [config]
    exact same h
  | main k depth =>
    obtain ⟨number, h⟩ := h
    refine ⟨number, ?_⟩
    rw [config]
    exact same h
  | caller a => trivial
  | start k => trivial
  | report index => trivial

/-- A frame that a step leaves behind has the states so far as its origin. -/
theorem origin_of_pushed (h : m.Pushed f) (config : m'.world.config = m.world.config)
    (units : m'.world.units.length = m.world.units.length + m.finished?.toList.length)
    (origins : ∀ above g below, m.frames = above ++ g :: below → g.Origin life m.world below) :
    f.Origin (life ++ [m]) m'.world m.base := by
  cases h with
  | staticInit l main depth resolved opened =>
    have quiet : m.finished? = none := finished?_of_resolved resolved
    unfold Frame.Origin
    rw [config]
    exact entered_of_resolved resolved opened (by rw [units, quiet]; rfl)
  | main l callee next outer depth o received opened =>
    have frames := (step_received received).2
    have origin : Entered life m.world l m.pop.frames next [m.world.config.abi.staticInit] :=
      origins [] _ m.pop.frames frames
    refine ⟨next, ?_⟩
    rw [config, base_of_received received]
    exact origin.concat (by rw [frames]; exact Nat.lt_succ_self _)
      (openedOn_own (base_of_received received) opened) units
  | caller a => trivial
  | start l => trivial
  | report index => trivial

end Machine

theorem World.length_entries (w : World) : w.entries.length = w.units.length := List.length_map _

/-- The frame of a unit that finishes has its phases as origin. -/
theorem Frame.Origin.labelled {f : Frame} {o : Outcome} {life : List Machine} {m : Machine} {l : Linking}
    {state : UnitState} (h : f.Origin life m.world m.base) (received : m.received? = some (f, o))
    (finished : m.finished? = some (l, state)) :
    ∃ number, Machine.Labelled (life ++ [m]) m.world.config.abi l state m.world.units.length number := by
  have own : f.finished? o = some (l, state) := by
    unfold Machine.finished? at finished
    rwa [received] at finished
  cases f with
  | staticInit k main next depth =>
    have failed : k = l ∧ UnitState.failed = state := by
      cases o with
      | error r => simpa [Frame.finished?] using own
      | ok results =>
        unfold Frame.finished? at own
        dsimp only at own
        split at own
        · cases own
        · cases own
          exact ⟨rfl, rfl⟩
    obtain ⟨rfl, rfl⟩ := failed
    exact ⟨next, Machine.Entered.labelled h finished⟩
  | main k depth =>
    obtain ⟨number, h⟩ := h
    cases o with
    | error r =>
      cases own
      exact ⟨number, Machine.Entered.labelled h finished⟩
    | ok results =>
      cases own
      exact ⟨number, Machine.Entered.labelled h finished⟩
  | caller a => cases own
  | start k => cases own
  | report index => cases own

/-- In every state the units and the frames that wait for entry points go back to the states in which they were found. -/
theorem invariant_labels : Invariant fun life w frames =>
    (∀ (i : Nat) (l : Linking) (state : UnitState), w.entries[i]? = some (l, state) →
      ∃ number, Machine.Labelled life w.config.abi l state i number) ∧
    ∀ (above : List Frame) (f : Frame) (below : List Frame), frames = above ++ f :: below → f.Origin life w below where
  unplaced := by
    intro w empty
    exact ⟨by simp [World.entries, World.units, empty], by simp⟩
  placed := by
    intro engine base w p valid placed
    exact ⟨by simp [World.entries, World.units, placed.program, placed.units], by simp⟩
  step := by
    rintro life m m' lived ⟨labelled, origins⟩ h
    have config := Machine.step_config h
    have entries := Machine.step_entries h (invariant_entries.holds lived).2
    have units : m'.world.units.length = m.world.units.length + m.finished?.toList.length := by
      rw [← World.length_entries, ← World.length_entries, entries, List.length_append]
    refine ⟨fun i l state found => ?_, fun above f below split => ?_⟩
    · rw [config]
      rw [entries] at found
      rcases Nat.lt_or_ge i m.world.entries.length with old | new
      · rw [List.getElem?_append_left old] at found
        obtain ⟨number, labelled⟩ := labelled i l state found
        exact ⟨number, labelled.append [m]⟩
      · rw [List.getElem?_append_right new] at found
        obtain ⟨inside, last⟩ := List.getElem?_eq_some_iff.1 found
        cases finished : m.finished? with
        | none => simp [finished] at inside
        | some entry =>
          simp only [finished, Option.toList_some, List.length_singleton] at inside
          have position : i = m.world.units.length := by rw [← World.length_entries]; omega
          obtain rfl : entry = (l, state) := by simpa [finished] using last
          obtain ⟨⟨f, o⟩, received, -⟩ := Option.bind_eq_some_iff.1 finished
          have origin := origins [] f m.pop.frames (Machine.step_received received).2
          rw [← Machine.base_of_received received] at origin
          rw [position]
          exact origin.labelled received finished
    · have older {rest : List Frame} (frames : m.base = rest ++ f :: below) : f.Origin (life ++ [m]) m'.world below := by
        obtain ⟨rest', whole⟩ : ∃ rest', m.frames = rest' ++ f :: below := by
          cases hr : m.received? with
          | none => exact ⟨rest, (Machine.base_of_unreceived hr).symm.trans frames⟩
          | some received =>
            rw [Machine.base_of_received hr] at frames
            exact ⟨received.1 :: rest, by rw [(Machine.step_received hr).2, frames]; rfl⟩
        refine Machine.origin_of_above (origins rest' f below whole) frames config ?_ units
        rw [whole, List.length_append, List.length_cons]
        omega
      rcases Machine.step_base h with same | ⟨g, pushed⟩
      · exact older (same.symm.trans split)
      · rw [pushed] at split
        cases above with
        | nil =>
          obtain ⟨rfl, rfl⟩ := List.cons.inj split
          exact Machine.origin_of_pushed (Machine.step_pushed h pushed) config units origins
        | cons first rest => exact older (List.cons.inj split).2
  ended := by
    rintro life m outcome ⟨labelled, -⟩ ended
    refine ⟨fun i l state found => ?_, by simp⟩
    obtain ⟨number, labelled⟩ := labelled i l state found
    exact ⟨number, labelled.append [m]⟩
  outside := by
    rintro life w w' ⟨labelled, -⟩ same
    rw [same.entries, same.config]
    exact ⟨labelled, by simp⟩

/-- At every stage of every life each unit has a number, that of the units there were when its entry points were found.
The groups that its phases ran in are labelled with it. It is the index of the unit exactly if no other unit finished in
between, and two units share a label exactly if they have the same number. -/
theorem phases_labelled_by_earlier_units {life : List Machine} {stage : Stage} (h : Life life stage) :
    ∃ number : Nat → Nat,
      (∀ (i : Nat) (u : LinkedUnit), stage.world.units[i]? = some u → u.index = i ∧
        ∃ before x between y after, life = before ++ x :: (between ++ y :: after) ∧
          x.resolved? = some u.toLinking ∧ y.finished? = some (u.toLinking, u.state) ∧ y.base = x.base ∧
          (∀ n ∈ between, x.base.length < n.frames.length) ∧ x.world.units.length = number i ∧
          Machine.openedOn x.base (x :: between) =
            (u.state.phases stage.world.config.abi).map (phaseLabel (number i)) ∧
          u.index = number i + (between.filterMap Machine.finished?).length ∧
          (Machine.openedOn x.base (x :: between) = (u.state.phases stage.world.config.abi).map (phaseLabel u.index) ↔
            between.filterMap Machine.finished? = [])) ∧
      ∀ (i j : Nat) (u v : LinkedUnit), stage.world.units[i]? = some u → stage.world.units[j]? = some v →
        ((∃ label ∈ (u.state.phases stage.world.config.abi).map (phaseLabel (number i)),
          label ∈ (v.state.phases stage.world.config.abi).map (phaseLabel (number j))) ↔ number i = number j) := by
  have numbered (i : Nat) : ∃ number, ∀ u, stage.world.units[i]? = some u →
      Machine.Labelled life stage.world.config.abi u.toLinking u.state i number := by
    cases found : stage.world.units[i]? with
    | none => exact ⟨0, nofun⟩
    | some u =>
      have entry : stage.world.entries[i]? = some (u.toLinking, u.state) := by simp [World.entries, found]
      obtain ⟨number, labelled⟩ := (invariant_labels.holds h).1 i u.toLinking u.state entry
      refine ⟨number, fun v same => ?_⟩
      cases same
      exact labelled
  obtain ⟨number, labelled⟩ := Classical.skolem.1 numbered
  refine ⟨number, fun i u found => ⟨h.index_eq found, ?_⟩, fun i j u v hu hv => ⟨?_, fun same => ?_⟩⟩
  · obtain ⟨before, x, between, y, after, states, phases, units, finished, base, index⟩ := labelled i u found
    have opened := phases.opened
    rw [units] at opened
    refine ⟨before, x, between, y, after, states, phases.resolved, finished, base, phases.inside, units, opened,
      (h.index_eq found).trans index, ?_⟩
    rw [opened, h.index_eq found]
    constructor
    · intro same
      have member := List.mem_map_of_mem (f := phaseLabel (number i))
        (UnitState.staticInit_mem_phases stage.world.config.abi u.state)
      rw [same] at member
      obtain ⟨entry, -, label⟩ := List.mem_map.1 member
      have none : (between.filterMap Machine.finished?).length = 0 := by
        have number := phaseLabel_inj label
        omega
      exact List.length_eq_zero_iff.1 none
    · intro none
      rw [none, List.length_nil, Nat.add_zero] at index
      rw [← index]
  · rintro ⟨label, first, second⟩
    obtain ⟨entry, -, rfl⟩ := List.mem_map.1 first
    obtain ⟨entry', -, same⟩ := List.mem_map.1 second
    exact (phaseLabel_inj same).symm
  · have member (u : LinkedUnit) : phaseLabel (number i) stage.world.config.abi.staticInit ∈
        (u.state.phases stage.world.config.abi).map (phaseLabel (number i)) :=
      List.mem_map_of_mem (u.state.staticInit_mem_phases _)
    exact ⟨_, member u, same ▸ member v⟩

/-- A unit that links another one from its main entry point is second in the list; both have the number zero. -/
theorem nested_units_share_labels : ∃ life s u v x between y,
    Life life (.idle s) ∧ s.world.units = [u, v] ∧ x ∈ life ∧ y ∈ life ∧ x.resolved? = some v.toLinking ∧
    y.finished? = some (v.toLinking, v.state) ∧ v.index = 1 ∧
    Machine.openedOn x.base (x :: between) = (v.state.phases s.world.config.abi).map (phaseLabel 0) ∧
    Machine.openedOn x.base (x :: between) ≠ (v.state.phases s.world.config.abi).map (phaseLabel v.index) ∧
    ∃ label ∈ (u.state.phases s.world.config.abi).map (phaseLabel 0),
      label ∈ (v.state.phases s.world.config.abi).map (phaseLabel 0) := by
  have evaluated : (Session.traced 100 Sample.nestingBase "").map (fun (life, s) =>
      (s.world.units.length, life.all fun x => x.resolved?.isNone || x.world.units.length == 0)) = some (2, true) := by
    decide +kernel
  obtain ⟨⟨life, s⟩, traced, found⟩ := Option.map_eq_some_iff.1 evaluated
  obtain ⟨count, first⟩ := Prod.mk.inj found
  have h := Life.traced (by decide +kernel) traced
  obtain ⟨u, v, units⟩ := List.length_eq_two.1 count
  obtain ⟨number, labelled, shared⟩ := phases_labelled_by_earlier_units h
  have zero {i : Nat} {x : Machine} {l : Linking} (mem : x ∈ life) (resolved : x.resolved? = some l)
      (units : x.world.units.length = number i) : number i = 0 := by
    have none := List.all_eq_true.1 first x mem
    rw [resolved] at none
    rw [← units]
    simpa using none
  have hu : (Stage.idle s).world.units[0]? = some u := by rw [Stage.world, units]; rfl
  have hv : (Stage.idle s).world.units[1]? = some v := by rw [Stage.world, units]; rfl
  obtain ⟨-, _, x, _, _, _, states, resolved, -, -, -, counted, -⟩ := labelled 0 u hu
  have own := zero (by simp [states]) resolved counted
  obtain ⟨index, _, x, between, y, _, states, resolved, finished, -, -, counted, opened, later, alone⟩ := labelled 1 v hv
  have other := zero (by simp [states]) resolved counted
  have sharing := (shared 0 1 u v hu hv).2 (own.trans other.symm)
  rw [own, other] at sharing
  rw [other] at opened later
  refine ⟨life, s, u, v, x, between, y, h, units, by simp [states], by simp [states], resolved, finished, index, opened,
    fun same => ?_, sharing⟩
  rw [alone.1 same, index] at later
  cases later

end UnitHost
