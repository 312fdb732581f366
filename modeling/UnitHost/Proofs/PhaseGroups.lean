import UnitHost.Proofs.ConsoleSteps
import UnitHost.Proofs.FailurePaths

/-!
# The groups of entry phases

An entry phase goes on from the step that leaves its frame on the stack to the step that takes the frame away again; the
states in between have more on the stack. Two things are followed along these states. The frame stays where it is, so it
is this frame that receives the outcome, whatever the code did, and closes the groups that are open beyond those the phase
began with. And as long as the group of the phase is not closed, all entries lie inside it: `Machine.Confined`, which has to
know of the phases further up that they began inside the group as well.
-/

namespace UnitHost

open Wasm

/-- An entry lies inside a group that was opened at a depth. A mark has no depth. -/
def Event.Inside (depth : Nat) : Event → Prop
  | .message _ inner _ | .opened inner _ | .closed inner => depth < inner
  | .mark .. => True

namespace Console

variable {c c' c'' : Console} {depth : Nat}

/-- All entries that the later console has in addition lie inside a group. -/
def Within (depth : Nat) (c c' : Console) : Prop :=
  ∃ new, c'.events.toList = c.events.toList ++ new ∧ ∀ e ∈ new, e.Inside depth

theorem Within.refl (depth : Nat) (c : Console) : c.Within depth c := ⟨[], (List.append_nil _).symm, by simp⟩

theorem Within.trans (h : c.Within depth c') (h' : c'.Within depth c'') : c.Within depth c'' := by
  obtain ⟨new, events, inside⟩ := h
  obtain ⟨more, events', inside'⟩ := h'
  refine ⟨new ++ more, by rw [events', events, List.append_assoc], ?_⟩
  intro e mem
  rcases List.mem_append.1 mem with first | second
  · exact inside e first
  · exact inside' e second

/-- An entry made while a group is open, and that does not close it, lies inside. -/
theorem Adds.within (h : c.Adds c') (before : depth < c.depth) (after : depth < c'.depth) : c.Within depth c' := by
  cases h with
  | nothing => exact .refl depth c
  | entry e inner replays =>
    refine ⟨[e], Array.toList_push, ?_⟩
    intro e' mem
    rw [List.mem_singleton.1 mem]
    cases e with
    | mark name elapsed => trivial
    | message channel here text =>
      simp only [Event.replay, Option.ite_none_right_eq_some] at replays
      show depth < here
      omega
    | opened here label =>
      simp only [Event.replay, Option.ite_none_right_eq_some] at replays
      show depth < here
      omega
    | closed here =>
      simp only [Event.replay, Option.ite_none_right_eq_some, Option.some.injEq] at replays
      show depth < here
      have left : depth < inner := after
      omega

/-- The end of a phase that began inside a group lies inside. -/
theorem leave_within (c : Console) (complaint : Option String) {outer : Nat} (before : depth < c.depth)
    (began : depth < outer) : c.Within depth (c.leave complaint outer) := by
  refine ⟨_, (events_leave c complaint outer).trans (List.append_assoc _ _ _), ?_⟩
  intro e mem
  rcases List.mem_append.1 mem with said | closed
  · obtain ⟨text, -, rfl⟩ := List.mem_map.1 said
    exact before
  · obtain ⟨inner, low, -, rfl⟩ := mem_closings.1 closed
    exact Nat.lt_of_lt_of_le began low

/-- If all entries since the group of a phase was opened lie inside it, its end is the last one. -/
theorem leave_closes {label : String} (h : (c.openGroup label).Within c.depth c') (complaint : Option String)
    (before : c.depth < c'.depth) :
    ∃ inner, (∀ e ∈ inner, e.Inside c.depth) ∧ (c'.leave complaint c.depth).events.toList =
      c.events.toList ++ .opened c.depth label :: (inner ++ [.closed c.depth]) := by
  obtain ⟨inner, events, inside⟩ := h.trans (leave_within c' complaint before (Nat.lt_succ_self _))
  refine ⟨inner, inside, ?_⟩
  rw [events_leave, closings_concat before, ← List.append_assoc, ← events_leave, events, events_openGroup]
  simp

end Console

namespace Machine

variable {m m' n n' x x' y : Machine} {f : Frame} {o : Outcome} {below above : List Frame} {depth : Nat}
  {between : List Machine}

/-! From the beginning of a phase to its end. -/

/-- The frame of the entry phase that the next step goes into. -/
def entry? (m : Machine) : Option Frame :=
  match m.step with
  | .inl m' => if m.base.length < m'.frames.length then m'.frames.head?.filter (·.phase?.isSome) else none
  | .inr _ => none

theorem entry?_eq_some (h : m.entry? = some f) :
    ∃ m' depth, m.step = .inl m' ∧ m'.frames = f :: m.base ∧ f.phase? = some depth := by
  unfold entry? at h
  cases step : m.step with
  | inr outcome => rw [step] at h; cases h
  | inl m' =>
    rw [step] at h
    obtain ⟨more, h⟩ := Option.ite_none_right_eq_some.1 h
    obtain ⟨first, phase⟩ := Option.filter_eq_some_iff.1 h
    obtain ⟨depth, phase⟩ := Option.isSome_iff_exists.1 phase
    refine ⟨m', depth, rfl, ?_, phase⟩
    rcases step_base step with same | ⟨g, pushed⟩
    · rw [same] at more
      exact absurd more (Nat.lt_irrefl _)
    · rw [pushed] at first ⊢
      cases first
      rfl

/-- The states in which an entry phase goes on, among those after its beginning. -/
def during (m : Machine) (later : List Machine) : List Machine :=
  later.takeWhile fun n => m.base.length < n.base.length

theorem during_cases (m : Machine) (later : List Machine) :
    m.during later = later ∨
      ∃ y after, later = m.during later ++ y :: after ∧ y.base.length ≤ m.base.length := by
  cases rest : later.dropWhile fun n => decide (m.base.length < n.base.length) with
  | nil =>
    refine .inl ?_
    rw [during, ← List.append_nil (List.takeWhile _ _), ← rest, List.takeWhile_append_dropWhile]
  | cons y after =>
    obtain ⟨split, back⟩ := eq_append_of_dropWhile rest
    exact .inr ⟨y, after, split, Nat.le_of_not_lt (of_decide_eq_false back)⟩

theorem deeper_of_during {later : List Machine} (h : n ∈ m.during later) : m.base.length < n.base.length := by
  simpa using List.mem_takeWhile_imp h

theorem base_of_ended {outcome : Outcome} (h : m.step = .inr outcome) : m.base = [] := by
  have empty := frames_of_ended h
  unfold base
  split <;> simp [empty]

theorem step_of_base (h : 0 < m.base.length) : ∃ m', m.step = .inl m' := by
  cases step : m.step with
  | inl m' => exact ⟨m', rfl⟩
  | inr outcome =>
    rw [base_of_ended step] at h
    exact absurd h (Nat.lt_irrefl _)

theorem Follows.unique (h : Follows m n) (step : m.step = .inl m') : n = m' := by
  rcases h with next | ⟨outcome, ended⟩
  · rw [step] at next
    exact (Sum.inl.inj next).symm
  · rw [step] at ended
    cases ended

/-- What holds after the first of some steps and is kept by the others holds after the last. -/
theorem kept_along {I : Machine → Prop} (chain : (x :: (between ++ [y])).IsChain Follows) (next : x.step = .inl x')
    (begun : I x') (unfinished : ∀ n ∈ between, 0 < n.base.length)
    (keeps : ∀ n ∈ between, ∀ n' ∈ between ++ [y], I n → n.step = .inl n' → I n') : I y := by
  induction between generalizing x x' with
  | nil =>
    have last : Follows x y := by simpa using chain
    rw [last.unique next]
    exact begun
  | cons n between ih =>
    rw [List.cons_append] at chain
    obtain ⟨first, chain⟩ := List.isChain_cons_cons.1 chain
    obtain rfl := first.unique next
    obtain ⟨n', step⟩ := step_of_base (unfinished n List.mem_cons_self)
    have mem : n' ∈ between ++ [y] := by
      obtain ⟨k, rest, split⟩ := List.exists_cons_of_ne_nil (List.concat_ne_nil y between)
      rw [split] at chain ⊢
      rw [(List.isChain_cons_cons.1 chain).1.unique step]
      exact List.mem_cons_self
    refine ih chain step ?_ (fun k mem => unfinished k (List.mem_cons_of_mem _ mem)) ?_
    · exact keeps n List.mem_cons_self n' (List.mem_cons_of_mem _ mem) begun step
    · intro k early k' late
      exact keeps k (List.mem_cons_of_mem _ early) k' (List.mem_cons_of_mem _ late)

/-- A phase that code of a call has gone into is over when the call is. -/
theorem Closed.during_ne {life before later : List Machine} (h : Closed life) (states : life = before ++ x :: later)
    (next : x.step = .inl x') : x.during later ≠ later := by
  intro whole
  have final := List.getLast?_eq_getLast_of_ne_nil (List.cons_ne_nil x later)
  generalize (x :: later).getLast _ = last at final
  obtain ⟨outcome, ended⟩ := h.ended last (by rw [states, List.getLast?_append, final]; rfl)
  rcases List.mem_cons.1 (List.mem_of_getLast? final) with rfl | mem
  · rw [next] at ended
    cases ended
  · rw [← whole] at mem
    have deeper := deeper_of_during mem
    rw [base_of_ended ended] at deeper
    exact Nat.not_lt_zero _ deeper

/-- A frame that a step does not take away stays, under what is left above it and at most one more. -/
theorem above_of_step (frames : n.frames = above ++ f :: below) (deeper : below.length < n.base.length)
    (step : n.step = .inl n') : ∃ rest, n.base = rest ++ f :: below ∧ rest.Sublist above ∧
      (n'.frames = rest ++ f :: below ∨ ∃ g, n'.frames = g :: rest ++ f :: below) := by
  rcases received_or_above frames with ⟨o, received, rfl⟩ | ⟨rest, split⟩
  · rw [base_of_received received] at deeper
    exact absurd deeper (Nat.lt_irrefl _)
  · have sublist := n.base_sublist
    rw [split, frames] at sublist
    refine ⟨rest, split, (List.append_sublist_append_right _).1 sublist, ?_⟩
    rcases step_base step with same | ⟨g, pushed⟩
    · exact .inl (same.trans split)
    · refine .inr ⟨g, ?_⟩
      rw [pushed, split]
      rfl

/-- The frame of a phase receives the outcome with which the phase ends. -/
theorem received_of_phase (chain : (x :: (between ++ [y])).IsChain Follows) (next : x.step = .inl x')
    (pushed : x'.frames = f :: x.base) (deeper : ∀ n ∈ between, x.base.length < n.base.length)
    (back : y.base.length ≤ x.base.length) : ∃ o, y.received? = some (f, o) := by
  obtain ⟨above, frames⟩ : ∃ above, y.frames = above ++ f :: x.base := by
    refine kept_along (I := fun n => ∃ above, n.frames = above ++ f :: x.base) chain next ⟨[], pushed⟩
      (fun n mem => Nat.zero_lt_of_lt (deeper n mem)) ?_
    rintro n mem n' - ⟨above, frames⟩ step
    obtain ⟨rest, -, -, same | ⟨g, more⟩⟩ := above_of_step frames (deeper n mem) step
    · exact ⟨rest, same⟩
    · exact ⟨g :: rest, more⟩
  rcases received_or_above frames with ⟨o, received, -⟩ | ⟨rest, split⟩
  · exact ⟨o, received⟩
  · rw [split, List.length_append, List.length_cons] at back
    omega

/-! Entries inside the group of a phase. -/

/-- The phase that the next step ends, if it ends one, began inside a group. -/
def LeavesWithin (depth : Nat) (m : Machine) : Prop :=
  ∀ g o outer, m.received? = some (g, o) → g.phase? = some outer → depth < outer

theorem leaving_within (before : depth < m.world.depth) (began : m.LeavesWithin depth) :
    depth < m.leaving.depth ∧ m.world.journal.console.Within depth m.leaving := by
  cases hr : m.received? with
  | none =>
    rw [leaving_of_unreceived hr]
    exact ⟨before, .refl _ _⟩
  | some received =>
    obtain ⟨g, o⟩ := received
    cases phase : g.phase? with
    | none =>
      rw [leaving_of_other hr phase]
      exact ⟨before, .refl _ _⟩
    | some outer =>
      have inner := began g o outer hr phase
      rw [leaving_of_phase hr phase, Console.depth_leave]
      exact ⟨Nat.lt_min.2 ⟨inner, before⟩, Console.leave_within _ _ before inner⟩

/-- A step that does not close a group makes entries inside it only. -/
theorem step_within (h : m.step = .inl m') (before : depth < m.world.depth) (after : depth < m'.world.depth)
    (began : m.LeavesWithin depth) : m.world.journal.console.Within depth m'.world.journal.console := by
  obtain ⟨still, left⟩ := leaving_within before began
  unfold World.depth at after
  cases step_prints h with
  | adds adds => exact left.trans (adds.within still after)
  | unwound args control closed =>
    rw [closed, Console.depth_closeTo] at after
    omega
  | panicked text panic said =>
    rw [said, Console.depth_message, Console.depth_closeTo] at after
    omega

/-- All entries since a phase began lie inside its group, and so did the beginnings of the phases above it. -/
def Confined (depth : Nat) (f : Frame) (below : List Frame) (c : Console) (n : Machine) : Prop :=
  c.Within depth n.world.journal.console ∧ ∃ above, n.frames = above ++ f :: below ∧
    ∀ g ∈ above, ∀ outer, g.phase? = some outer → depth < outer

theorem Confined.step {c : Console} (h : Confined depth f below c n) (deeper : below.length < n.base.length)
    (before : depth < n.world.depth) (after : depth < n'.world.depth) (step : n.step = .inl n') :
    Confined depth f below c n' := by
  obtain ⟨within, above, frames, phases⟩ := h
  have began : n.LeavesWithin depth := by
    intro g o outer received phase
    have popped := (step_received received).2
    rw [frames] at popped
    cases above with
    | nil =>
      -- It would be the frame of the phase itself.
      obtain ⟨rfl, rest⟩ := List.cons.inj popped
      rw [base_of_received received, ← rest] at deeper
      exact absurd deeper (Nat.lt_irrefl _)
    | cons first rest =>
      obtain ⟨rfl, -⟩ := List.cons.inj popped
      exact phases first List.mem_cons_self outer phase
  obtain ⟨rest, split, sublist, frames'⟩ := above_of_step frames deeper step
  have older : ∀ g ∈ rest, ∀ outer, g.phase? = some outer → depth < outer :=
    fun g mem => phases g (sublist.mem mem)
  refine ⟨within.trans (step_within step before after began), ?_⟩
  rcases frames' with same | ⟨g, more⟩
  · exact ⟨rest, same, older⟩
  · refine ⟨g :: rest, more, List.forall_mem_cons.2 ⟨?_, older⟩⟩
    intro outer phase
    have pushed : n'.frames = g :: n.base := by rw [more, split]; rfl
    obtain ⟨rfl, -⟩ := step_phase step pushed phase
    exact (leaving_within before began).1

theorem within_of_phase (chain : (x :: (between ++ [y])).IsChain Follows) (next : x.step = .inl x')
    (pushed : x'.frames = f :: x.base) (deeper : ∀ n ∈ between, x.base.length < n.base.length)
    (inside : ∀ n ∈ between ++ [y], depth < n.world.depth) :
    x'.world.journal.console.Within depth y.world.journal.console := by
  have confined : Confined depth f x.base x'.world.journal.console y := by
    refine kept_along chain next ⟨.refl _ _, [], pushed, List.forall_mem_nil _⟩
      (fun n mem => Nat.zero_lt_of_lt (deeper n mem)) ?_
    intro n early n' late confined step
    exact confined.step (deeper n early) (inside n (List.mem_append_left _ early)) (inside n' late) step
  exact confined.1

/-- A phase whose group is open all the time records the beginning of the group, entries inside it, and its end. -/
theorem phase_balanced {label : String} (chain : (x :: (between ++ [y])).IsChain Follows) (next : x.step = .inl x')
    (pushed : x'.frames = f :: x.base) (phase : f.phase? = some x.leaving.depth)
    (opened : x'.world.journal.console = x.leaving.openGroup label)
    (deeper : ∀ n ∈ between, x.base.length < n.base.length) (received : y.received? = some (f, o))
    (inside : ∀ n ∈ between ++ [y], x.leaving.depth < n.world.depth) :
    y.leaving.depth = x.leaving.depth ∧ ∃ inner, (∀ e ∈ inner, e.Inside x.leaving.depth) ∧
      y.leaving.events.toList =
        x.leaving.events.toList ++ .opened x.leaving.depth label :: (inner ++ [.closed x.leaving.depth]) := by
  have open_ : x.leaving.depth < y.world.depth := inside y (by simp)
  have within := within_of_phase chain next pushed deeper inside
  rw [opened] at within
  constructor
  · rw [depth_leaving received phase]
    omega
  · rw [leaving_of_phase received phase]
    exact Console.leave_closes within _ open_

end Machine

theorem Life.chain_during {life : List Machine} {stage : Stage} (h : Life life stage) {before later after : List Machine}
    {x y : Machine} (states : life ++ stage.current = before ++ x :: later) (split : later = x.during later ++ y :: after) :
    (x :: (x.during later ++ [y])).IsChain Machine.Follows := by
  have chain := h.chain
  rw [states, split] at chain
  have chain := chain.right_of_append
  rw [List.append_cons, ← List.cons_append] at chain
  exact chain.left_of_append

/-- Every entry phase that code of a life has gone into still goes on, or its frame has received an outcome. The phase
ends with as many open groups as there were when it began, or fewer if its code has closed some of them; after the
message about a static initializer, what it records at its end are the groups that it closes. If its own group was open
all the time, it has recorded the beginning of the group, entries inside it, and its end. -/
theorem phases_close_their_groups {life : List Machine} {stage : Stage} (h : Life life stage)
    {before later : List Machine} {x : Machine} {f : Frame} (states : life ++ stage.current = before ++ x :: later)
    (entered : x.entry? = some f) :
    ∃ x' label, x.step = .inl x' ∧ x'.world.journal.console = x.leaving.openGroup label ∧
      ((x.during later = later ∧ ∃ m, stage = .running m) ∨
        ∃ y after o y', later = x.during later ++ y :: after ∧ y.received? = some (f, o) ∧ y.step = .inl y' ∧
          y'.world.journal.console =
            (f.following? y.world.config.abi o).elim y.leaving y.leaving.openGroup ∧
          y.leaving.depth = min x.leaving.depth y.world.depth ∧
          y.leaving.events.toList = y.world.recorded ++
            (f.complaint? y.world.config.abi o).toList.map (.message .error y.world.depth) ++
              closings x.leaving.depth y.world.depth ∧
          ((∀ n ∈ x.during later ++ [y], x.leaving.depth < n.world.depth) → y.leaving.depth = x.leaving.depth ∧
            ∃ inner, (∀ e ∈ inner, e.Inside x.leaving.depth) ∧ y.leaving.events.toList =
              x.leaving.events.toList ++ .opened x.leaving.depth label :: (inner ++ [.closed x.leaving.depth]))) := by
  obtain ⟨x', depth, next, pushed, phase⟩ := Machine.entry?_eq_some entered
  obtain ⟨rfl, label, opened⟩ := Machine.step_phase next pushed phase
  refine ⟨x', label, next, opened, ?_⟩
  rcases x.during_cases later with whole | ⟨y, after, split, back⟩
  · refine .inl ⟨whole, ?_⟩
    cases stage with
    | running m => exact ⟨m, rfl⟩
    | idle s =>
      rw [Stage.current, List.append_nil] at states
      exact absurd whole (h.ends.during_ne states next)
  · have chain := h.chain_during states split
    have deeper : ∀ n ∈ x.during later, x.base.length < n.base.length := fun n => Machine.deeper_of_during
    obtain ⟨o, received⟩ := Machine.received_of_phase chain next pushed deeper back
    obtain ⟨y', step, console⟩ := Machine.step_leaving received phase
    exact .inr ⟨y, after, o, y', split, received, step, console, Machine.depth_leaving received phase,
      Machine.events_leaving received phase, Machine.phase_balanced chain next pushed phase opened deeper received⟩

/-- The first entry phase that follows another one: the state in which it begins, and those after it. -/
def Machine.followed? : List Machine → Option (Machine × List Machine)
  | [] => none
  | x :: later => if x.received?.isSome && x.entry?.isSome then some (x, later) else followed? later

theorem Machine.followed?_eq_some {states later : List Machine} {x : Machine} (h : followed? states = some (x, later)) :
    ∃ before f, states = before ++ x :: later ∧ x.entry? = some f := by
  induction states with
  | nil => cases h
  | cons first rest ih =>
    unfold followed? at h
    split at h
    · rename_i entered
      cases h
      obtain ⟨-, entered⟩ := Bool.and_eq_true_iff.1 entered
      obtain ⟨f, entered⟩ := Option.isSome_iff_exists.1 entered
      exact ⟨[], f, rfl, entered⟩
    · obtain ⟨before, f, split, entered⟩ := ih h
      exact ⟨first :: before, f, by rw [split]; rfl, entered⟩

/-- The main entry point of a unit links another one, whose static initializer returns seven. The message about it lies
inside the groups of both; the failure ends both phases, and each closes its own group. -/
theorem failing_link_closes_both_groups : ∃ life s before x later f y after, Life life (.idle s) ∧
    life = before ++ x :: later ∧ x.entry? = some f ∧ later = x.during later ++ y :: after ∧
    x.leaving.events.toList = [.opened 0 "unit 0 static_init", .closed 0] ∧
    y.leaving.events.toList = [.opened 0 "unit 0 static_init", .closed 0, .opened 0 "unit 0 main",
      .opened 1 "unit 0 static_init", .message .error 2 "assertion failed: static_init returned 7, expected 0",
      .closed 1, .closed 0] ∧
    y.leaving.depth = x.leaving.depth ∧ ∃ label inner, (∀ e ∈ inner, e.Inside x.leaving.depth) ∧
      y.leaving.events.toList =
        x.leaving.events.toList ++ .opened x.leaving.depth label :: (inner ++ [.closed x.leaving.depth]) := by
  have evaluated : (Session.traced 100 (Sample.nesting Sample.refusingText) "").bind (fun traced =>
      (Machine.followed? traced.1).map fun phase =>
        ((phase.1.during phase.2 ++ (phase.2.drop (phase.1.during phase.2).length).take 1).all fun n =>
          decide (phase.1.leaving.depth < n.world.depth), phase.1.leaving.events.toList,
          (phase.2.drop (phase.1.during phase.2).length).head?.map (·.leaving.events.toList))) =
      some (true, [.opened 0 "unit 0 static_init", .closed 0], some [.opened 0 "unit 0 static_init", .closed 0,
        .opened 0 "unit 0 main", .opened 1 "unit 0 static_init",
        .message .error 2 "assertion failed: static_init returned 7, expected 0", .closed 1, .closed 0]) := by
    decide +kernel
  obtain ⟨⟨life, s⟩, traced, found⟩ := Option.bind_eq_some_iff.1 evaluated
  obtain ⟨⟨x, later⟩, followed, found⟩ := Option.map_eq_some_iff.1 found
  obtain ⟨before, f, split, entered⟩ := Machine.followed?_eq_some followed
  have h := Life.traced (by decide +kernel) traced
  simp only [Prod.mk.injEq] at found
  obtain ⟨inside, begun, ended⟩ := found
  have states : life ++ (Stage.idle s).current = before ++ x :: later := by
    rw [Stage.current, List.append_nil]
    exact split
  obtain ⟨x', label, -, -, still | ⟨y, after, o, y', during, -, -, -, -, -, closes⟩⟩ :=
    phases_close_their_groups h states entered
  · obtain ⟨-, m, running⟩ := still
    cases running
  · have rest : later.drop (x.during later).length = y :: after := by
      generalize x.during later = inner at during ⊢
      rw [during, List.drop_left]
    rw [rest] at inside ended
    obtain ⟨depth, inner, within, events⟩ := closes fun n mem => of_decide_eq_true (List.all_eq_true.1 inside n mem)
    exact ⟨life, s, before, x, later, f, y, after, h, split, entered, during, begun, by simpa using ended, depth, label,
      inner, within, events⟩

end UnitHost
