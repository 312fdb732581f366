import Mathlib.Data.List.Chain
import Mathlib.Data.List.TakeWhile
import UnitHost.Proofs.SymbolTable

/-!
# What links leave behind

A link is begun by one state and is over when the stack is back where it was; in between, other links may
begin and end. The states of a life tell all that happens to it: `Machine.resolved?` where its unit's
entry points are found, `Machine.finished?` where they have run. Both concern a link that waits right above
`Machine.base`, so the length of that part of the stack tells links nested in one another apart.

`step_entries` says that the units are what finished, one after the other. `Progress` follows the frame in
which a single link waits; from one step of it, `contribution_of_extent` gives what a link leaves behind.
-/

namespace UnitHost

open Wasm

/-! What happens to a link. -/

/-- Both entry points of a unit are there and have the right type. -/
def Linking.hasEntries (l : Linking) (w : World) : Bool :=
  (typedExport w.store l.owner w.config.abi.staticInit entryType).isOk &&
    (typedExport w.store l.owner w.config.abi.main entryType).isOk

namespace Frame

/-- The unit whose entry points are found when a frame receives an outcome: its start function returns. -/
def resolved? (f : Frame) (w : World) (o : Outcome) : Option Linking :=
  match f, o with
  | .start l, .ok _ => if l.hasEntries w then some l else none
  | _, _ => none

/-- The unit whose entry points have run when a frame receives an outcome, and how far they got. A static
initializer that fails or returns something other than zero leaves it failed, a main entry point that fails leaves
it initialized, and one that returns makes it executed. -/
def finished? (f : Frame) (o : Outcome) : Option (Linking × UnitState) :=
  match f, o with
  | .staticInit l .., .error _ => some (l, .failed)
  | .staticInit l .., .ok results => if signed (results.headD .null).word = 0 then none else some (l, .failed)
  | .main l _, .error _ => some (l, .initialized)
  | .main l _, .ok results => some (l, .executed (signed (results.headD .null).word))
  | _, _ => none

end Frame

namespace Machine

/-- The link that the next step begins. -/
def link? (m : Machine) : Option LinkRequest :=
  match m.control with
  | .call (.host .compileInit) [address, count, memoryBase, tableBase] =>
    some (.ofWords address.word count.word memoryBase.word tableBase.word)
  | _ => none

/-- The frame that the next step takes from the stack, and what it receives. -/
def received? (m : Machine) : Option (Frame × Outcome) :=
  match m.control, m.frames with
  | .give results, f :: _ => some (f, .ok results)
  | .raise r, f :: _ => some (f, .error r)
  | _, _ => none

/-- A frame receives an outcome. -/
def receive (m : Machine) (f : Frame) : Outcome → Machine
  | .ok results => m.resume f results
  | .error r => m.abandon f r

/-- What is left of the stack without the frame that the next step takes. -/
def base (m : Machine) : List Frame := if m.received?.isSome then m.frames.tail else m.frames

/-- The unit whose entry points the next step finds. -/
def resolved? (m : Machine) : Option Linking :=
  match m.link? with
  | some r =>
    match (Action.prepare r).run.run m.world with
    | (.ok l, w) => if (l.module.start.bind (l.owner.funcs[·]?)).isNone && l.hasEntries w then some l else none
    | (.error _, _) => none
  | none => m.received?.bind fun (f, o) => f.resolved? m.world o

/-- The unit whose entry points have run, and how far they got. -/
def finished? (m : Machine) : Option (Linking × UnitState) := m.received?.bind fun (f, o) => f.finished? o

/-- The states of the link right above a part of the stack in which it is its turn. -/
def ownOn (below : List Frame) (states : List Machine) : List Machine :=
  states.filter fun n => n.base.length == below.length

/-- What these states tell, one after the other. -/
def toldOn (tell : Machine → Option α) (below : List Frame) (states : List Machine) : List α :=
  (ownOn below states).filterMap tell

/-- The units whose entry points are found right above a part of the stack. -/
def resolvedOn (below : List Frame) (states : List Machine) : List Linking := toldOn resolved? below states

/-- The units whose entry points have run right above a part of the stack. -/
def finishedOn (below : List Frame) (states : List Machine) : List (Linking × UnitState) :=
  toldOn finished? below states

variable {m m' : Machine} {f : Frame} {o : Outcome}

/-! The states of one link. -/

theorem ownOn_append (below : List Frame) (states more : List Machine) :
    ownOn below (states ++ more) = ownOn below states ++ ownOn below more :=
  List.filter_append _ _

theorem ownOn_own {below : List Frame} (own : m.base.length = below.length) : ownOn below [m] = [m] := by
  simp [ownOn, own]

theorem ownOn_above {below : List Frame} (above : below.length < m.base.length) : ownOn below [m] = [] := by
  have other : m.base.length ≠ below.length := by omega
  simp [ownOn, other]

theorem toldOn_append (tell : Machine → Option α) (below : List Frame) (states more : List Machine) :
    toldOn tell below (states ++ more) = toldOn tell below states ++ toldOn tell below more := by
  unfold toldOn
  rw [ownOn_append, List.filterMap_append]

theorem toldOn_cons (tell : Machine → Option α) (below : List Frame) (n : Machine) (states : List Machine) :
    toldOn tell below (n :: states) = toldOn tell below [n] ++ toldOn tell below states :=
  toldOn_append tell below [n] states

theorem toldOn_own {tell : Machine → Option α} {below : List Frame} (own : m.base.length = below.length) :
    toldOn tell below [m] = (tell m).toList := by
  unfold toldOn
  rw [ownOn_own own]
  cases told : tell m <;> simp [told]

theorem toldOn_above {tell : Machine → Option α} {below : List Frame} (above : below.length < m.base.length) :
    toldOn tell below [m] = [] := by
  unfold toldOn
  rw [ownOn_above above, List.filterMap_nil]

/-! One step of the stack. -/

theorem step_received (h : m.received? = some (f, o)) :
    m.step = .inl (m.pop.receive f o) ∧ m.frames = f :: m.pop.frames := by
  unfold received? at h
  split at h
  · rename_i hc hf
    cases h
    exact ⟨step_give hc hf, by simp [pop, hf]⟩
  · rename_i hc hf
    cases h
    exact ⟨step_raise hc hf, by simp [pop, hf]⟩
  · cases h

theorem base_of_unreceived (h : m.received? = none) : m.base = m.frames := by
  unfold base
  rw [h]
  rfl

theorem base_of_received (h : m.received? = some (f, o)) : m.base = m.pop.frames := by
  unfold base
  rw [h]
  rfl

/-- A unit is entered if it has both entry points. -/
theorem enterUnit_frames (m : Machine) (l : Linking) :
    if l.hasEntries m.world then ∃ main next depth, (m.enterUnit l).frames = .staticInit l main next depth :: m.frames
    else (m.enterUnit l).frames = m.frames := by
  unfold enterUnit Linking.hasEntries
  dsimp only
  cases typedExport m.world.store l.owner m.world.config.abi.staticInit entryType with
  | error f => rfl
  | ok initializer =>
    cases typedExport m.world.store l.owner m.world.config.abi.main entryType with
    | error f => rfl
    | ok main => exact ⟨main, _, _, rfl⟩

theorem not_pushed {P : Prop} (h : m.frames = f :: m.frames) : P := absurd h.symm (List.cons_ne_self f m.frames)

/-- A unit that waits has both entry points, and its static initializer is called in its first phase. -/
theorem enterUnit_entered {l : Linking} (h : (m.enterUnit l).frames = f :: m.frames) :
    ∃ initializer main, typedExport m.world.store l.owner m.world.config.abi.staticInit entryType = .ok initializer ∧
      typedExport m.world.store l.owner m.world.config.abi.main entryType = .ok main ∧
      m.enterUnit l = (m.openPhase m.world.units.length m.world.config.abi.staticInit).await
        (.staticInit l main m.world.units.length m.world.depth) initializer [] := by
  unfold enterUnit at h ⊢
  dsimp only at h ⊢
  cases first : typedExport m.world.store l.owner m.world.config.abi.staticInit entryType with
  | error fault =>
    rw [first] at h
    exact not_pushed h
  | ok initializer =>
    rw [first] at h
    cases second : typedExport m.world.store l.owner m.world.config.abi.main entryType with
    | error fault =>
      rw [second] at h
      exact not_pushed h
    | ok main => exact ⟨initializer, main, rfl, rfl, rfl⟩

/-- A link is over at once, or waits for a start function, or has found both entry points. -/
theorem link_frames {r : LinkRequest} (h : m.link? = some r) :
    ((m.link r).frames = m.frames ∧ m.resolved? = none) ∨
      (∃ l, (m.link r).frames = .start l :: m.frames ∧ m.resolved? = none) ∨
      ∃ l main next depth, (m.link r).frames = .staticInit l main next depth :: m.frames ∧ m.resolved? = some l := by
  unfold link resolved?
  rw [h]
  dsimp only
  rcases (Action.prepare r).run.run m.world with ⟨f | l, w⟩
  · exact .inl ⟨rfl, rfl⟩
  · dsimp only
    have entered := enterUnit_frames { m with world := w } l
    cases l.module.start.bind (l.owner.funcs[·]?) with
    | some callee => exact .inr (.inl ⟨l, rfl, rfl⟩)
    | none =>
      cases entries : l.hasEntries w with
      | true =>
        rw [if_pos entries] at entered
        obtain ⟨main, next, depth, frames⟩ := entered
        exact .inr (.inr ⟨l, main, next, depth, frames, rfl⟩)
      | false =>
        rw [if_neg (by simp [entries])] at entered
        exact .inl ⟨entered, rfl⟩

theorem call_frames {callee : Callee} {args : List Value} (hc : m.control = .call callee args) :
    (m.call callee args).frames = m.frames ∨ ∃ f, (m.call callee args).frames = f :: m.frames := by
  unfold call
  split
  · repeat' split
    all_goals exact .inl rfl
  · rcases link_frames (m := m) (by rw [link?, hc]) with
      ⟨frames, -⟩ | ⟨l, frames, -⟩ | ⟨l, main, next, depth, frames, -⟩
    · exact .inl frames
    · exact .inr ⟨_, frames⟩
    · exact .inr ⟨_, frames⟩
  · split <;> exact .inl rfl

theorem Local.frames (h : m.Local m') : m'.frames = m.frames ∨ ∃ f, m'.frames = f :: m.frames := by
  cases h with
  | go c => exact .inl rfl
  | memory address memory a le => exact .inl rfl
  | table address table a le => exact .inl rfl
  | global address v a => exact .inl rfl
  | invoke a callee type => exact .inr ⟨_, rfl⟩

/-- What a link has found and what it has finished while it waits in a frame. -/
inductive Progress : List Linking → List (Linking × UnitState) → Frame → Prop where
  | starting (l : Linking) : Progress [] [] (.start l)
  | initializing (l : Linking) (main : Callee) (next depth : Nat) : Progress [l] [] (.staticInit l main next depth)
  | running (l : Linking) (depth : Nat) : Progress [l] [] (.main l depth)
  | rendering (l : Linking) (state : UnitState) (index : Nat) : Progress [l] [(l, state)] (.report index)

/-- What a link has found and what it leaves behind: one unit if it found both entry points. -/
inductive Contribution : List Linking → List (Linking × UnitState) → Prop where
  | nothing : Contribution [] []
  | unit (l : Linking) (state : UnitState) : Contribution [l] [(l, state)]

variable {resolved : List Linking} {finished : List (Linking × UnitState)}

/-- A link that receives an outcome is over or waits in another frame. -/
theorem Progress.receive (h : Progress resolved finished f) (m : Machine) (o : Outcome) :
    ((m.receive f o).frames = m.frames ∧
      Contribution (resolved ++ (f.resolved? m.world o).toList) (finished ++ (f.finished? o).toList)) ∨
    ∃ f', (m.receive f o).frames = f' :: m.frames ∧
      Progress (resolved ++ (f.resolved? m.world o).toList) (finished ++ (f.finished? o).toList) f' := by
  cases h with
  | starting l =>
    cases o with
    | error r => exact .inl ⟨rfl, .nothing⟩
    | ok results =>
      have entered := enterUnit_frames m l
      cases entries : l.hasEntries m.world with
      | true =>
        rw [if_pos entries] at entered
        obtain ⟨main, next, depth, frames⟩ := entered
        refine .inr ⟨_, frames, ?_⟩
        simp only [Frame.resolved?, if_pos entries]
        exact .initializing l main next depth
      | false =>
        rw [if_neg (by simp [entries])] at entered
        refine .inl ⟨entered, ?_⟩
        simp only [Frame.resolved?, entries]
        exact .nothing
  | initializing l main next depth =>
    cases o with
    | error r => exact .inl ⟨rfl, .unit l .failed⟩
    | ok results =>
      unfold Machine.receive resume initialized Frame.finished?
      dsimp only
      split
      · exact .inr ⟨_, rfl, .running l _⟩
      · exact .inl ⟨rfl, .unit l .failed⟩
  | running l depth =>
    cases o with
    | error r => exact .inl ⟨rfl, .unit l .initialized⟩
    | ok results =>
      unfold Machine.receive resume executed
      dsimp only
      repeat' split
      · exact .inl ⟨rfl, .unit l _⟩
      · exact .inl ⟨rfl, .unit l _⟩
      · exact .inr ⟨_, rfl, .rendering l _ _⟩
  | rendering l state index => cases o <;> exact .inl ⟨rfl, .unit l state⟩

theorem receive_frames (m : Machine) (f : Frame) (o : Outcome) :
    (m.receive f o).frames = m.frames ∨ ∃ f', (m.receive f o).frames = f' :: m.frames := by
  have waiting {resolved finished} (h : Progress resolved finished f) :
      (m.receive f o).frames = m.frames ∨ ∃ f', (m.receive f o).frames = f' :: m.frames := by
    rcases h.receive m o with ⟨back, -⟩ | ⟨f', frames, -⟩
    · exact .inl back
    · exact .inr ⟨f', frames⟩
  cases f with
  | caller a => cases o <;> exact .inl rfl
  | start l => exact waiting (.starting l)
  | staticInit l main next depth => exact waiting (.initializing l main next depth)
  | main l depth => exact waiting (.running l depth)
  | report index => cases o <;> exact .inl rfl

/-- A step takes at most one frame from the stack, and then adds at most one. -/
theorem step_base (h : m.step = .inl m') : m'.frames = m.base ∨ ∃ f, m'.frames = f :: m.base := by
  cases step_taken h with
  | code a _ hc own =>
    rw [base_of_unreceived (by simp [received?, hc])]
    exact own.frames
  | call callee args hc =>
    rw [base_of_unreceived (by simp [received?, hc])]
    exact call_frames hc
  | resume f frames results hc hf =>
    have received : m.received? = some (f, .ok results) := by simp [received?, hc, hf]
    rw [base_of_received received]
    exact receive_frames m.pop f (.ok results)
  | abandon f frames r hc hf =>
    have received : m.received? = some (f, .error r) := by simp [received?, hc, hf]
    rw [base_of_received received]
    exact receive_frames m.pop f (.error r)

end Machine

/-! The units are what finished. -/

namespace World

variable {w w' : World}

/-- The units without their indices. -/
def entries (w : World) : List (Linking × UnitState) := w.units.map fun u => (u.toLinking, u.state)

theorem SameProgram.entries (h : SameProgram w w') : w'.entries = w.entries := by
  unfold World.entries
  rw [h.units]

theorem entries_append {l : Linking} {state : UnitState} (placed : w.program ≠ none)
    (same : SameProgram (w.append l state).2 w') : w'.entries = w.entries ++ [(l, state)] := by
  obtain ⟨p, hp⟩ := Option.ne_none_iff_exists'.1 placed
  rw [same.entries]
  simp [World.entries, World.units, append, updateProgram, Program.append, hp]

/-- Publishing exports touches no unit. -/
theorem entries_publish_append {exports : List (String × Extern)} {l : Linking} {state : UnitState}
    (placed : w.program ≠ none) (same : SameProgram ((w.publish exports).append l state).2 w') :
    w'.entries = w.entries ++ [(l, state)] := by
  obtain ⟨p, hp⟩ := Option.ne_none_iff_exists'.1 placed
  have bound := (kept_publish w exports).append l state
  rw [(bound.same.trans same).entries]
  simp [World.entries, World.units, append, updateProgram, Program.append, hp]

end World

namespace Machine

variable {m m' : Machine} {f : Frame} {o : Outcome}

/-- A step that leaves no link behind keeps the program. -/
theorem Change.same (change : Change m m') (le : m.linking.length ≤ m'.linking.length) :
    World.SameProgram m.world m'.world := by
  cases change with
  | still quiet still => exact still.kept.same
  | posted r posted world => rw [world]; exact World.same_post m.world r
  | began r p l quiet prepared kept => exact kept.same
  | dropped l quiet kept => exact kept.same
  | appended l state quiet unfinished kept linking =>
    rw [linking, List.length_cons] at le
    omega
  | executed l value quiet kept linking =>
    rw [linking, List.length_cons] at le
    omega

/-- A step that takes no frame from the stack keeps the program. -/
theorem same_of_unreceived (none : m.received? = none) (h : m.step = .inl m') :
    World.SameProgram m.world m'.world := by
  refine (step_change h).same ?_
  have kept := base_of_unreceived none
  unfold linking
  rcases step_base h with frames | ⟨f, frames⟩
  · rw [frames, kept]
  · rw [frames, kept]
    exact ((List.sublist_cons_self f m.frames).filterMap _).length_le

/-- A frame that receives an outcome appends the unit whose entry points have run, if there is one. -/
theorem receive_entries (placed : f.linking?.isSome → m.world.program ≠ none) :
    (m.receive f o).world.entries = m.world.entries ++ (f.finished? o).toList := by
  have quiet (same : World.SameProgram m.world (m.receive f o).world) :
      (m.receive f o).world.entries = m.world.entries ++ [] := by
    rw [same.entries, List.append_nil]
  cases f with
  | caller a => cases o <;> exact quiet ⟨rfl, rfl, rfl⟩
  | start l =>
    cases o with
    | error r => exact quiet ⟨rfl, rfl, rfl⟩
    | ok results =>
      rcases enterUnit_cases m l with still | ⟨kept, -⟩
      · exact quiet still.kept.same
      · exact quiet kept.same
  | staticInit l main next depth =>
    cases o with
    | error r => exact World.entries_append (placed rfl) ⟨rfl, rfl, rfl⟩
    | ok results =>
      unfold receive resume initialized Frame.finished?
      dsimp only
      split
      · have same : World.SameProgram m.world { m.world with
            journal := (m.world.journal.closeTo depth).openGroup s!"unit {next} {m.world.config.abi.main}" } :=
          ⟨rfl, rfl, rfl⟩
        exact same.entries.trans (List.append_nil _).symm
      · exact World.entries_append (placed rfl) ⟨rfl, rfl, rfl⟩
  | main l depth =>
    cases o with
    | error r => exact World.entries_append (placed rfl) ⟨rfl, rfl, rfl⟩
    | ok results =>
      have closed : World.Kept m.world (m.closePhase depth).world := ⟨rfl, rfl, rfl, rfl⟩
      have kept := (closed.publish l.owner.symbols).append l (.executed (signed (results.headD .null).word))
      refine World.entries_publish_append (placed rfl) (kept.same.trans ?_)
      unfold receive resume executed
      dsimp only
      repeat' split
      all_goals exact ⟨rfl, rfl, rfl⟩
  | report index => cases o <;> exact quiet ⟨rfl, rfl, rfl⟩

/-- A step appends the unit whose entry points have run, if there is one, and nothing else. -/
theorem step_entries (h : m.step = .inl m') (placed : m.world.program = none → m.linking = []) :
    m'.world.entries = m.world.entries ++ m.finished?.toList := by
  unfold finished?
  cases hr : m.received? with
  | none => rw [(same_of_unreceived hr h).entries, Option.bind_none, Option.toList_none, List.append_nil]
  | some received =>
    obtain ⟨f, o⟩ := received
    obtain ⟨step, frames⟩ := step_received hr
    rw [step] at h
    cases h
    refine receive_entries (m := m.pop) fun linked absent => ?_
    obtain ⟨l, linked⟩ := Option.isSome_iff_exists.1 linked
    have empty := placed absent
    rw [linking_of_some frames linked] at empty
    cases empty

end Machine

/-- In every state the units are what finished, and links run only once there is a program. -/
theorem invariant_entries : Invariant fun life w frames =>
    w.entries = life.filterMap Machine.finished? ∧
      (w.program = none → frames.filterMap Frame.linking? = []) where
  unplaced := by
    intro w empty
    exact ⟨by simp [World.entries, World.units, empty], fun _ => rfl⟩
  placed := by
    intro engine base w p valid placed
    exact ⟨by simp [World.entries, World.units, placed.program, placed.units], fun _ => rfl⟩
  step := by
    rintro life m m' - ⟨entries, placed⟩ h
    refine ⟨?_, fun absent => ?_⟩
    · rw [List.filterMap_append, ← entries, Machine.step_entries h placed]
      cases found : m.finished? <;> simp [found]
    · change m'.linking = []
      cases Machine.step_change h with
      | still quiet still =>
        rw [still.linking]
        exact placed (still.kept.program.symm.trans absent)
      | posted r posted world linking =>
        rw [world, (World.same_post m.world r).program] at absent
        rw [linking]
        exact placed absent
      | began r p l quiet prepared kept linking =>
        rw [kept.program, prepared.program] at absent
        cases absent
      | dropped l quiet kept linking =>
        have empty : m.linking = [] := placed (kept.program.symm.trans absent)
        rw [linking] at empty
        cases empty
      | appended l state quiet unfinished kept linking =>
        have empty : m.linking = [] := placed (Option.map_eq_none_iff.1 (kept.program.symm.trans absent))
        rw [linking] at empty
        cases empty
      | executed l value quiet kept linking =>
        have bound := (World.kept_publish m.world l.owner.symbols).append l (.executed value)
        have absent := (bound.trans kept).program.symm.trans absent
        have empty : m.linking = [] := placed (by simpa [World.append, World.updateProgram] using absent)
        rw [linking] at empty
        cases empty
  ended := by
    rintro life m outcome ⟨entries, -⟩ ended
    have quiet : m.finished? = none := by
      simp [Machine.finished?, Machine.received?, Machine.frames_of_ended ended]
    exact ⟨by simpa [quiet] using entries, fun _ => rfl⟩
  outside := by
    rintro life w w' ⟨entries, -⟩ same
    exact ⟨same.entries.trans entries, fun _ => rfl⟩

/-! The states of a life, one after the other. -/

namespace Machine

variable {m m' : Machine} {life : List Machine}

/-- A state comes right after another one: by a step, or as the first of a new call. -/
def Follows (m m' : Machine) : Prop := m.step = .inl m' ∨ ∃ outcome, m.step = .inr outcome

/-- States one after the other, up to the end of a call. -/
structure Closed (life : List Machine) : Prop where
  chain : life.IsChain Follows
  ended : ∀ m ∈ life.getLast?, ∃ outcome, m.step = .inr outcome

theorem closed_nil : Closed [] := ⟨.nil, by simp⟩

theorem Closed.call (h : Closed life) (m : Machine) : (life ++ [m]).IsChain Follows := by
  exact List.isChain_append.2 ⟨h.chain, .singleton m, fun last hlast _ _ => .inr (h.ended last hlast)⟩

theorem chain_step (h : (life ++ [m]).IsChain Follows) (step : m.step = .inl m') :
    ((life ++ [m]) ++ [m']).IsChain Follows := by
  refine List.isChain_append.2 ⟨h, .singleton m', fun last hlast next hnext => .inl ?_⟩
  rw [List.getLast?_concat] at hlast
  cases hlast
  cases hnext
  exact step

theorem closed_run {fuel : Nat} {w : World} {outcome : Outcome} (h : (life ++ [m]).IsChain Follows)
    (run : m.run fuel = some (w, outcome)) : Closed (life ++ m.visited fuel) := by
  obtain ⟨left, last, trace, chain, ended, -⟩ :=
    run_invariant (I := fun life m => (life ++ [m]).IsChain Follows) chain_step run h
  rw [trace, ← List.append_assoc]
  exact ⟨chain, by simp [ended]⟩

end Machine

/-- The state in which code is running. -/
def Stage.current : Stage → List Machine
  | running m => [m]
  | idle _ => []

/-- The states left behind lead up to a stage. -/
def Stage.Ends (life : List Machine) : Stage → Prop
  | running m => (life ++ [m]).IsChain Machine.Follows
  | idle _ => Machine.Closed life

theorem Life.ends {life : List Machine} {stage : Stage} (h : Life life stage) : stage.Ends life := by
  induction h with
  | starting => exact Machine.closed_nil.call _
  | initializing => exact Machine.closed_nil.call _
  | @loaded engine base config log fuel s valid loaded =>
    obtain ⟨-, -, e, load⟩ := Session.load_ok loaded
    obtain ⟨v, v', results, placed, initialized, -, -⟩ := Run.load_ok load
    unfold Stage.Ends Run.initialization World.fresh
    rw [placed]
    exact Machine.closed_run (Machine.closed_nil.call _) initialized
  | evaluating before fits ih => exact Machine.Closed.call ih _
  | step before step ih => exact Machine.chain_step ih step
  | @submitted life s s' fuel text answer before answered ih =>
    unfold Stage.Ends Session.visited
    rcases Session.submit_cases before.waiting.ready answered with
      ⟨f, misfit, -⟩ | ⟨m, w, outcome, fits, run, -⟩
    · rw [misfit, List.append_nil]
      exact ih
    · rw [fits]
      exact Machine.closed_run (Machine.Closed.call ih m) run
  | drained before ih => exact ih
  | logTaken before ih => exact ih
  | timePassed nanos before ih => exact ih

/-- The states of a life follow one another. -/
theorem Life.chain {life : List Machine} {stage : Stage} (h : Life life stage) :
    (life ++ stage.current).IsChain Machine.Follows := by
  have ends := h.ends
  cases stage with
  | running m => exact ends
  | idle s =>
    rw [Stage.current, List.append_nil]
    exact ends.chain

/-! From the beginning of a link to its end. -/

theorem eq_append_of_dropWhile {α : Type} {p : α → Bool} {l rest : List α} {a : α} (h : l.dropWhile p = a :: rest) :
    l = l.takeWhile p ++ a :: rest ∧ p a = false := by
  have first := List.head?_dropWhile_not p l
  rw [h] at first
  refine ⟨?_, first⟩
  rw [← h, List.takeWhile_append_dropWhile]

namespace Machine

variable {m m' n n' : Machine} {f : Frame} {below above : List Frame} {resolved : List Linking}
  {finished : List (Linking × UnitState)} {during : List Machine}

theorem link?_of_received {o : Outcome} (h : n.received? = some (f, o)) : n.link? = none := by
  unfold received? at h
  unfold link?
  split at h
  · rename_i hc _
    rw [hc]
  · rename_i hc _
    rw [hc]
  · cases h

/-- The next step takes the frame in which a link waits, or it leaves it where it is. -/
theorem received_or_above (frames : n.frames = above ++ f :: below) :
    (∃ o, n.received? = some (f, o) ∧ n.pop.frames = below) ∨ ∃ rest, n.base = rest ++ f :: below := by
  cases hr : n.received? with
  | none => exact .inr ⟨above, (base_of_unreceived hr).trans frames⟩
  | some received =>
    obtain ⟨g, o⟩ := received
    have popped := (step_received hr).2
    rw [frames] at popped
    rw [base_of_received hr]
    cases above with
    | nil =>
      obtain ⟨rfl, rest⟩ := List.cons.inj popped
      exact .inl ⟨o, rfl, rest.symm⟩
    | cons first rest => exact .inr ⟨rest, (List.cons.inj popped).2.symm⟩

/-- A step above a link leaves it waiting; a step of its own frame ends it or takes it further. -/
theorem Progress.step (h : Progress resolved finished f) (frames : n.frames = above ++ f :: below)
    (step : n.step = .inl n') :
    (n'.frames = below ∧
      Contribution (resolved ++ resolvedOn below [n]) (finished ++ finishedOn below [n])) ∨
    ∃ above' f', n'.frames = above' ++ f' :: below ∧
      Progress (resolved ++ resolvedOn below [n]) (finished ++ finishedOn below [n]) f' := by
  rcases received_or_above frames with ⟨o, received, rfl⟩ | ⟨rest, above⟩
  · have own : n.base.length = n.pop.frames.length := congrArg List.length (base_of_received received)
    have found : resolvedOn n.pop.frames [n] = (f.resolved? n.world o).toList := by
      rw [resolvedOn, toldOn_own own, resolved?, link?_of_received received, received]
      rfl
    have ended : finishedOn n.pop.frames [n] = (f.finished? o).toList := by
      rw [finishedOn, toldOn_own own, finished?, received]
      rfl
    rw [(step_received received).1] at step
    cases step
    rw [found, ended]
    rcases h.receive n.pop o with back | ⟨f', next, progress⟩
    · exact .inl back
    · exact .inr ⟨[], f', next, progress⟩
  · have deeper : below.length < n.base.length := by simp [above]; omega
    have found : resolvedOn below [n] = [] := toldOn_above deeper
    have ended : finishedOn below [n] = [] := toldOn_above deeper
    rw [found, ended, List.append_nil, List.append_nil]
    rcases step_base step with next | ⟨g, next⟩
    · exact .inr ⟨rest, f, next.trans above, h⟩
    · exact .inr ⟨g :: rest, f, by rw [next, above]; rfl, h⟩

theorem Follows.step (h : Follows n n') (waiting : n.frames = above ++ f :: below) : n.step = .inl n' := by
  rcases h with step | ⟨outcome, ended⟩
  · exact step
  · rw [frames_of_ended ended] at waiting
    simp at waiting

/-- A link that waits and is over later has contributed all that it ever does. -/
theorem Progress.run (h : Progress resolved finished f) (frames : n.frames = above ++ f :: below)
    (chain : (n :: (during ++ [m'])).IsChain Follows) (inside : ∀ x ∈ during, below.length < x.frames.length)
    (ended : m'.frames.length ≤ below.length) :
    Contribution (resolved ++ resolvedOn below (n :: during)) (finished ++ finishedOn below (n :: during)) := by
  induction during generalizing n resolved finished f above with
  | nil =>
    have follows : Follows n m' := by simpa using chain
    rcases h.step frames (follows.step frames) with ⟨-, contribution⟩ | ⟨above', f', waiting, -⟩
    · exact contribution
    · simp only [waiting, List.length_append, List.length_cons] at ended
      omega
  | cons n' during ih =>
    obtain ⟨follows, chain⟩ := List.isChain_cons_cons.1 chain
    obtain ⟨deeper, inside⟩ := List.forall_mem_cons.1 inside
    rw [resolvedOn, finishedOn, toldOn_cons resolved?, toldOn_cons finished?, ← List.append_assoc, ← List.append_assoc]
    rcases h.step frames (follows.step frames) with ⟨back, -⟩ | ⟨above', f', waiting, progress⟩
    · simp [back] at deeper
    · exact ih progress waiting chain inside

/-- The states from the beginning of a link up to its end, among those after its beginning. -/
def inside (m : Machine) (later : List Machine) : List Machine :=
  later.takeWhile fun n => m.frames.length < n.frames.length

/-- A link that has ended is followed by a state whose stack is as deep as the one it began with, at most. -/
theorem exists_after_inside {later : List Machine} (ended : (m.inside later).length < later.length) :
    ∃ m' after, later = m.inside later ++ m' :: after ∧ m'.frames.length ≤ m.frames.length := by
  cases rest : later.dropWhile fun n => decide (m.frames.length < n.frames.length) with
  | nil =>
    have whole : m.inside later = later := by
      rw [inside, ← List.append_nil (List.takeWhile _ _), ← rest, List.takeWhile_append_dropWhile]
    rw [whole] at ended
    exact absurd ended (Nat.lt_irrefl _)
  | cons m' after =>
    obtain ⟨split, back⟩ := eq_append_of_dropWhile rest
    exact ⟨m', after, split, Nat.le_of_not_lt (of_decide_eq_false back)⟩

theorem inside_of_mem {later : List Machine} (h : n ∈ m.inside later) : m.frames.length < n.frames.length := by
  simpa using List.mem_takeWhile_imp h

theorem step_link {r : LinkRequest} (h : m.link? = some r) :
    m.step = .inl (m.link r) ∧ m.received? = none := by
  unfold link? at h
  split at h
  · rename_i hc
    cases h
    exact ⟨step_call hc, by simp [received?, hc]⟩
  · cases h

/-- A link that has ended left one unit behind if it found both entry points and none otherwise. -/
theorem contribution_of_extent {r : LinkRequest} {later : List Machine} (link : m.link? = some r)
    (chain : (m :: later).IsChain Follows) (ended : (m.inside later).length < later.length) :
    Contribution (resolvedOn m.frames (m :: m.inside later)) (finishedOn m.frames (m :: m.inside later)) := by
  obtain ⟨step, none⟩ := step_link link
  have kept := base_of_unreceived none
  have own : m.base.length = m.frames.length := congrArg List.length kept
  have quiet : m.finished?.toList = [] := by simp [finished?, none]
  rw [resolvedOn, finishedOn, toldOn_cons resolved?, toldOn_cons finished?, toldOn_own own, toldOn_own own, quiet]
  cases later with
  | nil => simp [inside] at ended
  | cons n rest =>
    obtain ⟨follows, chain⟩ := List.isChain_cons_cons.1 chain
    obtain rfl : n = m.link r := by
      rcases follows with next | ⟨outcome, ended⟩
      · rw [step] at next
        exact (Sum.inl.inj next).symm
      · rw [step] at ended
        cases ended
    have waiting {f : Frame} {resolved : List Linking} (frames : (m.link r).frames = f :: m.frames)
        (h : Progress resolved [] f) :
        Contribution (resolved ++ resolvedOn m.frames (m.inside (m.link r :: rest)))
          ([] ++ finishedOn m.frames (m.inside (m.link r :: rest))) := by
      have first : m.inside (m.link r :: rest) = m.link r :: m.inside rest := by simp [inside, frames]
      rw [first] at ended ⊢
      obtain ⟨m', after, split, back⟩ := exists_after_inside (Nat.lt_of_succ_lt_succ ended)
      rw [split, List.append_cons, ← List.cons_append] at chain
      have alone : (m.link r).frames = [] ++ f :: m.frames := frames
      exact h.run alone chain.left_of_append (fun n => inside_of_mem) back
    rcases link_frames link with ⟨frames, absent⟩ | ⟨l, frames, absent⟩ | ⟨l, main, next, depth, frames, present⟩
    · have ended : m.inside (m.link r :: rest) = [] := by simp [inside, frames]
      rw [ended, absent]
      exact .nothing
    · rw [absent]
      exact waiting frames (.starting l)
    · rw [present]
      exact waiting frames (.initializing l main next depth)

end Machine

theorem Life.index_eq {life : List Machine} {stage : Stage} (h : Life life stage) {i : Nat} {u : LinkedUnit}
    (found : stage.world.units[i]? = some u) : u.index = i := by
  cases hp : stage.world.program with
  | none => simp [World.units, hp] at found
  | some p =>
    replace found : p.units[i]? = some u := by simpa [World.units, hp] using found
    have indices := ((invariant_published.holds h).1 p hp).indices
    have inside : i < p.units.length := (List.getElem?_eq_some_iff.1 found).1
    have position : (p.units.map (·.index))[i]? = some i := by rw [indices, List.getElem?_range inside]
    simpa [found] using position

/-- A session loaded from a base that has answered one submission, with the states of its code. -/
def Session.traced (fuel : Nat) (base : Module) (text : String) : Option (List Machine × Session) := do
  match ← Session.load fuel {} base {} with
  | .ok s =>
    let (_, s') ← s.submit fuel text
    pure (Run.initialization fuel base (.fresh {} {} #[]) ++ s.visited fuel text, s')
  | .error _ => none

theorem Life.traced {fuel : Nat} {base : Module} {text : String} {life : List Machine} {s : Session}
    (valid : base.isValid ({} : Engine).referenceTypes = true) (h : Session.traced fuel base text = some (life, s)) :
    Life life (.idle s) := by
  obtain ⟨loaded, begun, h⟩ := Option.bind_eq_some_iff.1 h
  cases loaded with
  | error f => cases h
  | ok s₀ =>
    obtain ⟨⟨answer, s'⟩, submitted, h⟩ := Option.bind_eq_some_iff.1 h
    cases h
    exact (Life.loaded valid begun).submitted submitted

/-- A base that nests links and whose renderer traps. -/
def Sample.silentBase : Module :=
  { nestingBase with funcs := nestingBase.funcs.set 2 { type := reportType, locals := [], body := [.unreachable] } }

/-- At every stage of every life the units stand at their indices, and each is in one of three states; they are
those whose entry points have run, in the order in which they did. Each link that has run to its end left one of them
behind if it found both entry points of its unit, and none otherwise. -/
theorem links_leave_units {life : List Machine} {stage : Stage} (h : Life life stage) :
    (∀ (i : Nat) (u : LinkedUnit), stage.world.units[i]? = some u → u.index = i ∧
      ((u.state.text = "UnitState(INITIALIZED | EXECUTED)" ∧ u.state.result?.isSome) ∨
        (u.state.text = "UnitState(INITIALIZED)" ∧ u.state.result? = none) ∨
        (u.state.text = "UnitState(FAILED)" ∧ u.state.result? = none))) ∧
    stage.world.entries = life.filterMap Machine.finished? ∧
    ∀ before m later, life ++ stage.current = before ++ m :: later → m.link?.isSome →
      (m.inside later).length < later.length →
      Machine.Contribution (Machine.resolvedOn m.frames (m :: m.inside later))
        (Machine.finishedOn m.frames (m :: m.inside later)) := by
  refine ⟨fun i u found => ⟨h.index_eq found, ?_⟩, (invariant_entries.holds h).1,
    fun before m later states link ended => ?_⟩
  · cases u.state with
    | failed => exact .inr (.inr ⟨rfl, rfl⟩)
    | initialized => exact .inr (.inl ⟨rfl, rfl⟩)
    | executed value => exact .inl ⟨rfl, rfl⟩
  · obtain ⟨r, link⟩ := Option.isSome_iff_exists.1 link
    have chain := h.chain
    rw [states] at chain
    exact Machine.contribution_of_extent link chain.right_of_append ended

/-- The renderer fails inside a link nested in another one: the inner unit has run all the same, and the outer one,
whose main entry point does not return, is initialized. -/
theorem units_of_failed_rendering : ∃ life s before m later, Life life (.idle s) ∧ life = before ++ m :: later ∧
    m.link?.isSome = true ∧ (m.inside later).length < later.length ∧
    s.world.units.map (·.state) = [.executed 0, .initialized] ∧
    Machine.Contribution (Machine.resolvedOn m.frames (m :: m.inside later))
      (Machine.finishedOn m.frames (m :: m.inside later)) := by
  have evaluated : (Session.traced 100 Sample.silentBase "").map (fun (life, s) =>
      (s.world.units.map (·.state), match life.dropWhile (fun m => m.link?.isNone) with
      | m :: later => m.link?.isSome && decide ((m.inside later).length < later.length)
      | [] => false)) = some ([.executed 0, .initialized], true) := by decide +kernel
  obtain ⟨⟨life, s⟩, traced, found⟩ := Option.map_eq_some_iff.1 evaluated
  obtain ⟨states, found⟩ := Prod.mk.inj found
  have h := Life.traced (by decide +kernel) traced
  have split := List.takeWhile_append_dropWhile (p := fun m : Machine => m.link?.isNone) (l := life)
  cases first : life.dropWhile (fun m => m.link?.isNone) with
  | nil => simp [first] at found
  | cons m later =>
    obtain ⟨link, ended⟩ := Bool.and_eq_true_iff.1 (by simpa only [first] using found)
    rw [first] at split
    refine ⟨life, s, _, m, later, h, split.symm, link, of_decide_eq_true ended, states, ?_⟩
    exact (links_leave_units h).2.2 _ m later (by rw [Stage.current, List.append_nil, split]) link
      (of_decide_eq_true ended)

end UnitHost
