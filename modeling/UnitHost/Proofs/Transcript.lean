import UnitHost.Proofs.Lives

/-!
# What the console records

The console keeps the number of open groups and the entries since the last drain. `replay` reads the number off the
entries alone, and refuses an entry that does not carry the number of groups open around it. `Console.Extends` says of
two consoles that the later one holds what the earlier one held and then entries that replay from the one number to the
other, with the marks among them made at the time of the clock. Whatever code, links and the session do to a console
extends it: `Machine.step_records` for one step, `Machine.run_records` for a run and `Session.submit_records` for a
submission. A drain takes entries away and leaves the number alone, so all entries since a session was loaded, drained or
not, replay to the number of groups that are open.
-/

namespace UnitHost

open Wasm

/-! Replaying entries. -/

/-- How many groups are open after an entry that is made while `current` are open. An entry that carries another number,
and one that closes a group while none is open, cannot be made then. -/
def Event.replay (current : Nat) : Event → Option Nat
  | .message _ depth _ => if depth = current then some current else none
  | .opened depth _ => if depth = current then some (current + 1) else none
  | .closed depth => if depth + 1 = current then some depth else none
  | .mark .. => some current

/-- An entry that can be made at a time: a mark carries the time it is made at. -/
def Event.MadeAt (clock : Nat) : Event → Prop
  | .mark _ elapsed => elapsed = clock
  | _ => True

/-- How many groups are open after entries in order. -/
def replay (current : Nat) (events : List Event) : Option Nat := events.foldlM Event.replay current

theorem replay_append (current : Nat) (events more : List Event) :
    replay current (events ++ more) = (replay current events).bind (replay · more) :=
  List.foldlM_append

theorem replay_singleton (current : Nat) (e : Event) : replay current [e] = e.replay current := by
  unfold replay
  rw [List.foldlM_cons]
  cases e.replay current <;> rfl

/-- Entries that replay from no open group, to a number of open groups, without closing a group that is not open. -/
structure Replays (events : List Event) (depth : Nat) : Prop where
  replay : replay 0 events = some depth
  balanced : ∀ before inner after, events = before ++ .closed inner :: after → UnitHost.replay 0 before = some (inner + 1)

theorem replays_of_replay {events : List Event} {depth : Nat} (h : replay 0 events = some depth) :
    Replays events depth := by
  refine ⟨h, fun before inner after split => ?_⟩
  rw [split, replay_append] at h
  obtain ⟨current, reached, rest⟩ := Option.bind_eq_some_iff.1 h
  have entry : (Event.closed inner).replay current ≠ none := by
    intro refused
    unfold replay at rest
    rw [List.foldlM_cons, refused] at rest
    cases rest
  have deeper : inner + 1 = current := by
    by_contra other
    exact entry (if_neg other)
  rw [reached, deeper]

namespace Console

variable {clock : Nat} {c c' c'' : Console}

/-- The later console holds the entries of the earlier one and then some that replay from its depth and are made at the
given time. -/
def Extends (clock : Nat) (c c' : Console) : Prop :=
  ∃ new, c'.events.toList = c.events.toList ++ new ∧ replay c.depth new = some c'.depth ∧ ∀ e ∈ new, e.MadeAt clock

theorem Extends.refl (c : Console) : c.Extends clock c := ⟨[], (List.append_nil _).symm, rfl, nofun⟩

theorem Extends.trans (h : c.Extends clock c') (h' : c'.Extends clock c'') : c.Extends clock c'' := by
  obtain ⟨new, events, depth, made⟩ := h
  obtain ⟨more, events', depth', made'⟩ := h'
  refine ⟨new ++ more, by rw [events', events, List.append_assoc], ?_, fun e mem => ?_⟩
  · rw [replay_append, depth]
    exact depth'
  · exact (List.mem_append.1 mem).elim (made e) (made' e)

theorem extends_record {e : Event} {depth : Nat} (made : e.MadeAt clock) (h : e.replay c.depth = some depth) :
    c.Extends clock { c.record e with depth := depth } :=
  ⟨[e], Array.toList_push, (replay_singleton _ _).trans h, fun _ mem => List.mem_singleton.1 mem ▸ made⟩

theorem extends_message (c : Console) (channel : Channel) (text : String) : c.Extends clock (c.message channel text) :=
  extends_record trivial (if_pos rfl)

theorem extends_openGroup (c : Console) (label : String) : c.Extends clock (c.openGroup label) :=
  extends_record trivial (if_pos rfl)

theorem extends_mark (c : Console) (name : String) (elapsed : Nat) : c.Extends elapsed (c.mark name elapsed) :=
  extends_record rfl rfl

/-- A group can be closed only if one is open, and then the innermost is. -/
theorem closeGroup_ok (h : c.closeGroup = .ok c') :
    ∃ depth, c.depth = depth + 1 ∧ c' = { c.record (.closed depth) with depth := depth } := by
  unfold closeGroup at h
  cases depth : c.depth with
  | zero => rw [depth] at h; cases h
  | succ inner =>
    rw [depth] at h
    cases h
    exact ⟨inner, rfl, rfl⟩

theorem extends_closed {depth : Nat} (h : c.depth = depth + 1) :
    c.Extends clock { c.record (.closed depth) with depth := depth } :=
  extends_record trivial (if_pos h.symm)

theorem extends_closeGroup (h : c.closeGroup = .ok c') : c.Extends clock c' := by
  obtain ⟨depth, opened, rfl⟩ := closeGroup_ok h
  exact extends_closed opened

theorem extends_close (c : Console) (n : Nat) : c.Extends clock (c.close n) := by
  induction n generalizing c with
  | zero => exact .refl c
  | succ n ih =>
    unfold close
    split
    · exact .refl c
    · rename_i depth open_
      exact (extends_closed open_).trans (ih _)

theorem extends_closeTo (c : Console) (depth : Nat) : c.Extends clock (c.closeTo depth) := c.extends_close _

end Console

theorem Journal.extends_unwind (clock : Nat) (j : Journal) : j.console.Extends clock j.unwind.console := by
  unfold unwind
  split
  · exact .refl _
  · exact j.console.extends_closeTo 0

/-! Worlds. -/

namespace World

variable {w w' : World}

/-- The console was extended, all at one time. -/
def Records (w w' : World) : Prop := w'.clock = w.clock ∧ w.journal.console.Extends w.clock w'.journal.console

instance : IsPreorder World Records where
  refl w := ⟨rfl, .refl w.journal.console⟩
  trans _ _ _ h h' := ⟨h'.1.trans h.1, h.2.trans (h.1 ▸ h'.2)⟩

/-- The console and the clock. -/
def timed (w : World) : Console × Nat := (w.journal.console, w.clock)

theorem records_of_timed (h : w'.timed = w.timed) : Records w w' := by
  obtain ⟨console, clock⟩ := Prod.mk.inj h
  refine ⟨clock, ?_⟩
  rw [console]
  exact .refl _

theorem timed_noteAll (w : World) (ns : List Notice) : (w.noteAll ns).timed = w.timed := by
  induction ns generalizing w with
  | nil => rfl
  | cons n ns ih => exact ih (w.note n)

theorem timed_publish (w : World) (exports : List (String × Extern)) : (w.publish exports).timed = w.timed := by
  unfold publish
  split
  · rfl
  · exact timed_noteAll w _

theorem timed_post (w : World) (r : Response) : (w.post r).timed = w.timed := by
  unfold post
  split <;> rfl

theorem console_publish (w : World) (exports : List (String × Extern)) :
    (w.publish exports).journal.console = w.journal.console :=
  congrArg Prod.fst (w.timed_publish exports)

end World

namespace Action

open World (Records)

theorem records_journal {g : World → Journal} (h : ∀ w : World, w.journal.console.Extends w.clock (g w).console) :
    Respects Records (modify fun w => { w with journal := g w } : Action Unit) :=
  respects_modify fun w => ⟨rfl, h w⟩

theorem records_message (channel : Channel) (address count : UInt32) :
    Respects Records (message channel address count) :=
  (respects_decode address count).bind fun text => records_journal fun w => w.journal.console.extends_message channel text

theorem records_group (address count : UInt32) : Respects Records (group address count) :=
  (respects_decode address count).bind fun label => records_journal fun w => w.journal.console.extends_openGroup label

theorem records_panicError (address count : UInt32) : Respects Records (panicError address count) :=
  (respects_decode address count).attempt.bind fun _ =>
    (records_journal fun w => w.journal.extends_unwind w.clock).bind fun _ => (respects_ofExcept _).bind fun text =>
      (records_journal fun w => w.journal.console.extends_message .error text).bind fun _ => respects_throw _

theorem records_mark (address count : UInt32) : Respects Records (mark address count) := by
  refine (respects_decode address count).attempt.bind fun text => ?_
  cases text with
  | ok name => exact records_journal fun w => w.journal.console.extends_mark name w.clock
  | error f => exact respects_modify fun w => World.records_of_timed rfl

theorem records_post (wrap : String → Response) (address count : UInt32) :
    Respects Records (post wrap address count) :=
  (respects_decode address count).bind fun text => respects_modify fun w =>
    World.records_of_timed (w.timed_post (wrap text))

/-- Ending a group closes the innermost one. If none is open, nothing changes. -/
theorem run_groupEnd (w : World) :
    groupEnd.run.run w =
      match w.journal.closeGroup with
      | .ok j => (.ok (), { w with journal := j })
      | .error f => (.error f, w) := by
  unfold groupEnd
  rw [run_bind, run_get]
  dsimp only
  rw [run_bind, run_ofExcept]
  cases w.journal.closeGroup <;> rfl

theorem records_groupEnd : Respects Records groupEnd := by
  intro w
  rw [run_groupEnd]
  unfold Journal.closeGroup
  cases closed : w.journal.console.closeGroup with
  | error f => exact refl_of Records w
  | ok c => exact ⟨rfl, Console.extends_closeGroup closed⟩

theorem records_hostCall (call : HostCall) (address count : UInt32) : Respects Records (hostCall call address count) := by
  cases call with
  | log => exact records_message _ _ _
  | warn => exact records_message _ _ _
  | error => exact records_message _ _ _
  | panicError => exact records_panicError _ _
  | group => exact records_group _ _
  | groupEnd => exact records_groupEnd
  | mark => exact records_mark _ _
  | compileInit => exact respects_pure ()
  | postOutput => exact records_post _ _ _
  | postError => exact records_post _ _ _

end Action

/-! Steps and runs. -/

namespace Machine

open World (Records)

variable {m m' : Machine} {fuel : Nat} {w : World} {outcome : Outcome}

theorem Local.records (h : m.Local m') : Records m.world m'.world := by
  cases h <;> exact World.records_of_timed rfl

theorem records_openPhase (m : Machine) (next : Nat) (entry : String) : Records m.world (m.openPhase next entry).world :=
  ⟨rfl, m.world.journal.console.extends_openGroup _⟩

theorem records_closePhase (m : Machine) (depth : Nat) : Records m.world (m.closePhase depth).world :=
  ⟨rfl, m.world.journal.console.extends_closeTo depth⟩

theorem records_enterUnit (m : Machine) (l : Linking) : Records m.world (m.enterUnit l).world := by
  unfold enterUnit
  dsimp only
  repeat' split
  · exact World.records_of_timed rfl
  · exact World.records_of_timed rfl
  · exact m.records_openPhase _ _

theorem records_link (m : Machine) (r : LinkRequest) : Records m.world (m.link r).world := by
  have prepared : Records m.world ((Action.prepare r).run.run m.world).2 :=
    Action.respects_linking (fun _ _ => World.records_of_timed rfl) (fun _ _ => World.records_of_timed rfl) r m.world
  unfold link
  rcases run : (Action.prepare r).run.run m.world with ⟨f | l, w⟩
  · rw [run] at prepared
    exact prepared
  · rw [run] at prepared
    dsimp only
    split
    · exact prepared
    · exact trans_of Records prepared (records_enterUnit { m with world := w } l)

theorem records_call (m : Machine) (callee : Callee) (args : List Value) :
    Records m.world (m.call callee args).world := by
  unfold call
  split
  · repeat' split
    all_goals exact refl_of Records m.world
  · exact records_link m _
  · split
    · exact (Action.records_hostCall _ _ _).of_run ‹_›
    · exact (Action.records_hostCall _ _ _).of_run ‹_›

theorem records_initialized (m : Machine) (l : Linking) (main : Callee) (next depth : Nat) (code : Int32) :
    Records m.world (m.initialized l main next depth code).world := by
  unfold initialized
  dsimp only
  split
  · exact trans_of Records (m.records_closePhase depth) ((m.closePhase depth).records_openPhase _ _)
  · -- The assertion message comes first, inside the group that is closed next.
    have asserted : Console.Extends m.world.clock _ _ := m.world.journal.console.extends_message .error
      s!"assertion failed: {m.world.config.abi.staticInit} returned {code.toInt}, expected 0"
    exact ⟨rfl, asserted.trans (Console.extends_closeTo _ depth)⟩

theorem records_executed (m : Machine) (l : Linking) (depth : Nat) (value : UInt32) :
    Records m.world (m.executed l depth value).world := by
  have published : Records m.world ((m.closePhase depth).world.publish l.owner.symbols) :=
    trans_of Records (m.records_closePhase depth) (World.records_of_timed (World.timed_publish _ _))
  unfold executed
  dsimp only
  repeat' split
  all_goals exact published

theorem records_resume (m : Machine) (f : Frame) (results : List Value) :
    Records m.world (m.resume f results).world := by
  cases f with
  | caller a => exact refl_of Records m.world
  | start l => exact m.records_enterUnit l
  | staticInit l main next depth => exact m.records_initialized l main next depth _
  | main l depth => exact m.records_executed l depth _
  | report index => exact World.records_of_timed rfl

theorem records_abandon (m : Machine) (f : Frame) (r : Raised) : Records m.world (m.abandon f r).world := by
  cases f with
  | caller a => exact refl_of Records m.world
  | start l => exact World.records_of_timed rfl
  | staticInit l main next depth => exact m.records_closePhase depth
  | main l depth => exact m.records_closePhase depth
  | report index => exact World.records_of_timed rfl

theorem step_records (h : m.step = .inl m') : Records m.world m'.world := by
  cases step_taken h with
  | code a _ hc own => exact own.records
  | call callee args hc => exact records_call m callee args
  | resume f frames results hc hf => exact records_resume m.pop f results
  | abandon f frames r hc hf => exact records_abandon m.pop f r

theorem run_records (run : m.run fuel = some (w, outcome)) : Records m.world w :=
  run_kept (P := Records m.world) (fun before step => trans_of Records before (step_records step)) run
    (refl_of Records m.world)

theorem records_of_visited {n : Machine} (h : n ∈ m.visited fuel) : Records m.world n.world :=
  visited_kept (P := fun n => Records m.world n.world) (fun before step => trans_of Records before (step_records step))
    (refl_of Records m.world) h

theorem visited_records {n : Machine} (h : n ∈ m.visited fuel) :
    m.world.journal.console.Extends m.world.clock n.world.journal.console :=
  (records_of_visited h).2

end Machine

/-! Loading and submitting. -/

namespace Run

open World (Records)

variable {w w' : World} {fuel : Nat} {base : Module} {e : BaseExports}

theorem instantiate_records {d : Definitions} {owner : Instance}
    (h : (instantiate fuel d base).run.run w = some (.ok owner, w')) : Records w w' := by
  obtain ⟨v, joined, started⟩ := instantiate_cases h
  have joined : Records w v :=
    (Action.respects_instantiate (fun _ _ => World.records_of_timed rfl) d base).of_run joined
  rcases started with ⟨callee, results, -, run⟩ | ⟨-, rfl⟩
  · exact trans_of Records joined (Machine.run_records run)
  · exact joined

theorem place_records (h : (place fuel base).run.run w = some (.ok e, w')) : Records w w' := by
  obtain ⟨d, v, owner, v₁, surfaced, joined, -, installed⟩ := place_cases h
  have surfaced : Records w v := (Action.respects_surface fun _ _ => World.records_of_timed rfl).of_run surfaced
  have started : Records w v₁ := trans_of Records surfaced (instantiate_records joined)
  obtain ⟨surface, -, rfl⟩ := Action.install_ok installed
  refine trans_of Records started (World.records_of_timed ?_)
  exact World.timed_publish _ _

theorem load_records (h : (load fuel base).run.run w = some (.ok e, w')) : Records w w' := by
  obtain ⟨v, v', results, ns, placed, run, rfl⟩ := load_cases h
  refine trans_of Records (place_records placed) (trans_of Records (Machine.run_records run) ?_)
  exact World.records_of_timed (World.timed_noteAll { v' with pending := none } ns)

/-- The states that the start function of a base goes through. -/
def starting (fuel : Nat) (base : Module) (w : World) : List Machine :=
  match Action.surface.run.run w with
  | (.ok d, v) =>
    match (Action.instantiate d base).run.run v with
    | (.ok owner, v) =>
      match base.start.bind (owner.funcs[·]?) with
      | some callee => Machine.visited fuel { world := v, control := .call callee [] }
      | none => []
    | (.error _, _) => []
  | (.error _, _) => []

theorem starting_records {n : Machine} (h : n ∈ starting fuel base w) : Records w n.world := by
  have surfaced : Records w (Action.surface.run.run w).2 :=
    Action.respects_surface (fun _ _ => World.records_of_timed rfl) w
  unfold starting at h
  split at h
  · rename_i d v defined
    have joined : Records v ((Action.instantiate d base).run.run v).2 :=
      Action.respects_instantiate (fun _ _ => World.records_of_timed rfl) d base v
    rw [defined] at surfaced
    split at h
    · rename_i instantiated
      rw [instantiated] at joined
      split at h
      · exact trans_of Records surfaced (trans_of Records joined (Machine.records_of_visited h))
      · cases h
    · cases h
  · cases h

/-- The initializer goes on from what was recorded while the base was put in place. -/
theorem initialization_records {n : Machine} (h : n ∈ initialization fuel base w) : Records w n.world := by
  unfold initialization at h
  split at h
  · rename_i placed
    exact trans_of Records (place_records placed) (Machine.records_of_visited h)
  · cases h

end Run

namespace Session

open World (Records)

variable {s s' : Session} {fuel : Nat} {text : String} {m : Machine}

theorem evaluation_timed (fits : s.evaluation text = .ok m) : m.world.timed = s.world.timed := by
  unfold evaluation at fits
  dsimp only at fits
  cases written : (s.world.store.memory s.memory).writeText text with
  | error f => rw [written] at fits; cases fits
  | ok result => rw [written] at fits; cases fits; rfl

theorem evaluation_console (fits : s.evaluation text = .ok m) : m.world.journal.console = s.world.journal.console :=
  congrArg Prod.fst (evaluation_timed fits)

theorem settled_records (w : World) (outcome : Outcome) : Records w (settled w outcome) := by
  cases outcome with
  | ok results => exact World.records_of_timed rfl
  | error raised =>
    have unwound : Records w { w with journal := w.journal.unwind } := ⟨rfl, w.journal.extends_unwind w.clock⟩
    unfold settled clean
    dsimp only
    split <;> exact unwound

theorem submit_records {answer : Except Failure Response} (h : s.submit fuel text = some (answer, s')) :
    Records s.world s'.world := by
  by_cases ready : s.state = .ready
  · rcases submit_cases ready h with ⟨f, misfit, rfl⟩ | ⟨m, w, outcome, fits, run, rfl⟩
    · exact World.records_of_timed rfl
    · have written : Records s.world m.world := World.records_of_timed (evaluation_timed fits)
      exact trans_of Records written (trans_of Records (Machine.run_records run) (settled_records w outcome))
  · rw [submit, if_pos ready] at h
    cases h
    exact refl_of Records s.world

theorem visited_records {n : Machine} (h : n ∈ s.visited fuel text) : Records s.world n.world := by
  unfold Session.visited at h
  cases fits : s.evaluation text with
  | error f => rw [fits] at h; cases h
  | ok m =>
    rw [fits] at h
    exact trans_of Records (World.records_of_timed (evaluation_timed fits)) (Machine.records_of_visited h)

end Session

/-! What the owner of a session asks and is told. -/

/-- What the owner of a session can ask. A submission is made some time after the session began. -/
inductive Question where
  | submit (nanos : Nat) (text : String)
  | snapshot
  | drainConsole
  | history
  | info

/-- What the owner of a session is told. -/
inductive Reply where
  | response (answer : Except Failure Response)
  | snapshot (seen : Except Failure Snapshot)
  | events (drained : Except Failure (Array Event))
  | history (entries : Except Failure (List HistoryEntry))
  | info (state : Lifecycle) (loadError : Option Failure)

/-- Asks one thing after the other. -/
def askEach (ask : σ → α → Option (β × σ)) (s : σ) : List α → Option (List β × σ)
  | [] => some ([], s)
  | question :: rest => do
    let (reply, s) ← ask s question
    let (replies, s) ← askEach ask s rest
    some (reply :: replies, s)

/-- What a session replies. -/
def Session.reply (fuel : Nat) (s : Session) : Question → Option (Reply × Session)
  | .submit nanos text => ((s.atTime nanos).submit fuel text).map fun (answer, s) => (.response answer, s)
  | .snapshot => some (.snapshot (.ok s.snapshot), s)
  | .drainConsole => some (.events (.ok s.drainConsole.1), s.drainConsole.2)
  | .history => some (.history (.ok s.history), s)
  | .info => some (.info s.state none, s)

/-- The entries that a reply hands out. -/
def Reply.drained : Reply → List Event
  | .events (.ok entries) => entries.toList
  | _ => []

/-- The entries of the console since the last drain. -/
def World.recorded (w : World) : List Event := w.journal.console.events.toList

/-- All entries made so far replay to the number of open groups; `drained` are those that were handed out. -/
def World.Transcribed (w : World) (drained : List Event) : Prop := replay 0 (drained ++ w.recorded) = some w.depth

theorem World.Transcribed.records {w w' : World} {drained : List Event} (h : w.Transcribed drained)
    (records : w.Records w') : w'.Transcribed drained := by
  obtain ⟨new, events, depth, -⟩ := records.2
  unfold Transcribed recorded at *
  rw [events, ← List.append_assoc, replay_append, h]
  exact depth

theorem Session.transcribed_reply {s s' : Session} {fuel : Nat} {question : Question} {reply : Reply}
    {drained : List Event} (h : s.world.Transcribed drained) (told : s.reply fuel question = some (reply, s')) :
    s'.world.Transcribed (drained ++ reply.drained) := by
  have same (quiet : reply.drained = []) (kept : s'.world.Transcribed drained) :
      s'.world.Transcribed (drained ++ reply.drained) := by
    rw [quiet, List.append_nil]
    exact kept
  cases question with
  | submit nanos text =>
    obtain ⟨⟨answer, _⟩, submitted, told⟩ := Option.map_eq_some_iff.1 told
    cases told
    have waited : (s.atTime nanos).world.Transcribed drained := h
    exact same rfl (waited.records (submit_records submitted))
  | drainConsole =>
    cases told
    have empty : s.drainConsole.2.world.recorded = [] := rfl
    unfold World.Transcribed at *
    rw [empty, List.append_nil]
    exact h
  | snapshot => cases told; exact same rfl h
  | history => cases told; exact same rfl h
  | info => cases told; exact same rfl h

theorem Session.transcribed_askEach {s s' : Session} {fuel : Nat} {questions : List Question} {replies : List Reply}
    {drained : List Event} (h : s.world.Transcribed drained)
    (told : askEach (Session.reply fuel) s questions = some (replies, s')) :
    s'.world.Transcribed (drained ++ replies.flatMap Reply.drained) := by
  induction questions generalizing s replies drained with
  | nil =>
    cases told
    rw [List.flatMap_nil, List.append_nil]
    exact h
  | cons question rest ih =>
    obtain ⟨⟨reply, next⟩, first, told⟩ := Option.bind_eq_some_iff.1 told
    obtain ⟨⟨more, last⟩, rest, told⟩ := Option.bind_eq_some_iff.1 told
    cases told
    rw [List.flatMap_cons, ← List.append_assoc]
    exact ih (transcribed_reply h first) rest

/-- A call of `group_end` fails, and changes nothing, exactly if no group is open. -/
theorem Machine.step_groupEnd {m : Machine} {args : List Value} (hc : m.control = .call (.host .groupEnd) args) :
    ∃ m', m.step = .inl m' ∧ (m'.control = .raise (.failure .unbalancedGroup) ↔ m.world.depth = 0) ∧
      (m.world.depth = 0 → m'.world = m.world) := by
  have run := Action.run_groupEnd m.world
  refine ⟨_, step_call hc, ?_⟩
  unfold call
  simp only [Action.hostCall, run]
  unfold Journal.closeGroup Console.closeGroup World.depth
  cases depth : m.world.journal.console.depth with
  | zero => exact ⟨⟨fun _ => rfl, fun _ => rfl⟩, fun _ => rfl⟩
  | succ depth => exact ⟨⟨nofun, nofun⟩, nofun⟩

/-- All entries made so far replay to the number of open groups, and a call of `group_end` fails, changing nothing,
exactly if the replay ends at no open group. -/
structure Machine.Transcribed (m : Machine) (drained : List Event) : Prop where
  replays : Replays (drained ++ m.world.recorded) m.world.depth
  groupEnd : ∀ args, m.control = .call (.host .groupEnd) args → ∃ m', m.step = .inl m' ∧
    (m'.control = .raise (.failure .unbalancedGroup) ↔ replay 0 (drained ++ m.world.recorded) = some 0) ∧
    (m'.control = .raise (.failure .unbalancedGroup) → m'.world = m.world)

theorem Machine.transcribed_of_world {m : Machine} {drained : List Event} (h : m.world.Transcribed drained) :
    m.Transcribed drained := by
  refine ⟨replays_of_replay h, fun args hc => ?_⟩
  obtain ⟨m', step, fails, same⟩ := step_groupEnd hc
  have replayed : replay 0 (drained ++ m.world.recorded) = some 0 ↔ m.world.depth = 0 := by
    rw [h, Option.some.injEq]
  exact ⟨m', step, fails.trans replayed.symm, fun failed => same (fails.1 failed)⟩

/-- The arguments of a call of `group_end` about to be made with no group open. -/
def Machine.unbalanced? (m : Machine) : Option (List Value) :=
  match m.control, m.world.depth with
  | .call (.host .groupEnd) args, 0 => some args
  | _, _ => none

theorem Machine.unbalanced?_eq_some {m : Machine} {args : List Value} (h : m.unbalanced? = some args) :
    m.control = .call (.host .groupEnd) args ∧ m.world.depth = 0 := by
  unfold unbalanced? at h
  split at h
  · rename_i control depth
    cases h
    exact ⟨control, depth⟩
  · cases h

/-- A base whose evaluator opens a group named by the text, and ends two. -/
def Sample.closingBase : Module :=
  .ofEvaluator [.group, .groupEnd] [] [.localGet 0, .localGet 1, .call 0, .call 1, .call 1]

/-- Whatever its owner has asked of a loaded session, the entries handed out so far and those still held replay from no
open group to the number of groups that are open, and no entry closes a group that is not open. The same holds in every
state of code that ran while the session was loaded and in every state of a further submission, and there a call of
`group_end` fails exactly if the replay ends at no open group. -/
theorem console_replays {loading fuel : Nat} {engine : Engine} {base : Module} {config : Config} {log : Array Notice}
    {s s' : Session} {questions : List Question} {replies : List Reply}
    (loaded : Session.load loading engine base config log = some (.ok s))
    (told : askEach (Session.reply fuel) s questions = some (replies, s')) :
    Replays (replies.flatMap Reply.drained ++ s'.world.recorded) s'.groupDepth ∧
    (∀ n ∈ Run.starting loading base (.fresh engine config log) ++
      Run.initialization loading base (.fresh engine config log), n.Transcribed []) ∧
    ∀ (more : Nat) (text : String), ∀ n ∈ s'.visited more text, n.Transcribed (replies.flatMap Reply.drained) := by
  have fresh : (World.fresh engine config log).Transcribed [] := rfl
  obtain ⟨-, -, e, load⟩ := Session.load_ok loaded
  have begun : s.world.Transcribed [] := fresh.records (Run.load_records load)
  have reached : s'.world.Transcribed (replies.flatMap Reply.drained) := Session.transcribed_askEach begun told
  refine ⟨replays_of_replay reached, fun n mem => ?_, fun more text n mem => ?_⟩
  · apply Machine.transcribed_of_world
    rcases List.mem_append.1 mem with starting | initializing
    · exact fresh.records (Run.starting_records starting)
    · exact fresh.records (Run.initialization_records initializing)
  · exact Machine.transcribed_of_world (reached.records (Session.visited_records mem))

/-- Two submissions end a group too many, with a drain between them; in a third one the second call fails. -/
theorem group_end_without_group : ∃ s replies s' n args,
    Session.load 100 {} Sample.closingBase {} = some (.ok s) ∧
    askEach (Session.reply 100) s [.submit 0 "ab", .drainConsole, .submit 5 "c"] = some (replies, s') ∧
    replies.flatMap Reply.drained = [.opened 0 "ab", .closed 0] ∧ s'.world.recorded = [.opened 0 "c", .closed 0] ∧
    Replays ([.opened 0 "ab", .closed 0] ++ [.opened 0 "c", .closed 0]) s'.groupDepth ∧
    n ∈ s'.visited 100 "" ∧ n.control = .call (.host .groupEnd) args ∧ n.world.depth = 0 ∧
    n.Transcribed [.opened 0 "ab", .closed 0] := by
  have evaluated : ((Session.load 100 {} Sample.closingBase {}).bind fun loaded => loaded.toOption.bind fun s =>
      (askEach (Session.reply 100) s [.submit 0 "ab", .drainConsole, .submit 5 "c"]).bind fun (replies, s') =>
      ((s'.visited 100 "").find? (·.unbalanced?.isSome)).map fun _ =>
        (replies.flatMap Reply.drained, s'.world.recorded)) =
      some ([.opened 0 "ab", .closed 0], [.opened 0 "c", .closed 0]) := by decide +kernel
  obtain ⟨loaded, begun, evaluated⟩ := Option.bind_eq_some_iff.1 evaluated
  obtain ⟨s, ok, evaluated⟩ := Option.bind_eq_some_iff.1 evaluated
  obtain ⟨⟨replies, s'⟩, told, evaluated⟩ := Option.bind_eq_some_iff.1 evaluated
  obtain ⟨n, found, seen⟩ := Option.map_eq_some_iff.1 evaluated
  obtain ⟨drained, recorded⟩ := Prod.mk.inj seen
  rw [ok_of_toOption ok] at begun
  have mem := List.mem_of_find?_eq_some found
  obtain ⟨replays, -, visited⟩ := console_replays begun told
  rw [drained] at replays visited
  rw [recorded] at replays
  have called := List.find?_some found
  obtain ⟨args, calling⟩ := Option.isSome_iff_exists.1 called
  obtain ⟨control, depth⟩ := Machine.unbalanced?_eq_some calling
  exact ⟨s, replies, s', n, args, begun, told, drained, recorded, replays, mem, control, depth, visited 100 "" n mem⟩

end UnitHost
