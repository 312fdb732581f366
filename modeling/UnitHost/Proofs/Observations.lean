import UnitHost.Proofs.Isolation

/-!
# Looking at a session does not disturb it

Between submissions the owner of a session may look at it: at the program, the units, the history, the number of open
groups, and at the console, which hands its entries out. Only the last changes anything, and what it takes away a later
look does not show again. A session that was looked at is therefore compared with the one that was not through
`Session.seen`, with all that was handed out in front of the console: `Session.seen_observe` says that one look makes no
difference, and `Session.askEach_visit_seen` that the submissions among any number of visits go as they do by
themselves.
-/

namespace UnitHost

/-- What the owner of a session can look at. -/
inductive Observation where
  | snapshot
  | units
  | history
  | groupDepth
  | drainConsole
  deriving DecidableEq

/-- What the owner of a session is shown. -/
inductive Observed where
  | snapshot (program : Snapshot)
  | units (units : List UnitSummary)
  | history (entries : List HistoryEntry)
  | groupDepth (depth : Nat)
  | events (drained : Array Event)

/-- A visit of the owner: a submission at some time after the session began, or a look at the session. -/
inductive Visit where
  | submit (nanos : Nat) (text : String)
  | observe (o : Observation)

/-- What answers a visit. -/
inductive Answer where
  | response (answer : Except Failure Response)
  | observed (shown : Observed)

/-- The text that a visit submits. -/
def Visit.text? : Visit → Option String
  | .submit _ text => some text
  | .observe _ => none

/-- The response to a submission. -/
def Answer.response? : Answer → Option (Except Failure Response)
  | .response answer => some answer
  | .observed _ => none

/-- The entries that an answer hands out. -/
def Answer.drained : Answer → List Event
  | .observed (.events entries) => entries.toList
  | _ => []

/-- The texts submitted, in order. -/
def Visit.submitted (visits : List Visit) : List String := visits.filterMap text?

/-- Visits that begin with the same number of submissions begin with the same ones. -/
theorem Visit.submitted_take_eq {visits visits' : List Visit} (same : submitted visits = submitted visits')
    {i j : Nat} (count : (submitted (visits.take i)).length = (submitted (visits'.take j)).length) :
    submitted (visits.take i) = submitted (visits'.take j) := by
  have first : submitted (visits.take i) <+: submitted visits := (List.take_prefix i visits).filterMap text?
  have second : submitted (visits'.take j) <+: submitted visits' := (List.take_prefix j visits').filterMap text?
  rw [same] at first
  rw [List.prefix_iff_eq_take.1 first, List.prefix_iff_eq_take.1 second, count]

namespace Session

/-- What a look at a session shows, and the session after it. -/
def observe (s : Session) : Observation → Observed × Session
  | .snapshot => (.snapshot s.snapshot, s)
  | .units => (.units s.units, s)
  | .history => (.history s.history, s)
  | .groupDepth => (.groupDepth s.groupDepth, s)
  | .drainConsole => (.events s.drainConsole.1, s.drainConsole.2)

/-- Answers a visit. -/
def visit (fuel : Nat) (s : Session) : Visit → Option (Answer × Session)
  | .submit nanos text => ((s.atTime nanos).submit fuel text).map fun (answer, s) => (.response answer, s)
  | .observe o => some (.observed (s.observe o).1, (s.observe o).2)

variable (s : Session) (before : Array Event)

/-- Entries that a drain hands out are in front of what the console records from then on. -/
theorem drainConsole_seen :
    s.drainConsole.2.seen (before ++ s.drainConsole.1.map Event.timeless) = s.seen before := by
  simp [drainConsole, seen, World.seen, Journal.drain, Journal.seen, Console.drain, Console.seen]

theorem recorded_seen : (s.seen before).world.recorded = before.toList ++ s.world.recorded.map Event.timeless := by
  simp [World.recorded, seen, World.seen, Journal.seen, Console.seen]

/-- What was handed out before does not matter for a look at anything but the console. -/
theorem observe_seen {o : Observation} (quiet : o ≠ .drainConsole) : ((s.seen before).observe o).1 = (s.observe o).1 := by
  cases o with
  | drainConsole => exact absurd rfl quiet
  | _ => rfl

/-- The session after a look is the session before it, behind what the look has handed out. -/
theorem seen_observe (before : List Event) (o : Observation) : s.seen before.toArray =
    (s.observe o).2.seen (before ++ (Answer.observed (s.observe o).1).drained.map Event.timeless).toArray := by
  cases o with
  | drainConsole =>
    have handed : (before ++ (s.drainConsole.1.toList).map Event.timeless).toArray =
        before.toArray ++ s.drainConsole.1.map Event.timeless := by simp
    exact (congrArg s.drainConsole.2.seen handed).trans (s.drainConsole_seen before.toArray) |>.symm
  | _ => exact congrArg (fun handed : List Event => s.seen handed.toArray) (List.append_nil before).symm

variable (fuel : Nat)

/-- The submissions among visits go as they do by themselves, and by themselves leave the console that the visits
leave, behind all that they hand out. -/
theorem askEach_visit_seen (before : List Event) (visits : List Visit) :
    askEach (submit fuel) (s.seen before.toArray) (Visit.submitted visits) =
      (askEach (visit fuel) s visits).map fun (answers, s) => (answers.filterMap Answer.response?,
        s.seen (before ++ (answers.flatMap Answer.drained).map Event.timeless).toArray) := by
  -- What a look hands out counts as handed out before by the visits after it.
  induction visits generalizing s before with
  | nil => simp [askEach, Visit.submitted]
  | cons first rest ih =>
    rw [askEach_cons]
    cases first with
    | submit nanos text =>
      have texts : Visit.submitted (.submit nanos text :: rest) = text :: Visit.submitted rest := rfl
      have alone : (s.seen before.toArray).submit fuel text = _ := submit_seen before.toArray (s.atTime nanos) fuel text
      have answered : s.visit fuel (.submit nanos text) =
        ((s.atTime nanos).submit fuel text).map fun (answer, s) => (.response answer, s) := rfl
      rw [texts, askEach_cons, alone, answered]
      rcases (s.atTime nanos).submit fuel text with _ | ⟨answer, next⟩
      · rfl
      · dsimp only [Option.map_some, Option.bind_some]
        rw [ih next before]
        cases askEach (visit fuel) next rest <;> rfl
    | observe o =>
      have texts : Visit.submitted (.observe o :: rest) = Visit.submitted rest := rfl
      have answered : s.visit fuel (.observe o) = some (.observed (s.observe o).1, (s.observe o).2) := rfl
      rw [texts, seen_observe s before o, ih, answered]
      dsimp only [Option.bind_some]
      cases askEach (visit fuel) (s.observe o).2 rest with
      | none => rfl
      | some told =>
        have silent (shown : Observed) : (Answer.observed shown).response? = none := rfl
        simp [List.filterMap_cons_none, silent]

/-- Visits with the same submissions lead to sessions that differ only in what was handed out before. -/
theorem seen_of_visits {fuel : Nat} {s last last' : Session} {visits visits' : List Visit}
    {answers answers' : List Answer} (same : Visit.submitted visits = Visit.submitted visits')
    (told : askEach (visit fuel) s visits = some (answers, last))
    (told' : askEach (visit fuel) s visits' = some (answers', last')) :
    answers.filterMap Answer.response? = answers'.filterMap Answer.response? ∧
    last.seen ((answers.flatMap Answer.drained).map Event.timeless).toArray =
      last'.seen ((answers'.flatMap Answer.drained).map Event.timeless).toArray := by
  have alone := s.askEach_visit_seen fuel [] visits
  have alone' := s.askEach_visit_seen fuel [] visits'
  rw [same, told] at alone
  rw [alone, told'] at alone'
  exact Prod.mk.inj (Option.some.inj alone')

end Session

/-- The reply to one of many questions is the reply of the state that the questions before it lead to. -/
theorem askEach_getElem? {ask : σ → α → Option (β × σ)} {s s' : σ} {questions : List α} {replies : List β}
    (told : askEach ask s questions = some (replies, s')) {i : Nat} {question : α} (asked : questions[i]? = some question) :
    ∃ mid reply next, askEach ask s (questions.take i) = some (replies.take i, mid) ∧
      ask mid question = some (reply, next) ∧ replies[i]? = some reply := by
  induction questions generalizing s replies i with
  | nil => cases asked
  | cons first rest ih =>
    obtain ⟨reply, next, more, answered, others, rfl⟩ := askEach_cons_some told
    cases i with
    | zero =>
      cases asked
      exact ⟨s, reply, next, rfl, answered, rfl⟩
    | succ i =>
      obtain ⟨mid, reply', next', before, here, found⟩ := ih others asked
      refine ⟨mid, reply', next', ?_, here, found⟩
      rw [List.take_succ_cons, askEach_cons, answered]
      dsimp only [Option.bind_some]
      rw [before]
      rfl

/-- A base whose evaluator opens a group named by the text, makes a mark of that name and leaves the group open. -/
def Sample.openingBase : Wasm.Module :=
  .ofEvaluator [.group, .mark] [] [.localGet 0, .localGet 1, .call 0, .localGet 0, .localGet 1, .call 1]

/-- Two submissions with looks between them, of which one drains the console while a group is open. -/
def Sample.watched : List Visit :=
  [.submit 5 "a", .observe .drainConsole, .observe .units, .submit 9 "b", .observe .groupDepth]

/-- The same submissions at another time, with one look at the end. -/
def Sample.unwatched : List Visit := [.submit 0 "a", .submit 0 "b", .observe .groupDepth]

/-- Visits that submit the same texts in the same order, with any looks at the session between them and at any times,
all end in one run exactly if they do in the other. Then the responses are the same. A look after the same number of
submissions shows the same in both runs, except for the console. At the end the program and the history are the same,
and so are, but for the times of marks, all entries handed out and the ones still held. -/
theorem observations_change_nothing (fuel : Nat) (s : Session) {visits visits' : List Visit}
    (same : Visit.submitted visits = Visit.submitted visits') :
    ((askEach (Session.visit fuel) s visits).isSome ↔ (askEach (Session.visit fuel) s visits').isSome) ∧
    ∀ answers answers' last last', askEach (Session.visit fuel) s visits = some (answers, last) →
      askEach (Session.visit fuel) s visits' = some (answers', last') →
      answers.filterMap Answer.response? = answers'.filterMap Answer.response? ∧
      (∀ o i j, o ≠ .drainConsole → visits[i]? = some (.observe o) → visits'[j]? = some (.observe o) →
        (Visit.submitted (visits.take i)).length = (Visit.submitted (visits'.take j)).length →
        ∃ shown, answers[i]? = some (.observed shown) ∧ answers'[j]? = some (.observed shown)) ∧
      last.snapshot = last'.snapshot ∧ last.history = last'.history ∧
      (answers.flatMap Answer.drained ++ last.world.recorded).map Event.timeless =
        (answers'.flatMap Answer.drained ++ last'.world.recorded).map Event.timeless := by
  constructor
  · have alone := s.askEach_visit_seen fuel [] visits
    rw [same, s.askEach_visit_seen fuel [] visits'] at alone
    have ends := congrArg Option.isSome alone
    rw [Option.isSome_map, Option.isSome_map] at ends
    rw [ends]
  intro answers answers' last last' told told'
  obtain ⟨responses, seen⟩ := Session.seen_of_visits same told told'
  have program := congrArg Session.snapshot seen
  have history := congrArg Session.history seen
  refine ⟨responses, fun o i j quiet asked asked' count => ?_, program, history, ?_⟩
  · -- Up to the two looks the visits have the same submissions, too.
    obtain ⟨mid, _, _, before, shown, found⟩ := askEach_getElem? told asked
    obtain ⟨mid', _, _, before', shown', found'⟩ := askEach_getElem? told' asked'
    obtain ⟨-, alike⟩ := Session.seen_of_visits (Visit.submitted_take_eq same count) before before'
    cases shown
    cases shown'
    refine ⟨(mid.observe o).1, found, ?_⟩
    rw [found', ← mid'.observe_seen _ quiet, ← alike, mid.observe_seen _ quiet]
  · have recorded := congrArg World.recorded (congrArg Session.world seen)
    rw [Session.recorded_seen, Session.recorded_seen] at recorded
    simpa using recorded

/-- A drain hands out the opening of a group that stays open. The second submission still opens its group inside. -/
theorem group_open_across_drain : ∃ s answers last answers' last',
    Session.load 100 {} Sample.openingBase {} = some (.ok s) ∧
    askEach (Session.visit 100) s Sample.watched = some (answers, last) ∧
    askEach (Session.visit 100) s Sample.unwatched = some (answers', last') ∧
    answers.flatMap Answer.drained = [.opened 0 "a", .mark "a" 5] ∧
    last.world.recorded = [.opened 1 "b", .mark "b" 9] ∧ answers'.flatMap Answer.drained = [] ∧
    last'.world.recorded.map Event.timeless = [.opened 0 "a", .mark "a" 0, .opened 1 "b", .mark "b" 0] ∧
    answers.filterMap Answer.response? = answers'.filterMap Answer.response? ∧
    (∃ shown, answers[4]? = some (.observed shown) ∧ answers'[2]? = some (.observed shown)) ∧
    last.groupDepth = 2 ∧ last.snapshot = last'.snapshot := by
  have evaluated : ((Session.load 100 {} Sample.openingBase {}).bind fun loaded => loaded.toOption.bind fun s =>
      (askEach (Session.visit 100) s Sample.watched).bind fun (answers, last) =>
      (askEach (Session.visit 100) s Sample.unwatched).map fun (answers', _) =>
        (answers.flatMap Answer.drained, last.world.recorded, answers'.flatMap Answer.drained, last.groupDepth)) =
      some ([.opened 0 "a", .mark "a" 5], [.opened 1 "b", .mark "b" 9], [], 2) := by decide +kernel
  obtain ⟨loaded, begun, evaluated⟩ := Option.bind_eq_some_iff.1 evaluated
  obtain ⟨s, ok, evaluated⟩ := Option.bind_eq_some_iff.1 evaluated
  obtain ⟨⟨answers, last⟩, told, evaluated⟩ := Option.bind_eq_some_iff.1 evaluated
  obtain ⟨⟨answers', last'⟩, told', evaluated⟩ := Option.map_eq_some_iff.1 evaluated
  obtain ⟨drained, recorded, drained', depth⟩ :
      answers.flatMap Answer.drained = [.opened 0 "a", .mark "a" 5] ∧ last.world.recorded = [.opened 1 "b", .mark "b" 9] ∧
      answers'.flatMap Answer.drained = [] ∧ last.groupDepth = 2 := by simpa using evaluated
  rw [ok_of_toOption ok] at begun
  obtain ⟨-, agree⟩ := observations_change_nothing 100 s (show Visit.submitted Sample.watched =
    Visit.submitted Sample.unwatched from rfl)
  obtain ⟨responses, looks, program, -, entries⟩ := agree answers answers' last last' told told'
  rw [drained, recorded, drained', List.nil_append] at entries
  exact ⟨s, answers, last, answers', last', begun, told, told', drained, recorded, drained', entries.symm, responses,
    looks .groupDepth 4 2 (by decide) rfl rfl rfl, depth, program⟩

end UnitHost
