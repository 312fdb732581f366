import UnitHost.Replicator
import UnitHost.Proofs.MarkTimes

/-!
# Sessions of one replicator do not disturb each other

A replicator carries out operations on any number of sessions in any order. `Replicator.alone` is what a session is told
that is loaded by itself from the same compiled base and asked its own questions only. What a handle replies among all
others is compared with it. `Performed` says what one operation can do. From it, `asked_alone` follows one handle through
all operations and `EachEnds.isSome` says that they end if every session by itself does. `alone_timeless` says that the
times of the questions reach nothing but the marks.
-/

namespace UnitHost

open Wasm

/-! One question after the other. -/

theorem askEach_cons (ask : σ → α → Option (β × σ)) (s : σ) (question : α) (rest : List α) :
    askEach ask s (question :: rest) = (ask s question).bind fun (reply, s) =>
      (askEach ask s rest).map fun (replies, s) => (reply :: replies, s) := by
  rw [askEach]
  cases ask s question with
  | none => rfl
  | some first =>
    obtain ⟨reply, next⟩ := first
    dsimp only [Option.bind_eq_bind, Option.bind_some]
    cases askEach ask next rest <;> rfl

theorem askEach_cons_some {ask : σ → α → Option (β × σ)} {s s' : σ} {question : α} {rest : List α} {replies : List β}
    (told : askEach ask s (question :: rest) = some (replies, s')) :
    ∃ reply next more, ask s question = some (reply, next) ∧ askEach ask next rest = some (more, s') ∧
      replies = reply :: more := by
  rw [askEach_cons] at told
  obtain ⟨⟨reply, next⟩, first, told⟩ := Option.bind_eq_some_iff.1 told
  obtain ⟨⟨more, last⟩, others, told⟩ := Option.map_eq_some_iff.1 told
  cases told
  exact ⟨reply, next, more, first, others, rfl⟩

/-- Whoever sees questions, replies and states through functions that commute with asking sees the same exchange. -/
theorem askEach_map {ask : σ → α → Option (β × σ)} {ask' : τ → α' → Option (β' × τ)}
    {g : σ → τ} {q : α → α'} {a : β → β'}
    (h : ∀ s question, ask' (g s) (q question) = (ask s question).map fun (reply, s) => (a reply, g s))
    (s : σ) (questions : List α) : askEach ask' (g s) (questions.map q) =
      (askEach ask s questions).map fun (replies, s) => (replies.map a, g s) := by
  induction questions generalizing s with
  | nil => rfl
  | cons question rest ih =>
    rw [List.map_cons, askEach_cons, askEach_cons, h]
    rcases ask s question with _ | ⟨reply, next⟩
    · rfl
    · dsimp only [Option.map_some, Option.bind_some]
      rw [ih]
      cases askEach ask next rest <;> rfl

/-! Times. -/

/-- A question without the time at which it is asked. -/
def Question.timeless : Question → Question
  | .submit _ text => .submit 0 text
  | question => question

/-- A reply without the times of marks. -/
def Reply.timeless : Reply → Reply
  | .events drained => .events (drained.map (·.map Event.timeless))
  | reply => reply

/-- The time of a question reaches nothing but the marks. -/
theorem Session.reply_seen (fuel : Nat) (s : Session) (question : Question) :
    (s.seen #[]).reply fuel question.timeless =
      (s.reply fuel question).map fun (reply, s) => (reply.timeless, s.seen #[]) := by
  cases question with
  | submit nanos text =>
    -- Without times, a session at one time is the session at another.
    have moved : (s.seen #[]).atTime 0 = (s.atTime nanos).seen #[] := rfl
    unfold Question.timeless reply
    dsimp only
    rw [moved, submit_seen]
    cases (s.atTime nanos).submit fuel text <;> rfl
  | drainConsole =>
    have entries : (s.seen #[]).drainConsole.1 = s.drainConsole.1.map Event.timeless := Array.empty_append
    have emptied : (s.seen #[]).drainConsole.2 = s.drainConsole.2.seen #[] := by
      simp [drainConsole, seen, World.seen, Journal.drain, Journal.seen, Console.drain, Console.seen]
    unfold Question.timeless reply
    dsimp only
    rw [entries, emptied]
    rfl
  | snapshot => rfl
  | history => rfl
  | info => rfl

/-! Handles. -/

/-- What a handle replies that has no session. -/
def Question.refused (loadError : Failure) : Question → Reply
  | .submit _ _ => .response (.error (.notReady .failed))
  | .snapshot => .snapshot (.error (.notReady .failed))
  | .drainConsole => .events (.error (.notReady .failed))
  | .history => .history (.error (.notReady .failed))
  | .info => .info .failed (some loadError)

namespace Handle

/-- What the owner of a handle is told. -/
def reply (fuel : Nat) (h : Handle) : Question → Option (Reply × Handle)
  | .submit nanos text => ((h.atTime nanos).submit fuel text).map fun (answer, h) => (.response answer, h)
  | .snapshot => some (.snapshot h.snapshot, h)
  | .drainConsole => some (.events h.drainConsole.1, h.drainConsole.2)
  | .history => some (.history h.history, h)
  | .info => some (.info h.state h.loadError?, h)

/-- The handle of a load. -/
def ofLoad (loaded : Except LoadFailure Session) : Handle := { loaded := loaded.mapError (·.failure) }

theorem reply_ok (fuel : Nat) (s : Session) (question : Question) :
    reply fuel { loaded := .ok s } question = (s.reply fuel question).map fun (reply, s) => (reply, { loaded := .ok s }) := by
  cases question with
  | submit nanos text =>
    have loaded : atTime { loaded := .ok s } nanos = { loaded := .ok (s.atTime nanos) } := rfl
    unfold reply Session.reply
    dsimp only
    rw [loaded]
    unfold submit
    dsimp only
    cases (s.atTime nanos).submit fuel text <;> rfl
  | _ => rfl

theorem reply_error (fuel : Nat) (f : Failure) (question : Question) :
    reply fuel { loaded := .error f } question = some (question.refused f, { loaded := .error f }) := by
  cases question <;> rfl

theorem askEach_ok (fuel : Nat) (s : Session) (questions : List Question) :
    askEach (reply fuel) { loaded := .ok s } questions =
      (askEach (Session.reply fuel) s questions).map fun (replies, s) => (replies, { loaded := .ok s }) := by
  have told := askEach_map (g := fun s => ({ loaded := .ok s } : Handle)) (q := id) (a := id) (reply_ok fuel) s questions
  rw [List.map_id] at told
  simpa using told

theorem askEach_error (fuel : Nat) (f : Failure) (questions : List Question) :
    askEach (reply fuel) { loaded := .error f } questions =
      some (questions.map (Question.refused f), { loaded := .error f }) := by
  induction questions with
  | nil => rfl
  | cons question rest ih =>
    rw [askEach_cons, reply_error]
    dsimp only [Option.bind_some]
    rw [ih]
    rfl

end Handle

namespace Replicator

/-! Operations of an owner. -/

/-- What the owner of a replicator can do. -/
inductive Operation where
  | spawn
  | spawnWith (config : Config)
  | ask (id : Nat) (question : Question)
  | drop (id : Nat)

/-- What the owner of a replicator is told. -/
inductive Result where
  | spawned (id : Nat) (state : Lifecycle) (loadError : Option Failure)
  | replied (id : Nat) (reply : Reply)
  | noSession (id : Nat)
  | dropped (id : Nat) (there : Bool)

/-- The configuration of the session that an operation starts, if it starts one. -/
def Operation.config? (default : Config) : Operation → Option Config
  | .spawn => some default
  | .spawnWith config => some config
  | _ => none

/-- Carries an operation out. -/
def perform (fuel : Nat) (r : Replicator) : Operation → Option (Result × Replicator)
  | .spawn => (r.spawn fuel).map fun (id, h, r) => (.spawned id h.state h.loadError?, r)
  | .spawnWith config => (r.spawnWith fuel config).map fun (id, h, r) => (.spawned id h.state h.loadError?, r)
  | .ask id question =>
    match r.handle? id with
    | none => some (.noSession id, r)
    | some h => (h.reply fuel question).map fun (reply, h) => (.replied id reply, r.setHandle id (some h))
  | .drop id => some (.dropped id (r.drop id).1, (r.drop id).2)

/-- The configurations of the sessions that operations start, each with the operations after it. -/
def started (default : Config) : List Operation → List (Config × List Operation)
  | [] => []
  | op :: rest => ((op.config? default).map (·, rest)).toList ++ started default rest

/-- The questions asked of a session until it is dropped. -/
def questionsTo (id : Nat) : List Operation → List Question
  | [] => []
  | .ask id' question :: rest => if id' = id then question :: questionsTo id rest else questionsTo id rest
  | .drop id' :: rest => if id' = id then [] else questionsTo id rest
  | _ :: rest => questionsTo id rest

/-- The reply of a session. -/
def Result.replyOf? (id : Nat) : Result → Option Reply
  | .replied id' reply => if id' = id then some reply else none
  | _ => none

/-- What the owner is told of a new session. -/
def Result.spawned? : Result → Option (Nat × Lifecycle × Option Failure)
  | .spawned id state loadError => some (id, state, loadError)
  | _ => none

/-- The replies of a session in order. -/
def repliesOf (id : Nat) (results : List Result) : List Reply := results.filterMap (Result.replyOf? id)

/-- Why a session fails to load that is loaded by itself, if it does, and what it replies. -/
def alone (fuel : Nat) (r : Replicator) (config : Config) (questions : List Question) :
    Option (Option Failure × List Reply) := do
  match ← Session.load fuel r.engine r.base config with
  | .ok s => (askEach (Session.reply fuel) s questions).map fun (replies, _) => (none, replies)
  | .error e => some (some e.failure, questions.map (Question.refused e.failure))

/-- A new session has the next number. -/
def add (r : Replicator) (h : Handle) : Replicator := { r with handles := r.handles ++ [some h] }

/-- What one operation can do. -/
inductive Performed (fuel : Nat) (r : Replicator) : Operation → Result → Replicator → Prop
  | start {op config loaded} (starts : op.config? r.config = some config)
      (ends : Session.load fuel r.engine r.base config = some loaded) :
      Performed fuel r op
        (.spawned r.handles.length (Handle.ofLoad loaded).state (Handle.ofLoad loaded).loadError?) (r.add (.ofLoad loaded))
  | ask {id question h reply h'} (there : r.handle? id = some h) (told : h.reply fuel question = some (reply, h')) :
      Performed fuel r (.ask id question) (.replied id reply) (r.setHandle id (some h'))
  | absent {id question} (gone : r.handle? id = none) : Performed fuel r (.ask id question) (.noSession id) r
  | drop {id} : Performed fuel r (.drop id) (.dropped id (r.handle? id).isSome) (r.setHandle id none)

variable {fuel : Nat} {r r' : Replicator} {op : Operation} {ops : List Operation} {result : Result}
  {results : List Result} {id : Nat} {h h' : Handle}

theorem perform_start {config : Config} (starts : op.config? r.config = some config) :
    r.perform fuel op = (Session.load fuel r.engine r.base config).map fun loaded =>
      (.spawned r.handles.length (Handle.ofLoad loaded).state (Handle.ofLoad loaded).loadError?, r.add (.ofLoad loaded)) := by
  have spawned : (r.spawnWith fuel config).map (fun (id, h, r) => (Result.spawned id h.state h.loadError?, r)) =
      (Session.load fuel r.engine r.base config).map fun loaded => (.spawned r.handles.length (Handle.ofLoad loaded).state
        (Handle.ofLoad loaded).loadError?, r.add (.ofLoad loaded)) := by
    unfold spawnWith
    rcases Session.load fuel r.engine r.base config with _ | _ | _ <;> rfl
  cases op with
  | spawn => cases starts; exact spawned
  | spawnWith config => cases starts; exact spawned
  | ask id question => cases starts
  | drop id => cases starts

theorem perform_ask (there : r.handle? id = some h) (question : Question) :
    r.perform fuel (.ask id question) =
      (h.reply fuel question).map fun (reply, h) => (.replied id reply, r.setHandle id (some h)) := by
  rw [perform, there]

theorem perform_absent (gone : r.handle? id = none) (question : Question) :
    r.perform fuel (.ask id question) = some (.noSession id, r) := by
  rw [perform, gone]

theorem performed (done : r.perform fuel op = some (result, r')) : Performed fuel r op result r' := by
  have start {config : Config} (starts : op.config? r.config = some config) : Performed fuel r op result r' := by
    rw [perform_start starts] at done
    obtain ⟨loaded, ends, done⟩ := Option.map_eq_some_iff.1 done
    cases done
    exact .start starts ends
  cases op with
  | spawn => exact start rfl
  | spawnWith config => exact start rfl
  | ask id question =>
    cases there : r.handle? id with
    | none =>
      rw [perform_absent there] at done
      cases done
      exact .absent there
    | some h =>
      rw [perform_ask there] at done
      obtain ⟨⟨reply, h'⟩, told, done⟩ := Option.map_eq_some_iff.1 done
      cases done
      exact .ask there told
  | drop id => cases done; exact .drop

/-! Which handle stands where. -/

theorem handle?_setHandle_self (old : id < r.handles.length) (h : Option Handle) : (r.setHandle id h).handle? id = h := by
  simp [handle?, setHandle, old]

theorem handle?_setHandle_other {other : Nat} (differ : other ≠ id) (h : Option Handle) :
    (r.setHandle other h).handle? id = r.handle? id := by
  simp [handle?, setHandle, List.getElem?_set_ne differ]

theorem handle?_of_length_le (unborn : r.handles.length ≤ id) : r.handle? id = none := by
  unfold handle?
  rw [List.getElem?_eq_none unborn]
  rfl

theorem length_of_handle? (there : r.handle? id = some h) : id < r.handles.length := by
  by_contra unborn
  rw [handle?_of_length_le (Nat.le_of_not_lt unborn)] at there
  cases there

theorem length_setHandle (r : Replicator) (id : Nat) (h : Option Handle) :
    (r.setHandle id h).handles.length = r.handles.length :=
  List.length_set

theorem length_add (r : Replicator) (h : Handle) : (r.add h).handles.length = r.handles.length + 1 := by
  simp [add]

theorem handle?_add_other (differ : id ≠ r.handles.length) (h : Handle) : (r.add h).handle? id = r.handle? id := by
  rcases Nat.lt_or_gt_of_ne differ with old | unborn
  · simp [handle?, add, List.getElem?_append_left old]
  · have length := r.length_add h
    rw [handle?_of_length_le (by omega), handle?_of_length_le (by omega)]

theorem ne_of_gone {other : Nat} (gone : r.handle? other = none) (there : r.handle? id = some h) : other ≠ id := by
  rintro rfl
  rw [gone] at there
  cases there

theorem handle?_add_new (r : Replicator) (h : Handle) : (r.add h).handle? r.handles.length = some h := by
  simp [handle?, add]

/-! One handle among all. -/

namespace Performed

theorem alone_eq (done : Performed fuel r op result r') : alone fuel r' = alone fuel r := by
  cases done <;> rfl

theorem config_eq (done : Performed fuel r op result r') : r'.config = r.config := by
  cases done <;> rfl

/-- A place without a session says nothing. -/
theorem silent (done : Performed fuel r op result r') (gone : r.handle? id = none) : result.replyOf? id = none := by
  cases done with
  | ask there told =>
    exact if_neg (ne_of_gone gone there).symm
  | _ => rfl

/-- A dropped session does not come back. -/
theorem stays_gone (done : Performed fuel r op result r') (gone : r.handle? id = none) (old : id < r.handles.length) :
    r'.handle? id = none ∧ id < r'.handles.length := by
  cases done with
  | start starts ends =>
    rw [length_add]
    exact ⟨(handle?_add_other (Nat.ne_of_lt old) _).trans gone, Nat.lt_succ_of_lt old⟩
  | @ask other _ _ _ _ there told =>
    rw [length_setHandle]
    exact ⟨(handle?_setHandle_other (ne_of_gone gone there).symm _).trans gone, old⟩
  | absent => exact ⟨gone, old⟩
  | @drop other =>
    rw [length_setHandle]
    refine ⟨?_, old⟩
    by_cases same : other = id
    · rw [same, handle?_setHandle_self old]
    · exact (handle?_setHandle_other same _).trans gone

end Performed

theorem repliesOf_silent (silent : result.replyOf? id = none) (more : List Result) :
    repliesOf id (result :: more) = repliesOf id more :=
  List.filterMap_cons_none silent

theorem repliesOf_gone (told : askEach (perform fuel) r ops = some (results, r')) (gone : r.handle? id = none)
    (old : id < r.handles.length) : repliesOf id results = [] := by
  induction ops generalizing r results with
  | nil => cases told; rfl
  | cons op rest ih =>
    obtain ⟨result, next, more, done, others, rfl⟩ := askEach_cons_some told
    obtain ⟨gone', old'⟩ := (performed done).stays_gone gone old
    rw [repliesOf_silent ((performed done).silent gone)]
    exact ih others gone' old'

theorem questionsTo_start {config default : Config} (starts : op.config? default = some config) (rest : List Operation) :
    questionsTo id (op :: rest) = questionsTo id rest := by
  cases op with
  | spawn => rfl
  | spawnWith config => rfl
  | ask id question => cases starts
  | drop id => cases starts

/-- What a session replies among all operations is what its handle replies to its own questions. -/
theorem asked_alone (told : askEach (perform fuel) r ops = some (results, r')) (there : r.handle? id = some h) :
    ∃ h', askEach (Handle.reply fuel) h (questionsTo id ops) = some (repliesOf id results, h') := by
  induction ops generalizing r h results with
  | nil => cases told; exact ⟨h, rfl⟩
  | cons op rest ih =>
    obtain ⟨result, next, more, done, others, rfl⟩ := askEach_cons_some told
    have old := length_of_handle? there
    cases performed done with
    | start starts ends =>
      rw [questionsTo_start starts, repliesOf_silent rfl]
      exact ih others ((handle?_add_other (Nat.ne_of_lt old) _).trans there)
    | @ask other question _ reply after asked replied =>
      by_cases same : other = id
      · subst same
        cases there.symm.trans asked
        obtain ⟨h', later⟩ := ih others (handle?_setHandle_self old _)
        have first : repliesOf other (.replied other reply :: more) = reply :: repliesOf other more :=
          List.filterMap_cons_some (if_pos rfl)
        refine ⟨h', ?_⟩
        rw [questionsTo, if_pos rfl, first, askEach_cons, replied]
        dsimp only [Option.bind_some]
        rw [later]
        rfl
      · have silent : (Result.replied other reply).replyOf? id = none := if_neg same
        rw [questionsTo, if_neg same, repliesOf_silent silent]
        exact ih others ((handle?_setHandle_other same _).trans there)
    | @absent other question gone =>
      rw [questionsTo, if_neg (ne_of_gone gone there), repliesOf_silent rfl]
      exact ih others there
    | @drop other =>
      rw [questionsTo, repliesOf_silent rfl]
      by_cases same : other = id
      · subst same
        have still : other < (r.setHandle other none).handles.length := by rwa [length_setHandle]
        rw [if_pos rfl, repliesOf_gone others (handle?_setHandle_self old _) still]
        exact ⟨h, rfl⟩
      · rw [if_neg same]
        exact ih others ((handle?_setHandle_other same _).trans there)

/-! Sessions loaded by themselves. -/

/-- A session by itself is asked through a handle of its own. -/
theorem alone_eq (fuel : Nat) (r : Replicator) (config : Config) (questions : List Question) :
    r.alone fuel config questions = (Session.load fuel r.engine r.base config).bind fun loaded =>
      (askEach (Handle.reply fuel) (.ofLoad loaded) questions).map fun (replies, _) =>
        ((Handle.ofLoad loaded).loadError?, replies) := by
  unfold alone
  rcases Session.load fuel r.engine r.base config with _ | e | s
  · rfl
  · have failed := Handle.askEach_error fuel e.failure questions
    exact congrArg (Option.map fun (replies, _) => (some e.failure, replies)) failed.symm
  · have loaded : askEach (Handle.reply fuel) (.ofLoad (.ok s)) questions = _ := Handle.askEach_ok fuel s questions
    dsimp only [Option.bind_eq_bind, Option.bind_some]
    rw [loaded]
    cases askEach (Session.reply fuel) s questions <;> rfl

/-- The times of the questions reach nothing but the marks. -/
theorem alone_timeless {config : Config} {questions questions' : List Question} {loadError : Option Failure}
    {replies : List Reply} (same : questions'.map Question.timeless = questions.map Question.timeless)
    (told : r.alone fuel config questions = some (loadError, replies)) :
    ∃ replies', r.alone fuel config questions' = some (loadError, replies') ∧
      replies'.map Reply.timeless = replies.map Reply.timeless := by
  obtain ⟨loaded, ends, told⟩ := Option.bind_eq_some_iff.1 told
  unfold alone
  rw [ends]
  cases loaded with
  | error e =>
    -- A refusal does not depend on the time, nor on the text.
    have refused (question : Question) : question.timeless.refused e.failure = question.refused e.failure := by
      cases question <;> rfl
    have all (questions : List Question) : questions.map (Question.refused e.failure) =
        (questions.map Question.timeless).map (Question.refused e.failure) := by
      simp [refused]
    cases told
    refine ⟨_, rfl, ?_⟩
    rw [all questions', all questions, same]
  | ok s =>
    obtain ⟨⟨_, last⟩, asked, told⟩ := Option.map_eq_some_iff.1 told
    cases told
    have seen := askEach_map (g := Session.seen #[]) (Session.reply_seen fuel) s
    have seen' := seen questions'
    rw [same, seen questions, asked] at seen'
    obtain ⟨⟨replies', last'⟩, asked', equal⟩ := Option.map_eq_some_iff.1 seen'.symm
    refine ⟨replies', ?_, (Prod.mk.inj equal).1⟩
    dsimp only [Option.bind_eq_bind, Option.bind_some]
    rw [asked']
    rfl

/-! Every session. -/

theorem started_start {config default : Config} (starts : op.config? default = some config) (rest : List Operation) :
    started default (op :: rest) = (config, rest) :: started default rest := by
  rw [started, starts]
  rfl

theorem started_other {default : Config} (other : op.config? default = none) (rest : List Operation) :
    started default (op :: rest) = started default rest := by
  rw [started, other]
  rfl

/-- An operation that starts no session adds no number. -/
theorem Performed.length_eq (done : Performed fuel r op result r') (other : op.config? r.config = none) :
    r'.handles.length = r.handles.length ∧ result.spawned? = none := by
  cases done with
  | start starts ends => rw [other] at starts; cases starts
  | ask there told => exact ⟨length_setHandle .., rfl⟩
  | absent gone => exact ⟨rfl, rfl⟩
  | drop => exact ⟨length_setHandle .., rfl⟩

theorem Performed.of_start {config : Config} (done : Performed fuel r op result r')
    (starts : op.config? r.config = some config) : ∃ loaded, Session.load fuel r.engine r.base config = some loaded ∧
      result = .spawned r.handles.length (Handle.ofLoad loaded).state (Handle.ofLoad loaded).loadError? ∧
      r' = r.add (.ofLoad loaded) := by
  cases done with
  | start starts' ends =>
    cases starts.symm.trans starts'
    exact ⟨_, ends, rfl, rfl⟩
  | ask there told => cases starts
  | absent gone => cases starts
  | drop => cases starts

/-- A session begins ready or, if it fails to load, failed. -/
theorem state_ofLoad {engine : Engine} {base : Module} {config : Config} {loaded : Except LoadFailure Session}
    (ends : Session.load fuel engine base config = some loaded) :
    (Handle.ofLoad loaded).state = if (Handle.ofLoad loaded).loadError?.isSome then .failed else .ready := by
  cases loaded with
  | error e => rfl
  | ok s => exact (Session.load_ok ends).1

/-- What the owner is told of a session among all others, from its start on, is what it is told of a session by itself. -/
theorem told_alone {i : Nat} {config : Config} {after : List Operation}
    (told : askEach (perform fuel) r ops = some (results, r'))
    (begun : (started r.config ops)[i]? = some (config, after)) :
    ∃ loadError, r.alone fuel config (questionsTo (r.handles.length + i) after) =
        some (loadError, repliesOf (r.handles.length + i) results) ∧
      (results.filterMap Result.spawned?)[i]? =
        some (r.handles.length + i, if loadError.isSome then .failed else .ready, loadError) := by
  induction ops generalizing r results i with
  | nil => cases begun
  | cons op rest ih =>
    obtain ⟨result, next, more, done, others, rfl⟩ := askEach_cons_some told
    have done := performed done
    have later : ∀ {i}, (started r.config rest)[i]? = some (config, after) → ∃ loadError,
        r.alone fuel config (questionsTo (next.handles.length + i) after) =
          some (loadError, repliesOf (next.handles.length + i) more) ∧
        (more.filterMap Result.spawned?)[i]? =
          some (next.handles.length + i, if loadError.isSome then .failed else .ready, loadError) := by
      intro i begun
      rw [← done.config_eq] at begun
      rw [← done.alone_eq]
      exact ih others begun
    have silent : result.replyOf? (r.handles.length + i) = none :=
      done.silent (handle?_of_length_le (Nat.le_add_right _ _))
    rw [repliesOf_silent silent]
    cases starts : op.config? r.config with
    | none =>
      obtain ⟨length, quiet⟩ := done.length_eq starts
      rw [started_other starts] at begun
      rw [List.filterMap_cons_none quiet, ← length]
      exact later begun
    | some config' =>
      obtain ⟨loaded, ends, rfl, rfl⟩ := done.of_start starts
      rw [started_start starts] at begun
      cases i with
      | zero =>
        cases begun
        obtain ⟨h', asked⟩ := asked_alone others (handle?_add_new r (.ofLoad loaded))
        refine ⟨(Handle.ofLoad loaded).loadError?, ?_, ?_⟩
        · rw [alone_eq, ends, Option.bind_some, Nat.add_zero, asked]
          rfl
        · rw [← state_ofLoad ends]
          rfl
      | succ i =>
        have length : (r.add (.ofLoad loaded)).handles.length + i = r.handles.length + (i + 1) := by
          rw [length_add]
          omega
        rw [← length]
        exact later begun

/-- Every session by itself ends with its own questions, those that are there and those that operations start. -/
structure EachEnds (fuel : Nat) (r : Replicator) (ops : List Operation) : Prop where
  old : ∀ id h, r.handle? id = some h → (askEach (Handle.reply fuel) h (questionsTo id ops)).isSome
  new : ∀ i config after, (started r.config ops)[i]? = some (config, after) →
    (r.alone fuel config (questionsTo (r.handles.length + i) after)).isSome

namespace EachEnds

variable {rest : List Operation}

/-- A session that a first operation asks replies, and goes on to end with its other questions. -/
theorem asked {question : Question} (ends : r.EachEnds fuel (.ask id question :: rest))
    (there : r.handle? id = some h) : ∃ reply h', h.reply fuel question = some (reply, h') ∧
      (askEach (Handle.reply fuel) h' (questionsTo id rest)).isSome := by
  have asked := ends.old id h there
  rw [questionsTo, if_pos rfl] at asked
  obtain ⟨⟨replies, last⟩, asked⟩ := Option.isSome_iff_exists.1 asked
  obtain ⟨reply, h', more, first, others, -⟩ := askEach_cons_some asked
  exact ⟨reply, h', first, Option.isSome_iff_exists.2 ⟨_, others⟩⟩

/-- A session that a first operation starts is loaded, and goes on to end with its questions. -/
theorem loaded {config : Config} (ends : r.EachEnds fuel (op :: rest)) (starts : op.config? r.config = some config) :
    ∃ loaded, Session.load fuel r.engine r.base config = some loaded ∧
      (askEach (Handle.reply fuel) (.ofLoad loaded) (questionsTo r.handles.length rest)).isSome := by
  have first : (started r.config (op :: rest))[0]? = some (config, rest) := by rw [started_start starts]; rfl
  obtain ⟨told, ended⟩ := Option.isSome_iff_exists.1 (ends.new 0 config rest first)
  rw [alone_eq, Nat.add_zero] at ended
  obtain ⟨loaded, ends, ended⟩ := Option.bind_eq_some_iff.1 ended
  obtain ⟨_, asked, -⟩ := Option.map_eq_some_iff.1 ended
  exact ⟨loaded, ends, Option.isSome_iff_exists.2 ⟨_, asked⟩⟩

theorem first (ends : r.EachEnds fuel (op :: rest)) : ∃ result r', r.perform fuel op = some (result, r') := by
  have start {config : Config} (starts : op.config? r.config = some config) :
      ∃ result r', r.perform fuel op = some (result, r') := by
    obtain ⟨loaded, ended, -⟩ := ends.loaded starts
    rw [perform_start starts, ended]
    exact ⟨_, _, rfl⟩
  cases op with
  | spawn => exact start rfl
  | spawnWith config => exact start rfl
  | drop id => exact ⟨_, _, rfl⟩
  | ask id question =>
    cases there : r.handle? id with
    | none => exact ⟨_, _, perform_absent there question⟩
    | some h =>
      obtain ⟨reply, h', replied, -⟩ := ends.asked there
      rw [perform_ask there, replied]
      exact ⟨_, _, rfl⟩

theorem old_next (ends : r.EachEnds fuel (op :: rest)) (done : Performed fuel r op result r')
    (there : r'.handle? id = some h) : (askEach (Handle.reply fuel) h (questionsTo id rest)).isSome := by
  cases done with
  | start starts ended =>
    by_cases same : id = r.handles.length
    · obtain ⟨loaded, ended', told⟩ := ends.loaded starts
      cases ended.symm.trans ended'
      rw [same, handle?_add_new] at there
      cases there
      rwa [same]
    · rw [handle?_add_other same] at there
      have told := ends.old id h there
      rwa [questionsTo_start starts] at told
  | @ask other question _ reply after asked replied =>
    by_cases same : other = id
    · subst same
      obtain ⟨_, _, replied', told⟩ := ends.asked asked
      cases replied.symm.trans replied'
      rw [handle?_setHandle_self (length_of_handle? asked)] at there
      cases there
      exact told
    · rw [handle?_setHandle_other same] at there
      have told := ends.old id h there
      rwa [questionsTo, if_neg same] at told
  | @absent other question gone =>
    have told := ends.old id h there
    rwa [questionsTo, if_neg (ne_of_gone gone there)] at told
  | @drop other =>
    have differ : other ≠ id := by
      rintro rfl
      have old := length_of_handle? there
      rw [length_setHandle] at old
      rw [handle?_setHandle_self old] at there
      cases there
    rw [handle?_setHandle_other differ] at there
    have told := ends.old id h there
    rwa [questionsTo, if_neg differ] at told

/-- After a first operation every session still ends with the questions that are left. -/
theorem next (ends : r.EachEnds fuel (op :: rest)) (done : Performed fuel r op result r') : r'.EachEnds fuel rest := by
  refine ⟨fun id h there => ends.old_next done there, fun i config after begun => ?_⟩
  rw [done.config_eq] at begun
  rw [done.alone_eq]
  cases starts : op.config? r.config with
  | none =>
    rw [(done.length_eq starts).1]
    exact ends.new i config after (by rwa [started_other starts])
  | some config' =>
    obtain ⟨loaded, ended, rfl, rfl⟩ := done.of_start starts
    have length : (r.add (.ofLoad loaded)).handles.length + i = r.handles.length + (i + 1) := by
      rw [length_add]
      omega
    rw [length]
    exact ends.new (i + 1) config after (by rwa [started_start starts])

/-- If every session by itself ends, the operations all do. -/
theorem isSome (ends : r.EachEnds fuel ops) : (askEach (perform fuel) r ops).isSome := by
  induction ops generalizing r with
  | nil => rfl
  | cons op rest ih =>
    obtain ⟨result, next, done⟩ := ends.first
    obtain ⟨⟨more, last⟩, others⟩ := Option.isSome_iff_exists.1 (ih (ends.next (performed done)))
    rw [askEach_cons, done]
    dsimp only [Option.bind_some]
    rw [others]
    rfl

end EachEnds

theorem eachEnds_of_told (told : askEach (perform fuel) r ops = some (results, r')) : r.EachEnds fuel ops := by
  refine ⟨fun id h there => ?_, fun i config after begun => ?_⟩
  · obtain ⟨h', asked⟩ := asked_alone told there
    exact Option.isSome_iff_exists.2 ⟨_, asked⟩
  · obtain ⟨loadError, alone, -⟩ := told_alone told begun
    exact Option.isSome_iff_exists.2 ⟨_, alone⟩

end Replicator

open Replicator

/-- A base whose evaluator makes a mark named by the text. -/
def Sample.markingBase : Module := .ofEvaluator [.mark] [] [.localGet 0, .localGet 1, .call 0]

/-- A replicator of that base. -/
def Sample.replicator : Replicator := { engine := {}, base := markingBase, config := {} }

/-- Three sessions in turn: one that is asked to the end, one that fails to load, one that is dropped. -/
def Sample.interleaving : List Operation :=
  [.spawn, .spawnWith { abi := { memory := "heap" } }, .ask 0 (.submit 5 "a"), .spawn, .ask 1 (.submit 6 "x"),
    .ask 2 (.submit 7 "c"), .drop 2, .ask 2 .drainConsole, .ask 0 (.submit 9 "b"), .ask 0 .drainConsole]

/-- Operations on any number of sessions of a replicator all end exactly if every session by itself ends with its own
questions. Then what the owner is told of a session, whether and why it failed to load and all it replied, is what a
session replies that is loaded by itself from the same base with the same configuration and asked the same questions in
the same order; and if they are asked at other times, all but the times of marks is the same. A session that fails to
load is reported as failed, for the reason that it fails for by itself, and refuses every question. -/
theorem sessions_isolated (fuel : Nat) (r : Replicator) (ops : List Operation) :
    ((askEach (perform fuel) r ops).isSome ↔ r.EachEnds fuel ops) ∧
    ∀ results r', askEach (perform fuel) r ops = some (results, r') →
      ∀ i config after, (started r.config ops)[i]? = some (config, after) →
        ∃ loadError,
          r.alone fuel config (questionsTo (r.handles.length + i) after) =
            some (loadError, repliesOf (r.handles.length + i) results) ∧
          (results.filterMap Result.spawned?)[i]? =
            some (r.handles.length + i, if loadError.isSome then .failed else .ready, loadError) ∧
          ∀ questions : List Question,
            questions.map Question.timeless = (questionsTo (r.handles.length + i) after).map Question.timeless →
            ∃ replies, r.alone fuel config questions = some (loadError, replies) ∧
              replies.map Reply.timeless = (repliesOf (r.handles.length + i) results).map Reply.timeless := by
  refine ⟨⟨fun ends => ?_, EachEnds.isSome⟩, fun results r' told i config after begun => ?_⟩
  · obtain ⟨⟨results, r'⟩, told⟩ := Option.isSome_iff_exists.1 ends
    exact eachEnds_of_told told
  · obtain ⟨loadError, alone, spawned⟩ := told_alone told begun
    exact ⟨loadError, alone, spawned, fun questions same => alone_timeless same alone⟩

/-- The first session marks at its own times; without them it replies as it does by itself. The second one fails to load
and refuses its question. -/
theorem marks_interleaved : ∃ results r' replies,
    askEach (perform 100) Sample.replicator Sample.interleaving = some (results, r') ∧
    (repliesOf 0 results).flatMap Reply.drained = [.mark "a" 5, .mark "b" 9] ∧
    Sample.replicator.alone 100 {} [.submit 0 "a", .submit 0 "b", .drainConsole] = some (none, replies) ∧
    replies.map Reply.timeless = (repliesOf 0 results).map Reply.timeless ∧
    (results.filterMap Result.spawned?)[1]? = some (1, .failed, some (.missingExport "heap" .noMemory)) ∧
    Sample.replicator.alone 100 { abi := { memory := "heap" } } [.submit 6 "x"] =
      some (some (.missingExport "heap" .noMemory), repliesOf 1 results) := by
  have evaluated : (askEach (perform 100) Sample.replicator Sample.interleaving).map (fun (results, _) =>
      ((repliesOf 0 results).flatMap Reply.drained, results.filterMap Result.spawned?)) =
      some ([.mark "a" 5, .mark "b" 9],
        [(0, .ready, none), (1, .failed, some (.missingExport "heap" .noMemory)), (2, .ready, none)]) := by
    decide +kernel
  obtain ⟨⟨results, r'⟩, told, found⟩ := Option.map_eq_some_iff.1 evaluated
  obtain ⟨marks, spawned⟩ := Prod.mk.inj found
  have isolated := (sessions_isolated 100 Sample.replicator Sample.interleaving).2 results r' told
  rw [spawned] at isolated
  obtain ⟨loadError, -, first, timeless⟩ := isolated 0 _ _ rfl
  obtain rfl : none = loadError := congrArg (·.2.2) (Option.some.inj first)
  obtain ⟨replies, alone, same⟩ := timeless [.submit 0 "a", .submit 0 "b", .drainConsole] rfl
  obtain ⟨loadError, alone', second, -⟩ := isolated 1 _ _ rfl
  obtain rfl : some _ = loadError := congrArg (·.2.2) (Option.some.inj second)
  exact ⟨results, r', replies, told, marks, alone, same, by rw [spawned]; rfl, alone'⟩

end UnitHost
