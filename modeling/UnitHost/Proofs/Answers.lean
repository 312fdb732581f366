import UnitHost.Proofs.ByteChannel
import UnitHost.Proofs.Lives

/-!
# Which response answers a submission

The pending response is a single slot that code at any depth may fill and that is read once, after
the evaluator has ended. Here it is compared with the list of all responses posted on the way:
`run_pending` says that the slot holds the first of them. As the slot is empty whenever a session
waits, a submission is answered by its own responses only.
-/

namespace UnitHost

open Wasm

namespace Machine

variable {m : Machine} {fuel : Nat} {w : World} {outcome : Outcome}

/-- The responses posted during a run, in order. -/
def posts (fuel : Nat) (m : Machine) : List Response := (m.visited fuel).filterMap posted?

theorem posted?_of_ended (h : m.step = .inr outcome) : m.posted? = none := by
  cases hc : m.control with
  | run a => rw [posted?, hc]
  | call callee args => rw [step_call hc] at h; cases h
  | give results => rw [posted?, hc]
  | raise r => rw [posted?, hc]

/-- After a run the slot holds what it held before, else the first response posted meanwhile. -/
theorem run_pending (run : m.run fuel = some (w, outcome)) :
    w.pending = m.world.pending.or (m.posts fuel).head? := by
  have keep {life : List Machine} {n n' : Machine}
      (held : n.world.pending = m.world.pending.or (life.filterMap posted?).head?)
      (h : n.step = .inl n') :
      n'.world.pending = m.world.pending.or ((life ++ [n]).filterMap posted?).head? := by
    rw [step_pending h, held, List.filterMap_append, List.head?_append, Option.or_assoc]
    cases hp : n.posted? <;> simp [hp]
  have initially : m.world.pending = m.world.pending.or (([] : List Machine).filterMap posted?).head? := by
    simp
  obtain ⟨left, last, trace, held, ended, rfl⟩ := run_invariant
    (I := fun life n => n.world.pending = m.world.pending.or (life.filterMap posted?).head?) keep run initially
  rw [held, posts, trace]
  simp [posted?_of_ended ended]

end Machine

namespace Session

variable {life : List Machine} {s : Session} {text : String}

/-- The answer to an evaluation with the given outcome and posted responses: a fatal failure comes
before all else, then the first response, then the failure or the lack of a response. -/
def answer (outcome : Outcome) (posts : List Response) : Response :=
  match outcome with
  | .ok _ => posts.headD (.error "evaluation finished without posting a result")
  | .error raised =>
    match raised.recover with
    | .fatal text => .error text
    | failure => posts.headD (.error failure.message)

theorem settle_head? (outcome : Outcome) (posts : List Response) :
    settle outcome posts.head? = answer outcome posts := by
  unfold settle answer
  cases outcome with
  | ok results => cases posts <;> rfl
  | error raised =>
    dsimp only
    generalize raised.recover = failure
    cases failure <;> cases posts <;> rfl

/-- A text that is not longer than memory is evaluated. -/
theorem evaluation_of_le (fits : (Text.Utf8.encode text).length ≤ (s.world.store.memory s.memory).size) :
    ∃ m, s.evaluation text = .ok m := by
  rw [Text.Utf8.length_encode] at fits
  unfold evaluation
  dsimp only
  rw [Memory.writeText_of_le fits]
  exact ⟨_, rfl⟩

/-- A submission whose evaluation ends is answered by the responses posted while it ran, wherever
they were posted, and by how it ended. -/
theorem submit_of_posts (waiting : s.Waiting) {m : Machine} (fits : s.evaluation text = .ok m)
    {fuel : Nat} {w : World} {outcome : Outcome} (run : m.run fuel = some (w, outcome)) :
    s.submit fuel text = some (.ok (answer outcome (m.posts fuel)),
      s.answered text (answer outcome (m.posts fuel)) (settled w outcome)) := by
  have empty : m.world.pending = none := (evaluation_ok fits).1.pending.trans waiting.pending
  have first : w.pending = (m.posts fuel).head? := by
    rw [Machine.run_pending run, empty, Option.none_or]
  rw [submit_of_run waiting.ready fits run, first, settle_head?]

/-- No response is pending while a session waits. A submitted text that fits into memory is evaluated,
and once the evaluation has ended the submission returns exactly its answer, with no response left
pending. -/
theorem submit_returns_answer (h : Life life (.idle s))
    (fits : (Text.Utf8.encode text).length ≤ (s.world.store.memory s.memory).size) :
    s.world.pending = none ∧ ∃ m, s.evaluation text = .ok m ∧
      ∀ {fuel w outcome}, m.run fuel = some (w, outcome) →
        ∃ s', s.submit fuel text = some (.ok (answer outcome (m.posts fuel)), s') ∧
          s'.world.pending = none := by
  obtain ⟨m, begun⟩ := evaluation_of_le fits
  refine ⟨h.waiting.pending, m, begun, fun {fuel w outcome} run => ?_⟩
  exact ⟨_, submit_of_posts h.waiting begun run, (same_settled w outcome).2⟩

/-- A base that posts a response when it is initialized. Its evaluator posts the text, then another
response, and traps, unless the text is empty: then it returns at once. -/
def echoBase : Module :=
  .ofEvaluator [.postOutput, .postError] [.i32 0, .i32 1, .call 0]
    [.localGet 1, .branch {} [.localGet 0, .localGet 1, .call 0, .i32 0, .i32 1, .call 1, .unreachable] []]

/-- What the evaluation of a text is answered with after earlier submissions, if the text fits. -/
def answerAfter (fuel : Nat) (base : Module) (texts : List String) (text : String) : Option Response := do
  let s ← Session.after fuel base texts
  let m ← (s.evaluation text).toOption
  let (_, outcome) ← m.run fuel
  if (Text.Utf8.encode text).length ≤ (s.world.store.memory s.memory).size then
    some (answer outcome (m.posts fuel))
  else none

theorem answerAfter_eq_some {fuel : Nat} {base : Module} {text : String} {texts : List String} {r : Response}
    (h : answerAfter fuel base texts text = some r) :
    ∃ s m w outcome, Session.after fuel base texts = some s ∧
      (Text.Utf8.encode text).length ≤ (s.world.store.memory s.memory).size ∧
      s.evaluation text = .ok m ∧ m.run fuel = some (w, outcome) ∧ answer outcome (m.posts fuel) = r := by
  obtain ⟨s, started, h⟩ := Option.bind_eq_some_iff.1 h
  obtain ⟨m, begun, h⟩ := Option.bind_eq_some_iff.1 h
  obtain ⟨⟨w, outcome⟩, run, h⟩ := Option.bind_eq_some_iff.1 h
  obtain ⟨fits, answered⟩ := Option.ite_none_right_eq_some.1 h
  exact ⟨s, m, w, outcome, started, fits, ok_of_toOption begun, run, Option.some.inj answered⟩

/-- Its second submission is answered by its own text. If that is empty nothing is posted, and neither
the response of the initializer nor that to the first submission takes the place. -/
theorem echo_returns_answer :
    ∃ s s' s'', (∃ life, Life life (.idle s)) ∧ Session.after 40 echoBase ["first"] = some s ∧
      s.submit 40 "second" = some (.ok (.output "second"), s') ∧ s'.world.pending = none ∧
      s.submit 40 "" = some (.ok (.error "evaluation finished without posting a result"), s'') ∧
      s''.world.pending = none := by
  have posting : answerAfter 40 echoBase ["first"] "second" = some (.output "second") := by decide +kernel
  have silent : answerAfter 40 echoBase ["first"] "" =
    some (.error "evaluation finished without posting a result") := by decide +kernel
  obtain ⟨s, m, w, outcome, started, fits, begun, run, answered⟩ := answerAfter_eq_some posting
  obtain ⟨_, n, v, returned, again, empty, evaluated, ended, lacking⟩ := answerAfter_eq_some silent
  cases started.symm.trans again
  obtain ⟨life, h⟩ := Life.after (by decide) started
  obtain ⟨-, m', begun', answers⟩ := submit_returns_answer h fits
  obtain ⟨-, n', evaluated', answers'⟩ := submit_returns_answer h empty
  cases begun.symm.trans begun'
  cases evaluated.symm.trans evaluated'
  obtain ⟨s', told, slot⟩ := answers run
  obtain ⟨s'', told', slot'⟩ := answers' ended
  rw [answered] at told
  rw [lacking] at told'
  exact ⟨s, s', s'', ⟨life, h⟩, started, told, slot, told', slot'⟩

end Session

end UnitHost
