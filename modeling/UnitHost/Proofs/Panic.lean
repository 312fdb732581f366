import Mathlib.Data.List.Basic
import Mathlib.Logic.Function.Iterate
import UnitHost.Proofs.Answers

/-!
# Panics

A panic raises a fatal failure in the code that calls it. From there the failure is passed from frame
to frame until the evaluator's caller receives it, and no code runs meanwhile: `run_raised`. Calls,
entry points and the renderer pass on what is reported as it is. A start function does not: its link
reports an instantiation failure, which keeps the words and loses the precedence. So a panic decides
the answer exactly if no start function is running, or if the first response says the same.
-/

namespace UnitHost

open Wasm

/-- What a link makes of a failure of its unit's start function. -/
def Failure.ofStart (f : Failure) : Failure := .instantiation (.raised f.message)

/-- What it puts before the words of the failure. -/
def startNote (text : String) : String := "instantiation failed: " ++ text

theorem Failure.message_ofStart (n : Nat) (f : Failure) :
    (ofStart^[n] f).message = startNote^[n] f.message := by
  induction n generalizing f with
  | zero => rfl
  | succ n ih => exact ih f.ofStart

theorem startNote_length (n : Nat) (text : String) : (startNote^[n] text).length = 22 * n + text.length := by
  induction n generalizing text with
  | zero => simp
  | succ n ih =>
    have once : (startNote text).length = 22 + text.length := String.length_append _ _
    rw [Function.iterate_succ_apply, ih, once]
    omega

/-- Whether a frame waits for a start function. -/
def Frame.isStart : Frame → Bool
  | .start _ => true
  | _ => false

namespace Machine

variable {m : Machine} {r : Raised}

/-- How many start functions are running, one inside the other. -/
def starting (m : Machine) : Nat := m.frames.countP Frame.isStart

/-- The text of a panic that is the next step, if its range can be decoded. -/
def panic? (m : Machine) : Option String :=
  match m.control with
  | .call (.host .panicError) args => (m.argumentText args).toOption
  | _ => none

theorem panic?_eq_some {text : String} (h : m.panic? = some text) :
    ∃ args, m.control = .call (.host .panicError) args ∧ m.argumentText args = .ok text := by
  unfold panic? at h
  split at h
  · rename_i args control
    exact ⟨args, control, ok_of_toOption h⟩
  · cases h

/-- A frame passes on what it receives, or fails in its place, and runs no code. Unless it waits for a
start function, the same is reported. Words that are those of what is reported stay so. -/
theorem abandon_raises (m : Machine) (frame : Frame) (r : Raised) :
    ∃ r', (m.abandon frame r).control = .raise r' ∧ (m.abandon frame r).frames = m.frames ∧
      r'.recover = (if frame.isStart then .instantiation (.raised r.text) else r.recover) ∧
      (r.text = r.recover.message → r'.text = r'.recover.message) := by
  cases frame with
  | caller a => exact ⟨r.traced, rfl, rfl, r.recover_traced, id⟩
  | _ => exact ⟨.failure _, rfl, rfl, rfl, fun _ => rfl⟩

/-- A failure on its way out ends the run. What is reported was changed once by each start function
that the failure left, and nothing was posted. -/
theorem run_raised (raised : m.control = .raise r) (words : r.text = r.recover.message) :
    (∃ w r', m.run (m.frames.length + 1) = some (w, .error r') ∧
        r'.recover = Failure.ofStart^[m.starting] r.recover) ∧
      m.posts (m.frames.length + 1) = [] := by
  have quiet : m.posted? = none := by rw [posted?, raised]
  unfold starting posts
  -- From the innermost frame outwards.
  induction hf : m.frames generalizing m r with
  | nil =>
    have ended : m.step = .inr (.error r) := by
      unfold step
      rw [raised, hf]
    simp [Machine.run, visited, ended, quiet]
  | cons frame frames ih =>
    obtain ⟨passed, control, rest, recovered, said⟩ := abandon_raises m.pop frame r
    have outer : (m.pop.abandon frame r).frames = frames := by rw [rest, pop, hf]; rfl
    have step := step_raise raised hf
    obtain ⟨⟨w, r', run, reported⟩, posts⟩ := ih control (said words) (by rw [posted?, control]) outer
    rw [List.length_cons, Machine.run, visited, step]
    refine ⟨⟨w, r', run, ?_⟩, by simpa [quiet] using posts⟩
    rw [reported, recovered, List.countP_cons]
    cases frame.isStart with
    | true => rw [if_pos rfl, if_pos rfl, Function.iterate_succ_apply, Failure.ofStart, words]
    | false => rfl

/-- A panic raises a fatal failure with its text. -/
theorem step_panic {text : String} (h : m.panic? = some text) : ∃ world,
    m.step = .inl { m with world, control := .raise (.failure (.fatal text)) } := by
  obtain ⟨args, control, decoded⟩ := panic?_eq_some h
  obtain ⟨world, fails⟩ := Action.run_panicError decoded
  refine ⟨world, ?_⟩
  rw [step_call control, call]
  · rw [Action.hostCall, fails]
  · -- It is not the call that links.
    intro _ _ _ _ _ link
    cases link

/-- A panic ends the run, and nothing is posted from then on. -/
theorem run_panic {text : String} (h : m.panic? = some text) :
    (∃ w r, m.run (m.frames.length + 2) = some (w, .error r) ∧
        r.recover = Failure.ofStart^[m.starting] (.fatal text)) ∧
      m.posts (m.frames.length + 2) = [] := by
  obtain ⟨args, control, -⟩ := panic?_eq_some h
  obtain ⟨world, step⟩ := step_panic h
  have quiet : m.posted? = none := by rw [posted?, control]
  obtain ⟨⟨w, r, run, reported⟩, posts⟩ := run_raised
    (m := { m with world, control := .raise (.failure (.fatal text)) }) rfl rfl
  refine ⟨⟨w, r, ?_, reported⟩, ?_⟩
  · rw [Machine.run, step]
    exact run
  · rw [Machine.posts, visited, step, List.filterMap_cons_none quiet]
    exact posts

end Machine

namespace Session

/-- The answer to an evaluation that panics in the given number of start functions, after the given
responses. -/
def panicAnswer (starting : Nat) (posts : List Response) (text : String) : Response :=
  if starting = 0 then .error text else posts.headD (.error (startNote^[starting] text))

theorem answer_panic {starting : Nat} {text : String} {r : Raised}
    (reported : r.recover = Failure.ofStart^[starting] (.fatal text)) (posts : List Response) :
    answer (.error r) posts = panicAnswer starting posts text := by
  unfold answer
  dsimp only
  rw [reported]
  cases starting with
  | zero => rfl
  | succ n =>
    have words := Failure.message_ofStart (n + 1) (.fatal text)
    rw [Function.iterate_succ_apply'] at words ⊢
    rw [panicAnswer, if_neg n.succ_ne_zero]
    exact congrArg (fun t => posts.headD (.error t)) words

/-- A panic is the answer if no start function is running or the first response says the same. -/
theorem panicAnswer_eq_iff {starting : Nat} {posts : List Response} {text : String} :
    panicAnswer starting posts text = .error text ↔ starting = 0 ∨ posts.head? = some (.error text) := by
  unfold panicAnswer
  split
  · simp [*]
  · rename_i inside
    cases posts with
    | nil =>
      -- The note makes the text longer.
      have longer := startNote_length starting text
      have other : startNote^[starting] text ≠ text := by
        intro same
        rw [same] at longer
        omega
      simp [inside, other]
    | cons first rest => simp [inside]

variable {life : List Machine} {s : Session} {input text : String} {m m' : Machine} {n : Nat}
  {before : List Machine}

/-- A submission during whose evaluation some code panics is answered, and the answer is the text of the
panic exactly if no start function is running then or the first response posted before says the same. -/
theorem submit_of_panic (h : Life life (.idle s)) (begun : s.evaluation input = .ok m)
    (reached : m.visited n = before ++ [m']) (panic : m'.panic? = some text) :
    (∃ enough, ∀ fuel ≥ enough, ∃ s', s.submit fuel input =
        some (.ok (panicAnswer m'.starting (before.filterMap Machine.posted?) text), s')) ∧
      (panicAnswer m'.starting (before.filterMap Machine.posted?) text = .error text ↔
        m'.starting = 0 ∨ (before.filterMap Machine.posted?).head? = some (.error text)) := by
  obtain ⟨⟨w, r, ends, reported⟩, quiet⟩ := Machine.run_panic panic
  obtain ⟨run, trace⟩ := Machine.run_of_visited reached (m'.frames.length + 2)
  rw [ends] at run
  have posts : m.posts (before.length + (m'.frames.length + 2)) = before.filterMap Machine.posted? := by
    rw [Machine.posts] at quiet ⊢
    rw [trace, List.filterMap_append, quiet, List.append_nil]
  refine ⟨⟨before.length + (m'.frames.length + 2), fun fuel enough => ?_⟩, panicAnswer_eq_iff⟩
  obtain ⟨later, same⟩ := Machine.run_mono run enough
  have returned := submit_of_posts h.waiting begun later
  have unchanged : m.posts fuel = before.filterMap Machine.posted? := by
    rw [← posts, Machine.posts, Machine.posts, same]
  rw [unchanged, answer_panic reported] at returned
  exact ⟨_, returned⟩

/-- A panic: its text, the number of start functions it is made in and the responses posted before. -/
structure Panic where
  text : String
  starting : Nat
  posts : List Response
  deriving DecidableEq

/-- The panic that an evaluation makes in its `n`th step. -/
def panicAt (s : Session) (n : Nat) (input : String) : Option Panic := do
  let m ← (s.evaluation input).toOption
  let m' ← (m.visited n).getLast?
  let text ← m'.panic?
  some { text, starting := m'.starting, posts := (m.visited n).dropLast.filterMap Machine.posted? }

theorem panicAt_eq_some {p : Panic} (h : s.panicAt n input = some p) :
    ∃ m m' before, s.evaluation input = .ok m ∧ m.visited n = before ++ [m'] ∧ m'.panic? = some p.text ∧
      m'.starting = p.starting ∧ before.filterMap Machine.posted? = p.posts := by
  obtain ⟨m, begun, h⟩ := Option.bind_eq_some_iff.1 h
  obtain ⟨m', last, h⟩ := Option.bind_eq_some_iff.1 h
  obtain ⟨found, panic, h⟩ := Option.bind_eq_some_iff.1 h
  cases h
  exact ⟨m, m', _, ok_of_toOption begun, (List.dropLast_append_getLast? m' last).symm, panic, rfl, rfl⟩

/-- A unit whose start function is the base's initializer. -/
def startingText : String := "(import \"env\" \"initialize\"(func))(start 0)"

/-- A base whose initializer panics if memory begins with something. Its evaluator posts the text and
runs the initializer, by way of a unit if the text has one byte. -/
def panickyBase : Module :=
  let unit := Text.Utf8.encode startingText
  .ofEvaluator [.compileInit, .postOutput, .panicError]
    [.i32 0, .load { width := .word, align := 1 }, .branch {} [.i32 2000, .i32 4, .call 2] []]
    [.localGet 0, .localGet 1, .call 1, .localGet 1, .i32 1, .binary .eq,
      .branch {} [.i32 1000, .i32 (.ofNat unit.length), .i32 0, .i32 0, .call 0] [.call 3]]
    [{ memory := 0, offset := .i32 1000, bytes := unit },
      { memory := 0, offset := .i32 2000, bytes := Text.Utf8.encode "boom" }]

/-- A panic in code that was called is the answer. In a start function it is not: the response posted
before is. -/
theorem start_hides_panic : ∃ life s, Life life (.idle s) ∧
    (∃ enough, ∀ fuel ≥ enough, ∃ s', s.submit fuel "xy" = some (.ok (.error "boom"), s')) ∧
    (∃ enough, ∀ fuel ≥ enough, ∃ s', s.submit fuel "x" = some (.ok (.output "x"), s')) := by
  have evaluated : (Session.after 100 panickyBase []).map (fun s => (s.panicAt 19 "xy", s.panicAt 24 "x")) =
      some (some ⟨"boom", 0, [.output "xy"]⟩, some ⟨"boom", 1, [.output "x"]⟩) := by decide +kernel
  obtain ⟨s, started, found⟩ := Option.map_eq_some_iff.1 evaluated
  obtain ⟨called, linked⟩ := Prod.mk.inj found
  obtain ⟨life, h⟩ := Life.after (by decide +kernel) started
  refine ⟨life, s, h, ?_, ?_⟩
  · obtain ⟨m, m', before, begun, reached, panic, starting, posts⟩ := panicAt_eq_some called
    have said : panicAnswer m'.starting (before.filterMap Machine.posted?) "boom" = .error "boom" := by
      rw [starting]; rfl
    obtain ⟨answers, -⟩ := submit_of_panic h begun reached panic
    rwa [said] at answers
  · obtain ⟨m, m', before, begun, reached, panic, starting, posts⟩ := panicAt_eq_some linked
    have said : panicAnswer m'.starting (before.filterMap Machine.posted?) "boom" = .output "x" := by
      rw [starting, posts]; rfl
    obtain ⟨answers, -⟩ := submit_of_panic h begun reached panic
    rwa [said] at answers

end Session

end UnitHost
