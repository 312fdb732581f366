import UnitHost.Proofs.ConsoleSteps
import UnitHost.Proofs.FailurePaths

/-!
# Unwinding after a failure

An evaluation that fails leaves no group open, since the session closes all of them before it answers. If some code
panicked, nothing is left to close by then: the panic has closed every group before its message, and on the way out a
failure records nothing at all once no group is open. So the message is the last entry: `Machine.Silenced` says what is
known of every state after a panic.
-/

namespace UnitHost

open Wasm

namespace Machine

variable {m m' : Machine} {r : Raised} {text : String} {past : List Machine}

/-- A failure that leaves a frame closes the groups of its phase, if the frame waits for one. -/
theorem abandon_console (m : Machine) (frame : Frame) (r : Raised) :
    (m.abandon frame r).world.journal.console =
      frame.phase?.elim m.world.journal.console m.world.journal.console.closeTo := by
  cases frame <;> rfl

/-- A failure on its way out records nothing if no group is open. -/
theorem step_raised (raised : m.control = .raise r) (flat : m.world.depth = 0) (h : m.step = .inl m') :
    (∃ r', m'.control = .raise r') ∧ m'.world.journal.console = m.world.journal.console := by
  cases frames : m.frames with
  | nil =>
    unfold step at h
    rw [raised, frames] at h
    cases h
  | cons frame rest =>
    rw [step_raise raised frames] at h
    cases h
    obtain ⟨r', control, -⟩ := abandon_raises m.pop frame r
    refine ⟨⟨r', control⟩, ?_⟩
    rw [abandon_console]
    cases frame.phase? with
    | none => rfl
    | some depth =>
      apply Console.closeTo_of_le
      show m.world.depth ≤ depth
      omega

/-- A panic closes every group, says its text, and fails with it. -/
theorem step_panicked (h : m.panic? = some text) : m.step = .inl { m with
    world := { m.world with journal := m.world.journal.unwind.message .error text }
    control := .raise (.failure (.fatal text)) } := by
  obtain ⟨args, control, decoded⟩ := panic?_eq_some h
  have reads : HostCall.panicError.reads = true := rfl
  have run := Action.run_hostCall reads (args.getD 0 .null).word (args.getD 1 .null).word m.world
  rw [← argumentText, decoded] at run
  rw [step_call control, call]
  · rw [run]
    rfl
  · -- It is not the call that links.
    intro _ _ _ _ _ link
    cases link

/-- After a panic a failure is on its way out, and the message is the last entry of the console. -/
structure Silenced (x : Machine) (text : String) (n : Machine) : Prop where
  raised : ∃ r, n.control = .raise r
  console : n.world.journal.console = (x.world.journal.console.closeTo 0).message .error text

theorem Silenced.flat {x n : Machine} (h : Silenced x text n) : n.world.depth = 0 := by
  unfold World.depth
  rw [h.console, Console.depth_message, Console.depth_closeTo]
  omega

theorem Silenced.step {x n n' : Machine} (h : Silenced x text n) (step : n.step = .inl n') : Silenced x text n' := by
  obtain ⟨r, raised⟩ := h.raised
  obtain ⟨raised', same⟩ := step_raised raised h.flat step
  exact ⟨raised', same.trans h.console⟩

theorem silenced_of_panic {x n : Machine} (h : x.panic? = some text) (step : x.step = .inl n) : Silenced x text n := by
  rw [step_panicked h] at step
  cases step
  exact ⟨⟨_, rfl⟩, congrArg (Console.message · .error text) x.world.journal.console_unwind⟩

/-- Whatever code panicked during a run, its message is the last entry when the run ends. -/
theorem run_silenced {fuel : Nat} {w : World} {outcome : Outcome} (run : m.run fuel = some (w, outcome)) {x : Machine}
    (visited : x ∈ m.visited fuel) (panic : x.panic? = some text) :
    w.journal.console = (x.world.journal.console.closeTo 0).message .error text := by
  have keep {past : List Machine} {n n' : Machine}
      (silenced : ∀ x ∈ past, x.panic? = some text → Silenced x text n) (step : n.step = .inl n') :
      ∀ x ∈ past ++ [n], x.panic? = some text → Silenced x text n' := by
    intro x mem panic
    rcases List.mem_append.1 mem with earlier | here
    · exact (silenced x earlier panic).step step
    · rw [List.mem_singleton.1 here] at panic ⊢
      exact silenced_of_panic panic step
  obtain ⟨left, last, trace, silenced, ended, rfl⟩ :=
    run_invariant (I := fun past n => ∀ x ∈ past, x.panic? = some text → Silenced x text n) keep run
      (List.forall_mem_nil _)
  rw [trace] at visited
  rcases List.mem_append.1 visited with earlier | final
  · exact (silenced x earlier panic).console
  · rw [← List.mem_singleton.1 final, step_panicked panic] at ended
    cases ended

end Machine

theorem Session.console_settled (w : World) (raised : Raised) :
    (settled w (.error raised)).journal.console = w.journal.console.closeTo 0 := by
  unfold settled clean
  dsimp only
  split <;> exact w.journal.console_unwind

/-- A submission whose evaluation fails is answered, and leaves no group open. If some code panicked during the evaluation,
with any number of groups open, then these are closed right after what was recorded before, the text of the panic follows
outside all groups, and nothing else. -/
theorem failed_evaluations_unwind {life : List Machine} {s : Session} {text : String} {m : Machine} {fuel : Nat}
    {w : World} {raised : Raised} (h : Life life (.idle s)) (begun : s.evaluation text = .ok m)
    (failed : m.run fuel = some (w, .error raised)) :
    ∃ response s', s.submit fuel text = some (.ok response, s') ∧ s'.groupDepth = 0 ∧
      ∀ x ∈ m.visited fuel, ∀ said, x.panic? = some said → ∃ earlier,
        x.world.recorded = s.world.recorded ++ earlier ∧
        s'.world.recorded =
          s.world.recorded ++ (earlier ++ closings 0 x.world.depth ++ [.message .error 0 said]) := by
  have console := Session.console_settled w raised
  refine ⟨_, _, Session.submit_of_run h.waiting.ready begun failed, ?_, ?_⟩
  · show (Session.settled w (.error raised)).journal.console.depth = 0
    rw [console, Console.depth_closeTo]
    omega
  · intro x visited said panic
    have last := Machine.run_silenced failed visited panic
    have flat : w.journal.console.depth ≤ 0 := by
      rw [last, Console.depth_message, Console.depth_closeTo]
      omega
    obtain ⟨earlier, recorded, -⟩ := Machine.visited_records visited
    rw [Session.evaluation_console begun] at recorded
    refine ⟨earlier, recorded, ?_⟩
    show (Session.settled w (.error raised)).journal.console.events.toList = _
    rw [console, Console.closeTo_of_le flat, last, Console.events_message, Console.events_closeTo, recorded,
      Console.depth_closeTo]
    simp [World.recorded, World.depth]

/-- A base whose evaluator opens a group named by the text. If the text has one byte, it links a unit whose start function
is the base's initializer, which panics then. -/
def Sample.groupingBase : Module :=
  let unit := Text.Utf8.encode Session.startingText
  .ofEvaluator [.compileInit, .group, .panicError]
    [.i32 0, .load { width := .word, align := 1 }, .branch {} [.i32 2000, .i32 4, .call 2] []]
    [.localGet 0, .localGet 1, .call 1, .localGet 1, .i32 1, .binary .eq,
      .branch {} [.i32 1000, .i32 (.ofNat unit.length), .i32 0, .i32 0, .call 0] []]
    [{ memory := 0, offset := .i32 1000, bytes := unit },
      { memory := 0, offset := .i32 2000, bytes := Text.Utf8.encode "boom" }]

/-- One submission leaves a group open. The next one opens another inside it, and panics in a start function. -/
theorem panic_closes_earlier_groups : ∃ life s m w raised x response s' earlier, Life life (.idle s) ∧
    s.groupDepth = 1 ∧ s.evaluation "x" = .ok m ∧ m.run 100 = some (w, .error raised) ∧ x ∈ m.visited 100 ∧
    x.panic? = some "boom" ∧ x.starting = 1 ∧ x.world.depth = 2 ∧
    s.submit 100 "x" = some (.ok response, s') ∧ s'.groupDepth = 0 ∧
    x.world.recorded = s.world.recorded ++ earlier ∧
    s'.world.recorded = s.world.recorded ++ (earlier ++ [.closed 1, .closed 0] ++ [.message .error 0 "boom"]) := by
  have evaluated : (Session.after 100 Sample.groupingBase ["xy"]).bind (fun s =>
      (s.failed? 100 "x").bind fun (m, _, _) => ((m.visited 100).find? (·.panic?.isSome)).map fun x =>
        (s.groupDepth, x.panic?, x.starting, x.world.depth)) = some (1, some "boom", 1, 2) := by decide +kernel
  obtain ⟨s, started, found⟩ := Option.bind_eq_some_iff.1 evaluated
  obtain ⟨⟨m, w, raised⟩, failed, found⟩ := Option.bind_eq_some_iff.1 found
  obtain ⟨x, first, found⟩ := Option.map_eq_some_iff.1 found
  simp only [Prod.mk.injEq] at found
  obtain ⟨left, panic, starting, depth⟩ := found
  obtain ⟨begun, run⟩ := Session.failed?_eq_some failed
  obtain ⟨life, h⟩ := Life.after (by decide +kernel) started
  have visited := List.mem_of_find?_eq_some first
  obtain ⟨response, s', submitted, flat, panics⟩ := failed_evaluations_unwind h begun run
  obtain ⟨earlier, before, after⟩ := panics x visited "boom" panic
  rw [depth] at after
  exact ⟨life, s, m, w, raised, x, response, s', earlier, h, left, begun, run, visited, panic, starting, depth,
    submitted, flat, before, after⟩

end UnitHost
