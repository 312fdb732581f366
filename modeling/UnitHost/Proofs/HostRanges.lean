import UnitHost.Proofs.ConsoleSteps
import UnitHost.Proofs.FailedLinks

/-!
# The ranges of host calls

Every host call but one is given a range of the shared memory as two words. The range is out of bounds exactly if the sum
of the two, as natural numbers, is greater than the memory is long. `Machine.RefusesRange` says what a call does then and
`Machine.TakesRange` what is known of it otherwise; the two exclude each other. A call that links reads its range before
anything else, and what can go wrong later is never reported as a range: that is `Machine.link_cases`.

All code of a session shares one memory, and it is the session's own: `Life.shares`.
-/

namespace UnitHost

open Wasm

/-! The memory of a session. -/

/-- Address of the shared memory, once the program is in place. -/
def World.shared? (w : World) : Option Nat := w.program.map (·.memory)

theorem World.SameProgram.shared {w w' : World} (h : World.SameProgram w w') : w'.shared? = w.shared? := by
  unfold World.shared?
  rw [h.program]

theorem Machine.step_shared {m m' : Machine} (h : m.step = .inl m') : m'.world.shared? = m.world.shared? :=
  step_map (fun same => same.memory) h

theorem Machine.visited_shared {m n : Machine} {fuel : Nat} (h : n ∈ m.visited fuel) :
    n.world.shared? = m.world.shared? :=
  visited_kept (P := fun n => n.world.shared? = m.world.shared?) (fun same step => (step_shared step).trans same) rfl h

theorem Machine.run_shared {m : Machine} {fuel : Nat} {w : World} {outcome : Outcome}
    (run : m.run fuel = some (w, outcome)) : w.shared? = m.world.shared? :=
  run_kept (P := fun w => w.shared? = m.world.shared?) (fun same step => (step_shared step).trans same) run rfl

/-- All states of a life share the same memory. -/
theorem invariant_shared : Invariant fun life w _ => ∀ n ∈ life, n.world.shared? = w.shared? where
  unplaced := by
    intro w empty
    exact List.forall_mem_nil _
  placed := by
    intro engine base w p valid placed
    exact List.forall_mem_nil _
  step := by
    intro life m m' lived same step n mem
    rw [Machine.step_shared step]
    rcases List.mem_append.1 mem with earlier | here
    · exact same n earlier
    · rw [List.mem_singleton.1 here]
  ended := by
    intro life m outcome same ended n mem
    rcases List.mem_append.1 mem with earlier | here
    · exact same n earlier
    · rw [List.mem_singleton.1 here]
  outside := by
    intro life w w' same outside n mem
    rw [outside.shared]
    exact same n mem

theorem Run.place_shared {w w' : World} {fuel : Nat} {base : Module} {e : BaseExports}
    (h : (place fuel base).run.run w = some (.ok e, w')) : w'.shared? = some e.memory := by
  obtain ⟨d, v, owner, v₁, -, -, -, installed⟩ := place_cases h
  obtain ⟨surface, -, rfl⟩ := Action.install_ok installed
  have published := World.kept_publish
    { v₁ with program := some { base := owner, memory := e.memory, table := e.table, surface } } owner.symbols
  unfold World.shared?
  rw [published.program]
  rfl

theorem Life.shared {life : List Machine} {s : Session} (h : Life life (.idle s)) : s.world.shared? = some s.memory := by
  refine idle_induction (P := fun s => s.world.shared? = some s.memory) ?_ ?_ id id (fun _ => id) h
  · intro engine base config log fuel s loaded
    obtain ⟨e, w, load, rfl⟩ := Session.load_cases loaded
    obtain ⟨v, v', results, placed, run, same, -⟩ := Run.load_ok load
    exact same.shared.trans ((Machine.run_shared run).trans (Run.place_shared placed))
  · intro life s s' fuel text answer before earlier answered
    rcases Session.submit_cases before.waiting.ready answered with ⟨f, -, rfl⟩ | ⟨m, w, outcome, fits, run, rfl⟩
    · exact earlier
    · have written : m.world.shared? = s.world.shared? := (Session.evaluation_ok fits).1.same.shared
      exact (Session.same_settled w outcome).1.shared.trans ((Machine.run_shared run).trans (written.trans earlier))

/-- All code of a loaded session shares the memory of the session. -/
theorem Life.shares {life : List Machine} {s : Session} (h : Life life (.idle s)) {fuel : Nat} {text : String}
    {n : Machine} (mem : n ∈ life ++ s.visited fuel text) :
    ∃ p, n.world.program = some p ∧ p.memory = s.memory := by
  have same : n.world.shared? = some s.memory := by
    rcases List.mem_append.1 mem with earlier | now
    · exact (invariant_shared.holds h n earlier).trans h.shared
    · unfold Session.visited at now
      cases fits : s.evaluation text with
      | error f => rw [fits] at now; cases now
      | ok m =>
        rw [fits] at now
        have written : m.world.shared? = s.world.shared? := (Session.evaluation_ok fits).1.same.shared
        exact (Machine.visited_shared now).trans (written.trans h.shared)
  exact Option.map_eq_some_iff.1 same

/-! Ranges. -/

theorem World.decoded_of_le {w : World} {p : Program} {address count : UInt32} (placed : w.program = some p)
    (inside : address.toNat + count.toNat ≤ (w.memory p).size) :
    w.decoded address count = .ok (Text.Utf8.lossy ((w.memory p).slice address.toNat count.toNat)) := by
  unfold decoded
  rw [placed]
  dsimp only
  rw [Memory.readText, Memory.readBytes, if_pos inside]
  rfl

theorem World.decoded_of_lt {w : World} {p : Program} {address count : UInt32} (placed : w.program = some p)
    (outside : (w.memory p).size < address.toNat + count.toNat) :
    w.decoded address count = .error (.outOfBounds address.toNat count.toNat (w.memory p).size) := by
  unfold decoded
  rw [placed]
  dsimp only
  rw [Memory.readText, Memory.readBytes, if_neg (by omega)]
  rfl

/-- A link reads the bytes of its unit before anything else. -/
theorem Action.run_prepare_of_lt {r : LinkRequest} {w : World} {p : Program} (placed : w.program = some p)
    (outside : (w.memory p).size < r.address + r.count) :
    (prepare r).run.run w = (.error (.outOfBounds r.address r.count (w.memory p).size), w) := by
  have found : program.run.run w = (.ok p, w) := by rw [run_program, placed]
  unfold prepare
  rw [run_bind, found]
  dsimp only
  rw [run_bind, run_get]
  dsimp only
  rw [run_bind, run_ofExcept, Memory.readBytes, if_neg (by omega)]

/-- The values that a host call is given. A call that links is given two bases after its range. -/
def HostCall.arguments (call : HostCall) (address count memoryBase tableBase : UInt32) : List Value :=
  if call = .compileInit then [.i32 address, .i32 count, .i32 memoryBase, .i32 tableBase]
  else [.i32 address, .i32 count]

namespace Machine

variable {m m' n : Machine} {call : HostCall} {p : Program} {address count memoryBase tableBase : UInt32}

/-- The machine about to make a host call. -/
def calling (m : Machine) (call : HostCall) (address count memoryBase tableBase : UInt32) : Machine :=
  m.go (.call (.host call) (call.arguments address count memoryBase tableBase))

/-- A host call fails, and nothing changes. A panic closes every group all the same, and a mark does not fail. -/
structure RefusesRange (call : HostCall) (f : Failure) (m m' : Machine) : Prop where
  control : m'.control = if call = .mark then .give [] else .raise (.failure f)
  frames : m'.frames = m.frames
  store : m'.world.store = m.world.store
  program : m'.world.program = m.world.program
  pending : m'.world.pending = m.world.pending
  depth : m'.world.depth = if call = .panicError then 0 else m.world.depth
  recorded : m'.world.recorded = m.world.recorded ++ if call = .panicError then closings 0 m.world.depth else []

/-- A host call goes on with the bytes of its range: it fails with no range, and unless it links or panics it succeeds. A
mark is recorded. -/
structure TakesRange (call : HostCall) (bytes : List UInt8) (m m' : Machine) : Prop where
  unrefused : ∀ address count size, m'.control ≠ .raise (.failure (.outOfBounds address count size))
  control : call ≠ .compileInit →
    m'.control = if call = .panicError then .raise (.failure (.fatal (Text.Utf8.lossy bytes))) else .give []
  marked : call = .mark → m'.world.recorded = m.world.recorded ++ [.mark (Text.Utf8.lossy bytes) m.world.clock]

theorem TakesRange.not_refuses {bytes : List UInt8} {size : Nat} (h : TakesRange call bytes m m') :
    ¬ RefusesRange call (.outOfBounds address.toNat count.toNat size) m m' := by
  intro refuses
  by_cases mark : call = .mark
  · have recorded := refuses.recorded
    rw [h.marked mark, mark] at recorded
    simp at recorded
  · have control := refuses.control
    rw [if_neg mark] at control
    exact h.unrefused _ _ _ control

/-! Calls that link. -/

theorem enterUnit_go (m : Machine) (c : Control) (l : Linking) : (m.go c).enterUnit l = m.enterUnit l := by
  have same : (m.go c).world = m.world := rfl
  unfold enterUnit
  rw [same]
  dsimp only
  cases typedExport m.world.store l.owner m.world.config.abi.staticInit entryType with
  | error f => rfl
  | ok initializer => cases typedExport m.world.store l.owner m.world.config.abi.main entryType <;> rfl

/-- A link takes nothing from what the machine was about to do. -/
theorem link_go (m : Machine) (c : Control) (r : LinkRequest) : (m.go c).link r = m.link r := by
  have same : (m.go c).world = m.world := rfl
  unfold link
  rw [same]
  rcases (Action.prepare r).run.run m.world with ⟨f | l, w⟩
  · rfl
  · dsimp only
    cases l.module.start.bind (l.owner.funcs[·]?) with
    | some callee => rfl
    | none => exact enterUnit_go { m with world := w } c l

theorem step_calling_link (m : Machine) (address count memoryBase tableBase : UInt32) :
    (m.calling .compileInit address count memoryBase tableBase).step =
      .inl (m.link (.ofWords address count memoryBase tableBase)) := by
  have step := step_call (m := m.calling .compileInit address count memoryBase tableBase) rfl
  rw [step, ← link_go]
  rfl

theorem link_refuses {r : LinkRequest} (placed : m.world.program = some p)
    (outside : (m.world.memory p).size < r.address + r.count) :
    RefusesRange .compileInit (.outOfBounds r.address r.count (m.world.memory p).size) m (m.link r) := by
  unfold link
  rw [Action.run_prepare_of_lt placed outside]
  exact ⟨rfl, rfl, rfl, rfl, rfl, rfl, (List.append_nil _).symm⟩

theorem link_takes {life : List Machine} {r : LinkRequest} (h : Life life (.running m))
    (placed : m.world.program = some p) (inside : r.address + r.count ≤ (m.world.memory p).size)
    (bytes : List UInt8) : TakesRange .compileInit bytes m (m.link r) := by
  refine ⟨?_, fun other => absurd rfl other, nofun⟩
  intro address count size control
  have reported : (m.link r).reported? = some .range := by
    unfold reported?
    rw [control]
    rfl
  rcases link_cases h r with ⟨c, first, found, -⟩ | ⟨-, silent⟩
  · rw [found] at reported
    cases reported
    have range : (m.world.memory p).size < r.address + r.count := (LinkRequest.faces_iff placed .range).1 first.1
    omega
  · rw [silent] at reported
    cases reported

/-! Other calls. -/

/-- What the machine does after a host call. -/
def Control.ofResult : Except Failure Unit → Control
  | .ok () => .give []
  | .error f => .raise (.failure f)

theorem step_calling (reads : call.reads = true) (m : Machine) (address count memoryBase tableBase : UInt32) :
    (m.calling call address count memoryBase tableBase).step = .inl { m with
      world := ((Action.hostCall call address count).run.run m.world).2
      control := Control.ofResult ((Action.hostCall call address count).run.run m.world).1 } := by
  have other : call ≠ .compileInit := by
    intro link
    rw [link] at reads
    cases reads
  have arguments : call.arguments address count memoryBase tableBase = [.i32 address, .i32 count] := if_neg other
  have step := step_call (m := m.calling call address count memoryBase tableBase) rfl
  rw [step, arguments, Machine.call]
  · have first : ([Value.i32 address, .i32 count].getD 0 .null).word = address := rfl
    have second : ([Value.i32 address, .i32 count].getD 1 .null).word = count := rfl
    have same : (m.calling call address count memoryBase tableBase).world = m.world := rfl
    rw [first, second, same]
    rcases (Action.hostCall call address count).run.run m.world with ⟨f | done, w⟩ <;> rfl
  · -- It has too few values for a link.
    intro _ _ _ _ four _
    cases four

theorem refuses_of_reads (reads : call.reads = true) (f : Failure) (m : Machine) :
    RefusesRange call f m { m with
      world := (call.refused f m.world).2
      control := Control.ofResult (call.refused f m.world).1 } := by
  have same : m.world.recorded = m.world.recorded ++ [] := (List.append_nil _).symm
  cases call with
  | groupEnd => cases reads
  | compileInit => cases reads
  | panicError =>
    have console := m.world.journal.console_unwind
    refine ⟨rfl, rfl, rfl, rfl, rfl, ?_, ?_⟩
    · show m.world.journal.unwind.console.depth = 0
      rw [console, Console.depth_closeTo]
      omega
    · show m.world.journal.unwind.console.events.toList = _
      rw [console]
      exact Console.events_closeTo _ 0
  | log | warn | error | group | mark | postOutput | postError => exact ⟨rfl, rfl, rfl, rfl, rfl, rfl, same⟩

theorem takes_of_reads (reads : call.reads = true) (bytes : List UInt8) (m : Machine) :
    TakesRange call bytes m { m with
      world := (call.given (Text.Utf8.lossy bytes) m.world).2
      control := Control.ofResult (call.given (Text.Utf8.lossy bytes) m.world).1 } := by
  cases call with
  | groupEnd => cases reads
  | compileInit => cases reads
  | mark => exact ⟨nofun, fun _ => rfl, fun _ => Array.toList_push⟩
  | log | warn | error | panicError | group | postOutput | postError => exact ⟨nofun, fun _ => rfl, nofun⟩

/-- From every state of a life, a host call that is given a range refuses it or takes it. -/
theorem calling_cases {life : List Machine} (h : Life life (.running n)) (placed : n.world.program = some p)
    (ranged : call ≠ .groupEnd) (address count memoryBase tableBase : UInt32) :
    ∃ m', (n.calling call address count memoryBase tableBase).step = .inl m' ∧
      ((n.world.memory p).size < address.toNat + count.toNat ∧
          RefusesRange call (.outOfBounds address.toNat count.toNat (n.world.memory p).size) n m' ∨
        address.toNat + count.toNat ≤ (n.world.memory p).size ∧
          TakesRange call ((n.world.memory p).slice address.toNat count.toNat) n m') := by
  by_cases link : call = .compileInit
  · subst link
    refine ⟨_, step_calling_link n address count memoryBase tableBase, ?_⟩
    rcases Nat.lt_or_ge (n.world.memory p).size (address.toNat + count.toNat) with outside | inside
    · exact .inl ⟨outside, link_refuses (r := .ofWords address count memoryBase tableBase) placed outside⟩
    · exact .inr ⟨inside, link_takes h placed inside _⟩
  · have reads : call.reads = true := by
      cases call with
      | groupEnd => exact absurd rfl ranged
      | compileInit => exact absurd rfl link
      | log | warn | error | panicError | group | mark | postOutput | postError => rfl
    refine ⟨_, step_calling reads n address count memoryBase tableBase, ?_⟩
    rw [Action.run_hostCall reads]
    rcases Nat.lt_or_ge (n.world.memory p).size (address.toNat + count.toNat) with outside | inside
    · rw [World.decoded_of_lt placed outside]
      exact .inl ⟨outside, refuses_of_reads reads _ n⟩
    · rw [World.decoded_of_le placed inside]
      exact .inr ⟨inside, takes_of_reads reads _ n⟩

end Machine

/-- In every state of a loaded session, whichever host call is made with whatever words, its range is out of bounds exactly
if it goes beyond the end of the session's memory. Then the call fails with the range and the size, and changes nothing,
except that a panic has closed every group; a mark succeeds instead and records nothing. Otherwise no call fails because of
its range. -/
theorem host_calls_check_ranges {life : List Machine} {s : Session} (h : Life life (.idle s)) {fuel : Nat} {text : String}
    {n : Machine} (mem : n ∈ life ++ s.visited fuel text) (call : HostCall) (ranged : call ≠ .groupEnd)
    (address count memoryBase tableBase : UInt32) :
    ∃ m', (n.calling call address count memoryBase tableBase).step = .inl m' ∧
      (Machine.RefusesRange call
          (.outOfBounds address.toNat count.toNat (n.world.store.memory s.memory).size) n m' ↔
        (n.world.store.memory s.memory).size < address.toNat + count.toNat) ∧
      (Machine.TakesRange call ((n.world.store.memory s.memory).slice address.toNat count.toNat) n m' ↔
        address.toNat + count.toNat ≤ (n.world.store.memory s.memory).size) := by
  obtain ⟨p, placed, memory⟩ := h.shares mem
  obtain ⟨_, lived⟩ : ∃ life, Life life (.running n) := by
    rcases List.mem_append.1 mem with earlier | now
    · exact h.of_mem earlier
    · exact h.of_evaluated now
  obtain ⟨m', step, cases⟩ := Machine.calling_cases lived placed ranged address count memoryBase tableBase
  unfold World.memory at cases
  rw [memory] at cases
  refine ⟨m', step, ?_⟩
  rcases cases with ⟨outside, refuses⟩ | ⟨inside, takes⟩
  · refine ⟨⟨fun _ => outside, fun _ => refuses⟩, fun takes => absurd refuses takes.not_refuses, fun inside => ?_⟩
    omega
  · refine ⟨⟨fun refuses => absurd refuses takes.not_refuses, fun outside => ?_⟩, fun _ => inside, fun _ => takes⟩
    omega

/-- With a group open and one page of memory: a panic with the last address there is and a count of two is refused, although
the sum of the words is small, and closes the group. An empty range at the end of memory is taken. -/
theorem last_address_refused : ∃ life s n m₁ m₂, Life life (.idle s) ∧ n ∈ s.visited 100 "ab" ∧ n.world.depth = 1 ∧
    (n.world.store.memory s.memory).size = 65536 ∧ (0xFFFFFFFF + 2 : UInt32) = 1 ∧
    (n.calling .panicError 0xFFFFFFFF 2 0 0).step = .inl m₁ ∧
    Machine.RefusesRange .panicError (.outOfBounds 4294967295 2 65536) n m₁ ∧
    m₁.world.recorded = n.world.recorded ++ [.closed 0] ∧
    (n.calling .mark 65536 0 0 0).step = .inl m₂ ∧ Machine.TakesRange .mark [] n m₂ := by
  have evaluated : (Session.after 100 Sample.closingBase []).bind (fun s =>
      ((s.visited 100 "ab").find? (·.world.depth == 1)).map fun n => (n.world.store.memory s.memory).size) =
      some 65536 := by decide +kernel
  obtain ⟨s, started, found⟩ := Option.bind_eq_some_iff.1 evaluated
  obtain ⟨n, first, size⟩ := Option.map_eq_some_iff.1 found
  obtain ⟨life, h⟩ := Life.after (by decide +kernel) started
  have visited := List.mem_of_find?_eq_some first
  have depth : n.world.depth = 1 := by simpa using List.find?_some first
  have mem : n ∈ life ++ s.visited 100 "ab" := List.mem_append_right _ visited
  obtain ⟨m₁, step₁, refuses, -⟩ := host_calls_check_ranges h mem .panicError nofun 0xFFFFFFFF 2 0 0
  obtain ⟨m₂, step₂, -, takes⟩ := host_calls_check_ranges h mem .mark nofun 65536 0 0 0
  rw [size] at refuses takes
  have refused := refuses.2 (by decide)
  have recorded := refused.recorded
  rw [depth] at recorded
  exact ⟨life, s, n, m₁, m₂, h, visited, depth, size, rfl, step₁, refused, recorded, step₂, takes.2 (by decide)⟩

end UnitHost
