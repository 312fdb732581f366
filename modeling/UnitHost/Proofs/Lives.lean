import UnitHost.Proofs.Definitions
import UnitHost.Proofs.Steps

/-!
# Lives of sessions

A session is loaded and then answers submissions; in between its owner may look at it. `Life`
follows it through all of this, including every state its code goes through while the base starts,
is initialized or evaluates a text, and keeps the list of the states left behind. Links nested in
one another are such states, so a fact about every life is a fact about every nesting.

`Invariant.holds` is the one induction over lives: what holds once the base is in place, is kept by
every step and does not depend on what changes between calls holds at every stage.
-/

namespace UnitHost

open Wasm

/-! Runs of the machine. -/

namespace Machine

variable {m : Machine} {fuel : Nat} {w : World} {outcome : Outcome}

/-- The states a run goes through, within the fuel. -/
def visited : Nat → Machine → List Machine
  | 0, _ => []
  | fuel + 1, m =>
    m :: match m.step with
      | .inl m' => visited fuel m'
      | .inr _ => []

/-- Only the outermost caller receives an outcome. -/
theorem frames_of_ended (h : m.step = .inr outcome) : m.frames = [] := by
  cases hf : m.frames with
  | nil => rfl
  | cons f frames =>
    cases hc : m.control with
    | run a => simp only [step, hc] at h; split at h <;> cases h
    | call callee args => rw [step_call hc] at h; cases h
    | give results => rw [step_give hc hf] at h; cases h
    | raise r => rw [step_raise hc hf] at h; cases h

/-- What every step keeps holds in the state in which a run ends. -/
theorem run_invariant {I : List Machine → Machine → Prop}
    (keep : ∀ {life m m'}, I life m → m.step = .inl m' → I (life ++ [m]) m') {life : List Machine}
    (run : m.run fuel = some (w, outcome)) (initially : I life m) :
    ∃ left last, m.visited fuel = left ++ [last] ∧ I (life ++ left) last ∧
      last.step = .inr outcome ∧ last.world = w := by
  induction fuel generalizing m life with
  | zero => cases run
  | succ fuel ih =>
    unfold Machine.run at run
    unfold visited
    cases hs : m.step with
    | inr o =>
      rw [hs] at run
      cases run
      exact ⟨[], m, rfl, by simpa using initially, hs, rfl⟩
    | inl m' =>
      rw [hs] at run
      obtain ⟨left, last, trace, holds, ended, world⟩ := ih run (keep initially hs)
      refine ⟨m :: left, last, by simp [trace], ?_, ended, world⟩
      simpa using holds

/-- What every step keeps of the world holds after a run. -/
theorem run_kept {P : World → Prop} (keep : ∀ {n n' : Machine}, P n.world → n.step = .inl n' → P n'.world)
    (run : m.run fuel = some (w, outcome)) (initially : P m.world) : P w := by
  obtain ⟨-, last, -, holds, -, rfl⟩ :=
    @run_invariant m fuel w outcome (fun _ n => P n.world) (fun holds step => keep holds step) [] run initially
  exact holds

/-- What every step keeps holds in every state that a run goes through. -/
theorem visited_kept {P : Machine → Prop} {n : Machine} (keep : ∀ {n n' : Machine}, P n → n.step = .inl n' → P n')
    (initially : P m) (visited : n ∈ m.visited fuel) : P n := by
  induction fuel generalizing m with
  | zero => cases visited
  | succ fuel ih =>
    unfold Machine.visited at visited
    rcases List.mem_cons.1 visited with rfl | later
    · exact initially
    · cases step : m.step with
      | inl next =>
        rw [step] at later
        exact ih (keep initially step) later
      | inr outcome =>
        rw [step] at later
        cases later

theorem run_config (run : m.run fuel = some (w, outcome)) : w.config = m.world.config :=
  run_kept (P := fun v => v.config = m.world.config) (fun same step => (step_config step).trans same) run rfl

/-- More fuel changes nothing once a run has ended. -/
theorem run_mono {more : Nat} (run : m.run fuel = some (w, outcome)) (le : fuel ≤ more) :
    m.run more = some (w, outcome) ∧ m.visited more = m.visited fuel := by
  induction fuel generalizing m more with
  | zero => cases run
  | succ fuel ih =>
    obtain ⟨more, rfl⟩ : ∃ n, more = n + 1 := ⟨more - 1, by omega⟩
    unfold Machine.run at run ⊢
    unfold visited
    cases hs : m.step with
    | inr o =>
      rw [hs] at run
      exact ⟨run, rfl⟩
    | inl m' =>
      rw [hs] at run
      obtain ⟨again, same⟩ := ih run (by omega : fuel ≤ more)
      exact ⟨again, congrArg (m :: ·) same⟩

/-- A run goes on from any state it reaches. -/
theorem run_of_visited {m' : Machine} {n : Nat} {before : List Machine}
    (reached : m.visited n = before ++ [m']) (fuel : Nat) :
    m.run (before.length + fuel) = m'.run fuel ∧
      m.visited (before.length + fuel) = before ++ m'.visited fuel := by
  induction before generalizing m n with
  | nil =>
    cases n with
    | zero => cases reached
    | succ n =>
      unfold visited at reached
      cases (List.cons.inj reached).1
      simp
  | cons first before ih =>
    cases n with
    | zero => cases reached
    | succ n =>
      unfold visited at reached
      obtain ⟨rfl, later⟩ := List.cons.inj reached
      cases hs : m.step with
      | inr outcome => rw [hs] at later; simp at later
      | inl next =>
        rw [hs] at later
        obtain ⟨run, trace⟩ := ih later
        rw [List.length_cons, Nat.add_right_comm, Machine.run, visited, hs]
        exact ⟨run, congrArg (m :: ·) trace⟩

end Machine

/-! Loading. -/

namespace Run

variable {w w' : World}

theorem run_bind_ok {a : Run α} {f : α → Run β} {y : β}
    (h : (a >>= f).run.run w = some (.ok y, w')) :
    ∃ x v, a.run.run w = some (.ok x, v) ∧ (f x).run.run v = some (.ok y, w') := by
  change (a.run.run w).bind (fun (r, v) => (ExceptT.bindCont f r).run v) = _ at h
  rcases ha : a.run.run w with _ | ⟨e | x, v⟩
  · rw [ha] at h; cases h
  · rw [ha] at h; cases h
  · rw [ha] at h; exact ⟨x, v, rfl, h⟩

theorem run_ofAction_ok {a : Action α} {x : α} (h : (ofAction a).run.run w = some (.ok x, w')) :
    a.run.run w = (.ok x, w') := Option.some.inj h

theorem run_call_ok {fuel : Nat} {callee : Callee} {args results : List Value} {fail : Raised → Failure}
    (h : (call fuel callee args fail).run.run w = some (.ok results, w')) :
    Machine.run fuel { world := w, control := .call callee args } = some (w', .ok results) := by
  obtain ⟨⟨v, outcome⟩, run, heq⟩ := Option.map_eq_some_iff.1 h
  cases outcome with
  | error r => cases heq
  | ok found => cases heq; exact run

/-- A module joins the store before its start function, if it has one, runs to its end. -/
theorem instantiate_cases {fuel : Nat} {d : Definitions} {base : Module} {owner : Instance}
    (h : (instantiate fuel d base).run.run w = some (.ok owner, w')) :
    ∃ v, (Action.instantiate d base).run.run w = (.ok owner, v) ∧
      ((∃ callee results, base.start.bind (owner.funcs[·]?) = some callee ∧
        Machine.run fuel { world := v, control := .call callee [] } = some (w', .ok results)) ∨
      base.start.bind (owner.funcs[·]?) = none ∧ w' = v) := by
  obtain ⟨found, v, joined, h⟩ := run_bind_ok h
  have joined := run_ofAction_ok joined
  cases start : base.start.bind (found.funcs[·]?) with
  | some callee =>
    rw [start] at h
    obtain ⟨results, _, started, h⟩ := run_bind_ok h
    cases h
    exact ⟨v, joined, .inl ⟨callee, results, start, run_call_ok started⟩⟩
  | none =>
    rw [start] at h
    cases h
    exact ⟨_, joined, .inr ⟨start, rfl⟩⟩

theorem run_instantiate_ok {fuel : Nat} {d : Definitions} {base : Module} {owner : Instance}
    (h : (instantiate fuel d base).run.run w = some (.ok owner, w')) :
    w'.config = w.config ∧ ∃ s s', Store.instantiate s d base = (.ok owner, s') := by
  obtain ⟨v, joined, started⟩ := instantiate_cases h
  have kept := (Action.keeps_instantiate d base).of_run joined
  refine ⟨?_, _, _, Action.run_instantiate_ok joined⟩
  rcases started with ⟨callee, results, -, run⟩ | ⟨-, rfl⟩
  · exact (Machine.run_config run).trans kept.config
  · exact kept.config

/-- A base has a memory, a table and a renderer, and looking for them changes nothing. -/
theorem baseExports_cases {owner : Instance} {e : BaseExports}
    (h : (Action.baseExports owner).run.run w = (.ok e, w')) :
    w' = w ∧ owner.export? w.config.abi.memory = some (.memory e.memory) ∧
      owner.export? w.config.abi.table = some (.table e.table) ∧
      ∃ report, typedExport w.store owner w.config.abi.reportResult reportType = .ok report := by
  have lookup {name : String} {type : FuncType} {callee : Callee} {v v' : World}
      (h : (Action.baseExport owner name type).run.run v = (.ok callee, v')) :
      v' = v ∧ typedExport v.store owner name type = .ok callee := by
    obtain ⟨_, _, hget, h⟩ := Action.run_bind_ok h
    cases hget
    rw [Action.run_ofExcept] at h
    exact ⟨(Prod.mk.inj h).2.symm, (Prod.mk.inj h).1⟩
  unfold Action.baseExports at h
  obtain ⟨_, _, hget, h⟩ := Action.run_bind_ok h
  cases hget
  dsimp only at h
  split at h
  · rename_i memory shared
    obtain ⟨_, _, hmemory, h⟩ := Action.run_bind_ok h
    cases hmemory
    split at h
    · rename_i table slots
      obtain ⟨_, _, htable, h⟩ := Action.run_bind_ok h
      cases htable
      obtain ⟨initializer, v, first, h⟩ := Action.run_bind_ok h
      obtain ⟨evaluate, v₁, second, h⟩ := Action.run_bind_ok h
      obtain ⟨report, v₂, third, h⟩ := Action.run_bind_ok h
      cases h
      obtain ⟨rfl, -⟩ := lookup first
      obtain ⟨rfl, -⟩ := lookup second
      obtain ⟨rfl, renderer⟩ := lookup third
      exact ⟨rfl, shared, slots, report, renderer⟩
    · cases h
  · cases h

/-- A base is put in place in four steps. -/
theorem place_cases {fuel : Nat} {base : Module} {e : BaseExports}
    (h : (place fuel base).run.run w = some (.ok e, w')) :
    ∃ d v owner v₁, Action.surface.run.run w = (.ok d, v) ∧
      (instantiate fuel d base).run.run v = some (.ok owner, v₁) ∧
      (Action.baseExports owner).run.run v₁ = (.ok e, v₁) ∧ (Action.install d owner e).run.run v₁ = (.ok (), w') := by
  obtain ⟨d, v, surfaced, h⟩ := run_bind_ok h
  obtain ⟨owner, v₁, joined, h⟩ := run_bind_ok h
  obtain ⟨e', v₂, exported, h⟩ := run_bind_ok h
  obtain ⟨_, v₃, installed, h⟩ := run_bind_ok h
  cases h
  obtain ⟨rfl, -⟩ := baseExports_cases (run_ofAction_ok exported)
  exact ⟨d, v, owner, _, run_ofAction_ok surfaced, joined, run_ofAction_ok exported, run_ofAction_ok installed⟩

/-- A base that was put in place: no units, its own exports published, and a surface whose version is
the first global of the store. -/
structure Placed (base : Module) (w : World) (p : Program) : Prop where
  program : w.program = some p
  units : p.units = []
  surface : ({} : Definitions).extend (w.config.abi.surfaceItems 0 p.memory p.table) = .ok p.surface
  symbols : p.symbols = ({} : Symbols).publish w.config.abi p.base.symbols
  joined : ∃ d s s', Store.instantiate s d base = (.ok p.base, s')

theorem place_ok {fuel : Nat} {base : Module} {e : BaseExports} (new : w.store.globals = #[])
    (h : (place fuel base).run.run w = some (.ok e, w')) : ∃ p, Placed base w' p := by
  obtain ⟨d, v, owner, v₁, surfaced, joined, -, installed⟩ := place_cases h
  have defined := Action.surface_ok surfaced
  obtain ⟨started, s, s', joined⟩ := run_instantiate_ok joined
  have names : v₁.config = w.config := started.trans (Action.keeps_surface.of_run surfaced).config
  obtain ⟨surface, shared, rfl⟩ := Action.install_ok installed
  have bound := World.kept_publish
    { v₁ with program := some { base := owner, memory := e.memory, table := e.table, surface } } owner.symbols
  have config : _ = w.config := bound.config.trans names
  refine ⟨_, bound.program, rfl, ?_, by rw [bound.config]; rfl, d, s, s', joined⟩
  have items : w.config.abi.surfaceItems 0 e.memory e.table =
      (w.config.abi.callItems ++ [((w.config.abi.envModule, surfaceVersionName), .global w.store.globals.size)]) ++
        [((w.config.abi.systemModule, w.config.abi.importMemory), .memory e.memory),
          ((w.config.abi.systemModule, w.config.abi.importTable), .table e.table)] := by
    simp [Abi.surfaceItems, new]
  rw [names] at shared
  rw [config]
  change ({} : Definitions).extend (w.config.abi.surfaceItems 0 e.memory e.table) = .ok surface
  rw [items, Definitions.extend_append, defined]
  exact shared

/-- A load ends with the initializer. Then what is pending is dropped, and the log goes on. -/
theorem load_cases {fuel : Nat} {base : Module} {e : BaseExports}
    (h : (load fuel base).run.run w = some (.ok e, w')) :
    ∃ v v' results ns, (place fuel base).run.run w = some (.ok e, v) ∧
      Machine.run fuel { world := v, control := .call e.initializer [] } = some (v', .ok results) ∧
      w' = { v' with pending := none }.noteAll ns := by
  obtain ⟨found, v, placed, h⟩ := run_bind_ok h
  obtain ⟨results, v', called, h⟩ := run_bind_ok h
  obtain ⟨_, _, hget, h⟩ := run_bind_ok h
  cases hget
  cases hp : v'.pending with
  | none =>
    rw [hp] at h
    obtain ⟨_, _, noted, h⟩ := run_bind_ok h
    cases noted
    cases h
    rw [← hp]
    exact ⟨v, v', results, [_], placed, run_call_ok called, rfl⟩
  | some stale =>
    rw [hp] at h
    obtain ⟨_, _, cleared, h⟩ := run_bind_ok h
    cases cleared
    obtain ⟨_, _, warned, h⟩ := run_bind_ok h
    cases warned
    obtain ⟨_, _, noted, h⟩ := run_bind_ok h
    cases noted
    cases h
    exact ⟨v, v', results, [_, _], placed, run_call_ok called, rfl⟩

theorem load_ok {fuel : Nat} {base : Module} {e : BaseExports}
    (h : (load fuel base).run.run w = some (.ok e, w')) :
    ∃ v v' results, (place fuel base).run.run w = some (.ok e, v) ∧
      Machine.run fuel { world := v, control := .call e.initializer [] } = some (v', .ok results) ∧
      World.SameProgram v' w' ∧ w'.pending = none := by
  obtain ⟨v, v', results, ns, placed, run, rfl⟩ := load_cases h
  have noted := World.kept_noteAll { v' with pending := none } ns
  exact ⟨v, v', results, placed, run, ⟨noted.engine, noted.config, noted.program⟩, noted.pending⟩

end Run

/-! Submissions. -/

namespace Session

variable {s s' : Session} {fuel : Nat} {text : String} {m : Machine} {w : World} {outcome : Outcome}

theorem load_cases {engine : Engine} {base : Module} {config : Config} {log : Array Notice}
    (h : Session.load fuel engine base config log = some (.ok s)) :
    ∃ e w, (Run.load fuel base).run.run { engine, config, journal := { log } } = some (.ok e, w) ∧
      s = { world := w, memory := e.memory, table := e.table, evaluate := e.evaluate } := by
  unfold Session.load at h
  rcases hrun : (Run.load fuel base).run.run { engine, config, journal := { log } } with _ | ⟨f | e, w⟩
  · rw [hrun] at h; cases h
  · rw [hrun] at h; cases h
  · rw [hrun] at h; cases h; exact ⟨e, w, rfl, rfl⟩

theorem load_ok {engine : Engine} {base : Module} {config : Config} {log : Array Notice}
    (h : Session.load fuel engine base config log = some (.ok s)) :
    s.state = .ready ∧ s.history = [] ∧ ∃ e, (Run.load fuel base).run.run { engine, config, journal := { log } } =
      some (.ok e, s.world) := by
  obtain ⟨e, w, run, rfl⟩ := load_cases h
  exact ⟨rfl, rfl, e, run⟩

/-- Writing a text for the evaluator keeps the program and what is pending. -/
theorem evaluation_ok (fits : s.evaluation text = .ok m) : World.Kept s.world m.world ∧ m.frames = [] := by
  unfold evaluation at fits
  dsimp only at fits
  cases hw : (s.world.store.memory s.memory).writeText text with
  | error f => rw [hw] at fits; cases fits
  | ok written => rw [hw] at fits; cases fits; exact ⟨⟨rfl, rfl, rfl, rfl⟩, rfl⟩

theorem evaluation_called (fits : s.evaluation text = .ok m) : ∃ args, m.control = .call s.evaluate args := by
  unfold evaluation at fits
  dsimp only at fits
  cases hw : (s.world.store.memory s.memory).writeText text with
  | error f => rw [hw] at fits; cases fits
  | ok written => rw [hw] at fits; cases fits; exact ⟨_, rfl⟩

/-- The world once the pending response was taken and a failed evaluation cleaned up after. -/
def settled (w : World) (outcome : Outcome) : World :=
  match outcome with
  | .ok _ => w.takeResponse.2
  | .error raised => clean w.takeResponse.2 raised w.pending

/-- The session once a submission was answered. -/
def answered (s : Session) (text : String) (response : Response) (w : World) : Session :=
  { s with
    world := w.note (.submission s.history.length response)
    state := .ready
    history := s.history ++ [{ input := text, response }] }

theorem same_settled (w : World) (outcome : Outcome) :
    World.SameProgram w (settled w outcome) ∧ (settled w outcome).pending = none := by
  cases outcome with
  | ok results => exact ⟨⟨rfl, rfl, rfl⟩, rfl⟩
  | error raised =>
    unfold settled clean
    dsimp only
    split <;> exact ⟨⟨rfl, rfl, rfl⟩, rfl⟩

theorem submit_of_misfit {f : Failure} (ready : s.state = .ready) (misfit : s.evaluation text = .error f) :
    s.submit fuel text = some (.ok (.error f.message), s.answered text (.error f.message) s.world) := by
  simp [submit, ready, evaluateText, misfit, answered]

/-- A submission whose evaluation ends is answered by what is pending then and by the outcome. -/
theorem submit_of_run (ready : s.state = .ready) (fits : s.evaluation text = .ok m)
    (run : m.run fuel = some (w, outcome)) :
    s.submit fuel text = some (.ok (settle outcome w.pending),
      s.answered text (settle outcome w.pending) (settled w outcome)) := by
  simp only [submit, ready, evaluateText, fits, run, answered, settled]
  cases outcome <;> rfl

/-- A submission that returns was answered at once or after an evaluation that ended. -/
theorem submit_cases {answer : Except Failure Response} (ready : s.state = .ready)
    (h : s.submit fuel text = some (answer, s')) :
    (∃ f, s.evaluation text = .error f ∧ s' = s.answered text (.error f.message) s.world) ∨
      ∃ m w outcome, s.evaluation text = .ok m ∧ m.run fuel = some (w, outcome) ∧
        s' = s.answered text (settle outcome w.pending) (settled w outcome) := by
  cases fits : s.evaluation text with
  | error f =>
    rw [submit_of_misfit ready fits] at h
    cases h
    exact .inl ⟨f, rfl, rfl⟩
  | ok m =>
    cases run : m.run fuel with
    | none => simp [submit, ready, evaluateText, fits, run] at h
    | some ended =>
      rw [submit_of_run ready fits run] at h
      cases h
      exact .inr ⟨m, _, _, rfl, run, rfl⟩

end Session

/-! Lives. -/

/-- Where a session stands: its code runs, or it waits for its owner. -/
inductive Stage where
  | running (m : Machine)
  | idle (s : Session)

namespace Stage

/-- The world at a stage. -/
def world : Stage → World
  | running m => m.world
  | idle s => s.world

/-- What waits for a call to end. -/
def frames : Stage → List Frame
  | running m => m.frames
  | idle _ => []

end Stage

/-- The world a session begins in. -/
def World.fresh (engine : Engine) (config : Config) (log : Array Notice) : World :=
  { engine, config, journal := { log } }

/-- The states that the initializer of a base goes through. -/
def Run.initialization (fuel : Nat) (base : Module) (w : World) : List Machine :=
  match (place fuel base).run.run w with
  | some (.ok e, w) => Machine.visited fuel { world := w, control := .call e.initializer [] }
  | _ => []

/-- The states that the evaluation of a text goes through. -/
def Session.visited (fuel : Nat) (s : Session) (text : String) : List Machine :=
  match s.evaluation text with
  | .ok m => m.visited fuel
  | .error _ => []

/-- The lives of sessions: the states that code has left behind since the base was in place, and the
stage reached. -/
inductive Life : List Machine → Stage → Prop where
  /-- The base has joined the store and its start function is called. -/
  | starting {engine : Engine} {base : Module} {config : Config}
      {log : Array Notice} {d : Definitions} {owner : Instance} {v w : World} {callee : Callee}
      (valid : base.isValid engine.referenceTypes = true)
      (surface : Action.surface.run.run (.fresh engine config log) = (.ok d, v))
      (joined : (Action.instantiate d base).run.run v = (.ok owner, w))
      (start : base.start.bind (owner.funcs[·]?) = some callee) :
      Life [] (.running { world := w, control := .call callee [] })
  /-- The base is in place and its initializer is called. -/
  | initializing {engine : Engine} {base : Module} {config : Config}
      {log : Array Notice} {fuel : Nat} {e : BaseExports} {w : World}
      (valid : base.isValid engine.referenceTypes = true)
      (placed : (Run.place fuel base).run.run (.fresh engine config log) = some (.ok e, w)) :
      Life [] (.running { world := w, control := .call e.initializer [] })
  /-- The session was loaded. -/
  | loaded {engine : Engine} {base : Module} {config : Config}
      {log : Array Notice} {fuel : Nat} {s : Session}
      (valid : base.isValid engine.referenceTypes = true)
      (loaded : Session.load fuel engine base config log = some (.ok s)) :
      Life (Run.initialization fuel base (.fresh engine config log)) (.idle s)
  /-- A text was submitted and is evaluated. -/
  | evaluating {life : List Machine} {s : Session} {text : String} {m : Machine}
      (before : Life life (.idle s)) (fits : s.evaluation text = .ok m) : Life life (.running m)
  /-- Code takes a step. -/
  | step {life : List Machine} {m m' : Machine}
      (before : Life life (.running m)) (step : m.step = .inl m') : Life (life ++ [m]) (.running m')
  /-- A submission was answered. -/
  | submitted {life : List Machine} {s s' : Session} {fuel : Nat} {text : String}
      {answer : Except Failure Response}
      (before : Life life (.idle s)) (answered : s.submit fuel text = some (answer, s')) :
      Life (life ++ s.visited fuel text) (.idle s')
  /-- The console was drained. -/
  | drained {life : List Machine} {s : Session} (before : Life life (.idle s)) :
      Life life (.idle s.drainConsole.2)
  /-- The log was taken. -/
  | logTaken {life : List Machine} {s : Session} (before : Life life (.idle s)) :
      Life life (.idle s.takeLog.2)
  /-- Time has passed. -/
  | timePassed {life : List Machine} {s : Session} (nanos : Nat) (before : Life life (.idle s)) :
      Life life (.idle (s.atTime nanos))

/-- What holds of a session once it is loaded, and is kept by submissions and by what its owner does in between, holds
of every session that waits for a submission. -/
theorem Life.idle_induction {P : Session → Prop}
    (loaded : ∀ {engine : Engine} {base : Module} {config : Config} {log : Array Notice} {fuel : Nat} {s : Session},
      Session.load fuel engine base config log = some (.ok s) → P s)
    (submitted : ∀ {life : List Machine} {s s' : Session} {fuel : Nat} {text : String}
      {answer : Except Failure Response}, Life life (.idle s) → P s → s.submit fuel text = some (answer, s') → P s')
    (drained : ∀ {s : Session}, P s → P s.drainConsole.2) (logTaken : ∀ {s : Session}, P s → P s.takeLog.2)
    (timePassed : ∀ {s : Session} (nanos : Nat), P s → P (s.atTime nanos))
    {life : List Machine} {s : Session} (h : Life life (.idle s)) : P s := by
  generalize hstage : Stage.idle s = stage at h
  induction h generalizing s with
  | starting => cases hstage
  | initializing => cases hstage
  | evaluating => cases hstage
  | step => cases hstage
  | loaded valid load => cases hstage; exact loaded load
  | submitted before answered ih => cases hstage; exact submitted before (ih rfl) answered
  | drained before ih => cases hstage; exact drained (ih rfl)
  | logTaken before ih => cases hstage; exact logTaken (ih rfl)
  | timePassed nanos before ih => cases hstage; exact timePassed nanos (ih rfl)

/-- A waiting session takes submissions, and no response is pending. -/
structure Session.Waiting (s : Session) : Prop where
  ready : s.state = .ready
  pending : s.world.pending = none

theorem Life.waiting {life : List Machine} {s : Session} (h : Life life (.idle s)) : s.Waiting := by
  refine idle_induction (P := Session.Waiting) ?_ ?_ ?_ ?_ ?_ h
  · intro engine base config log fuel s loaded
    obtain ⟨ready, -, e, run⟩ := Session.load_ok loaded
    obtain ⟨-, -, -, -, -, -, pending⟩ := Run.load_ok run
    exact ⟨ready, pending⟩
  · intro life s s' fuel text answer _ earlier answered
    rcases Session.submit_cases earlier.ready answered with ⟨f, -, rfl⟩ | ⟨m, w, outcome, -, -, rfl⟩
    · exact ⟨rfl, earlier.pending⟩
    · exact ⟨rfl, (Session.same_settled w outcome).2⟩
  · exact fun earlier => ⟨earlier.ready, earlier.pending⟩
  · exact fun earlier => ⟨earlier.ready, earlier.pending⟩
  · exact fun _ earlier => ⟨earlier.ready, earlier.pending⟩

/-- Every state that a run goes through is a stage of a life. -/
theorem Life.of_visited {life : List Machine} {m n : Machine} {fuel : Nat} (h : Life life (.running m))
    (visited : n ∈ m.visited fuel) : ∃ life, Life life (.running n) := by
  have keep {n n' : Machine} (lived : ∃ life, Life life (.running n)) (step : n.step = .inl n') :
      ∃ life, Life life (.running n') := by
    obtain ⟨life, lived⟩ := lived
    exact ⟨_, lived.step step⟩
  exact Machine.visited_kept (P := fun n => ∃ life, Life life (.running n)) keep ⟨life, h⟩ visited

theorem Life.of_evaluated {life : List Machine} {s : Session} {text : String} {n : Machine} {fuel : Nat}
    (h : Life life (.idle s)) (visited : n ∈ s.visited fuel text) : ∃ life, Life life (.running n) := by
  unfold Session.visited at visited
  cases fits : s.evaluation text with
  | error f => rw [fits] at visited; cases visited
  | ok m =>
    rw [fits] at visited
    exact (h.evaluating fits).of_visited visited

/-- Every state that a life has left behind was a stage of it. -/
theorem Life.of_mem {life : List Machine} {stage : Stage} {n : Machine} (h : Life life stage) (mem : n ∈ life) :
    ∃ life, Life life (.running n) := by
  induction h with
  | starting => cases mem
  | initializing => cases mem
  | @loaded engine base config log fuel s valid loaded =>
    obtain ⟨-, -, e, load⟩ := Session.load_ok loaded
    obtain ⟨v, v', results, placed, -, -, -⟩ := Run.load_ok load
    unfold Run.initialization World.fresh at mem
    rw [placed] at mem
    exact (Life.initializing valid placed).of_visited mem
  | evaluating before fits ih => exact ih mem
  | step before step ih =>
    rcases List.mem_append.1 mem with earlier | here
    · exact ih earlier
    · rw [List.mem_singleton.1 here]
      exact ⟨_, before⟩
  | submitted before answered ih =>
    rcases List.mem_append.1 mem with earlier | here
    · exact ih earlier
    · exact before.of_evaluated here
  | drained before ih => exact ih mem
  | logTaken before ih => exact ih mem
  | timePassed nanos before ih => exact ih mem

theorem Engine.compile?_valid {engine : Engine} {bytes : List UInt8} {m : Module}
    (h : engine.compile? bytes = some m) : m.isValid engine.referenceTypes = true := by
  obtain ⟨found, -, h⟩ := Option.bind_eq_some_iff.1 h
  obtain ⟨valid, h⟩ := Option.ite_none_right_eq_some.1 h
  cases h
  exact valid

/-- A session started from bytes has a life. -/
theorem Life.started {fuel : Nat} {config : Config} {bytes : List UInt8} {s : Session}
    (h : Session.start fuel config bytes = some (.ok s)) : ∃ life, Life life (.idle s) := by
  unfold Session.start at h
  cases hbuild : Engine.build config with
  | error f => simp [hbuild, Except.bind] at h
  | ok engine =>
    cases hbase : engine.compile? bytes with
    | none =>
      simp only [hbuild, Except.bind, Engine.compileBase, hbase] at h
      cases h
    | some base =>
      simp only [hbuild, Except.bind, Engine.compileBase, hbase] at h
      exact ⟨_, .loaded (Engine.compile?_valid hbase) h⟩

/-- The session loaded from a base, once it has answered the given submissions. -/
def Session.after (fuel : Nat) (base : Module) (texts : List String) : Option Session := do
  match ← Session.load fuel {} base {} with
  | .ok s => texts.foldlM (fun s text => (s.submit fuel text).map (·.2)) s
  | .error _ => none

theorem Life.foldlM_submit {fuel : Nat} {texts : List String} {s s' : Session} {life : List Machine}
    (before : Life life (.idle s))
    (h : texts.foldlM (fun s text => (s.submit fuel text).map (·.2)) s = some s') :
    ∃ life, Life life (.idle s') := by
  induction texts generalizing s life with
  | nil => cases h; exact ⟨life, before⟩
  | cons text texts ih =>
    obtain ⟨next, answered, h⟩ := Option.bind_eq_some_iff.1 h
    obtain ⟨⟨answer, _⟩, submitted, rfl⟩ := Option.map_eq_some_iff.1 answered
    exact ih (before.submitted submitted) h

theorem Life.after {fuel : Nat} {base : Module} {texts : List String} {s : Session}
    (valid : base.isValid ({} : Engine).referenceTypes = true) (h : Session.after fuel base texts = some s) :
    ∃ life, Life life (.idle s) := by
  obtain ⟨loaded, begun, h⟩ := Option.bind_eq_some_iff.1 h
  cases loaded with
  | error f => cases h
  | ok s₀ => exact (Life.loaded valid begun).foldlM_submit h

/-- A base with one page of memory and four slots, which imports host calls under their usual names
and exports further functions that take nothing and return a word. -/
def Wasm.Module.ofEvaluator (calls : List HostCall) (initializer evaluate : List Instr)
    (data : List Data := []) (entries : List (String × List Instr) := []) : Module where
  imports := calls.map fun call => { module := "env", name := call.name, type := .func call.type }
  funcs :=
    { type := {}, locals := [], body := initializer } ::
    { type := { params := [.i32, .i32] }, locals := [], body := evaluate } ::
    { type := reportType, locals := [], body := [] } ::
    entries.map fun (_, body) => { type := entryType, locals := [], body }
  memories := [{ min := 1 }]
  tables := [{ limits := { min := 4 }, kind := .func }]
  exports :=
    { name := "memory", kind := .memory, index := 0 } ::
    { name := "__indirect_function_table", kind := .table, index := 0 } ::
    { name := "initialize", kind := .func, index := calls.length } ::
    { name := "evaluate", kind := .func, index := calls.length + 1 } ::
    { name := "report_result", kind := .func, index := calls.length + 2 } ::
    entries.zipIdx.map fun ((name, _), i) => { name, kind := .func, index := calls.length + 3 + i }
  data := data

/-- A unit whose entry points return zero. -/
def Sample.innerText : String := "(func(export \"static_init\")(export \"main\")(result i32)i32.const 0)"

/-- A unit whose main entry point is the base's function `nest`. -/
def Sample.outerText : String :=
  "(import \"env\" \"nest\"(func(result i32)))(export \"main\"(func 0))(func(export \"static_init\")(result i32)i32.const 0)"

/-- A base whose evaluator links a unit which links a given one from its main entry point, the inner one
at higher bases. -/
def Sample.nesting (innerText : String) : Module :=
  let inner := Text.Utf8.encode innerText
  let outer := Text.Utf8.encode outerText
  .ofEvaluator [.compileInit] [] [.i32 1000, .i32 (.ofNat outer.length), .i32 1024, .i32 1, .call 0]
    [{ memory := 0, offset := .i32 1000, bytes := outer }, { memory := 0, offset := .i32 2000, bytes := inner }]
    [("nest", [.i32 2000, .i32 (.ofNat inner.length), .i32 2048, .i32 2, .call 0, .i32 5])]

/-- A base whose evaluator links two units, one inside the other. -/
def Sample.nestingBase : Module := nesting innerText

/-- Two units are linked by one submission, the inner one first. -/
theorem Sample.nested : ∃ life s, Life life (.idle s) ∧
    s.world.units.map (fun u => (u.memoryBase, u.tableBase)) = [(2048, 2), (1024, 1)] ∧
    (s.world.program.bind (·.symbols.find? "main")).isSome = true := by
  have evaluated : (Session.after 100 nestingBase [""]).map (fun s =>
      (s.world.units.map (fun u => (u.memoryBase, u.tableBase)),
        (s.world.program.bind (·.symbols.find? "main")).isSome)) =
      some ([(2048, 2), (1024, 1)], true) := by decide +kernel
  obtain ⟨s, started, found⟩ := Option.map_eq_some_iff.1 evaluated
  obtain ⟨bases, bound⟩ := Prod.mk.inj found
  obtain ⟨life, h⟩ := Life.after (by decide +kernel) started
  exact ⟨life, s, h, bases, bound⟩

/-- What holds before and after the base is in place, is kept by every step of a life, and does not depend on
what changes between calls. -/
structure Invariant (I : List Machine → World → List Frame → Prop) : Prop where
  unplaced : ∀ {w : World}, w.program = none → I [] w []
  placed : ∀ {engine : Engine} {base : Module} {w : World} {p : Program},
    base.isValid engine.referenceTypes = true → Run.Placed base w p → I [] w []
  step : ∀ {life : List Machine} {m m' : Machine}, Life life (.running m) →
    I life m.world m.frames → m.step = .inl m' → I (life ++ [m]) m'.world m'.frames
  ended : ∀ {life : List Machine} {m : Machine} {outcome : Outcome},
    I life m.world m.frames → m.step = .inr outcome → I (life ++ [m]) m.world []
  outside : ∀ {life : List Machine} {w w' : World},
    I life w [] → World.SameProgram w w' → I life w' []

namespace Invariant

variable {I : List Machine → World → List Frame → Prop}

/-- An invariant holds when a call made from outside has ended. -/
theorem run (inv : Invariant I) {life : List Machine} {m : Machine} {fuel : Nat} {w : World}
    {outcome : Outcome} (begun : Life life (.running m)) (h : I life m.world m.frames)
    (run : m.run fuel = some (w, outcome)) : I (life ++ m.visited fuel) w [] := by
  obtain ⟨left, last, trace, ⟨-, holds⟩, ended, rfl⟩ :=
    Machine.run_invariant (I := fun life m => Life life (.running m) ∧ I life m.world m.frames)
      (fun ⟨lived, holds⟩ step => ⟨lived.step step, inv.step lived holds step⟩) run ⟨begun, h⟩
  rw [trace, ← List.append_assoc]
  exact inv.ended holds ended

theorem evaluating (inv : Invariant I) {life : List Machine} {s : Session} {text : String} {m : Machine}
    (h : I life s.world []) (fits : s.evaluation text = .ok m) : I life m.world m.frames := by
  obtain ⟨kept, frames⟩ := Session.evaluation_ok fits
  rw [frames]
  exact inv.outside h kept.same

/-- An invariant holds at every stage of every life. -/
theorem holds (inv : Invariant I) {life : List Machine} {stage : Stage} (h : Life life stage) :
    I life stage.world stage.frames := by
  induction h with
  | @starting engine base config log d owner v w callee valid surface joined start =>
    have defined := Action.keeps_surface (.fresh engine config log)
    rw [surface] at defined
    have joining := Action.keeps_instantiate d base v
    rw [joined] at joining
    exact inv.unplaced (joining.program.trans defined.program)
  | initializing valid placed =>
    obtain ⟨p, placed⟩ := Run.place_ok rfl placed
    exact inv.placed valid placed
  | @loaded engine base config log fuel s valid loaded =>
    obtain ⟨-, -, e, load⟩ := Session.load_ok loaded
    obtain ⟨v, v', results, placed, initialized, same, -⟩ := Run.load_ok load
    obtain ⟨p, installed⟩ := Run.place_ok rfl placed
    have called := inv.run (.initializing valid placed) (inv.placed valid installed) initialized
    have trace : Run.initialization fuel base (.fresh engine config log) =
        Machine.visited fuel { world := v, control := .call e.initializer [] } := by
      unfold Run.initialization World.fresh
      rw [placed]
    rw [trace]
    exact inv.outside called same
  | evaluating before fits ih => exact inv.evaluating ih fits
  | step before step ih => exact inv.step before ih step
  | @submitted life s s' fuel text answer before answered ih =>
    unfold Session.visited
    rcases Session.submit_cases before.waiting.ready answered with
      ⟨f, misfit, rfl⟩ | ⟨m, w, outcome, fits, run, rfl⟩
    · rw [misfit, List.append_nil]
      exact inv.outside ih ⟨rfl, rfl, rfl⟩
    · rw [fits]
      exact inv.outside (inv.run (before.evaluating fits) (inv.evaluating ih fits) run)
        ((Session.same_settled w outcome).1.trans ⟨rfl, rfl, rfl⟩)
  | drained before ih => exact inv.outside ih ⟨rfl, rfl, rfl⟩
  | logTaken before ih => exact inv.outside ih ⟨rfl, rfl, rfl⟩
  | timePassed nanos before ih => exact inv.outside ih ⟨rfl, rfl, rfl⟩

end Invariant

end UnitHost
