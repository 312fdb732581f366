import UnitHost.Proofs.FailurePaths
import UnitHost.Proofs.LinkCourse

/-!
# Before and after the program is in place

A base joins the store before there is a program, and its start function runs without one. `Machine.Gated` says what the
host answers then: every call but a mark fails, and all that a call leaves behind is a log record. So the initializer
finds a console, a list of units and a response that nobody has touched, which is `World.Opened`.

From then on there is a program, and its base keeps the renderer that was looked up when it was put in place: functions
never leave the store (`Store.KeepsFuncs`), and no step changes the base (`World.Continues`). `Machine.Served` gathers what
follows for every state of the initializer and of later submissions: nothing fails for want of a program, every unit whose
entry points have run is appended, and once a unit is published only the call of the renderer can make its link fail.
-/

namespace UnitHost

open Wasm

/-! Without a program. -/

/-- All that differs is the log. -/
def World.Logs (w w' : World) : Prop := ∃ log, w' = { w with journal := { w.journal with log } }

/-- All that differs are the objects. -/
def World.Stores (w w' : World) : Prop := ∃ store, w' = { w with store }

/-- There is no program, nothing was recorded or posted and no group is open. -/
structure World.Untouched (w : World) : Prop where
  program : w.program = none
  console : w.journal.console = {}
  pending : w.pending = none

namespace World

variable {w w' : World}

theorem logs_refl (w : World) : w.Logs w := ⟨w.journal.log, rfl⟩

instance : IsPreorder World Stores where
  refl w := ⟨w.store, rfl⟩
  trans := by
    rintro w _ _ ⟨first, rfl⟩ ⟨second, rfl⟩
    exact ⟨second, rfl⟩

theorem Untouched.logs (h : w.Untouched) (logs : w.Logs w') : w'.Untouched := by
  obtain ⟨log, rfl⟩ := logs
  exact ⟨h.program, h.console, h.pending⟩

theorem Untouched.stores (h : w.Untouched) (stores : w.Stores w') : w'.Untouched := by
  obtain ⟨store, rfl⟩ := stores
  exact ⟨h.program, h.console, h.pending⟩

theorem Untouched.depth (h : w.Untouched) : w.depth = 0 := by
  unfold World.depth
  rw [h.console]

theorem untouched_fresh (engine : Engine) (config : Config) (log : Array Notice) : (fresh engine config log).Untouched :=
  ⟨rfl, rfl, rfl⟩

end World

/-- What a host call fails with if there is no program. Only a mark does not fail. -/
def HostCall.early? : HostCall → Option Failure
  | .mark => none
  | .groupEnd => some .unbalancedGroup
  | _ => some .programNotLoaded

/-- Without a program a host call leaves a log record behind at most. One that links is carried out by the machine. -/
theorem Action.run_hostCall_early {w : World} (h : w.Untouched) (call : HostCall) (address count : UInt32) :
    ∃ result w', (hostCall call address count).run.run w = (result, w') ∧ w.Logs w' ∧
      (call ≠ .compileInit → result = call.early?.elim (.ok ()) .error) := by
  have unread : w.decoded address count = .error .programNotLoaded := by
    unfold World.decoded
    rw [h.program]
  have closed : w.journal.console.depth = 0 := h.depth
  cases call with
  | groupEnd =>
    refine ⟨.error .unbalancedGroup, w, ?_, w.logs_refl, fun _ => rfl⟩
    unfold hostCall
    rw [run_groupEnd, Journal.closeGroup, Console.closeGroup, closed]
    rfl
  | compileInit => exact ⟨.ok (), w, rfl, w.logs_refl, fun other => absurd rfl other⟩
  | mark =>
    rw [run_hostCall rfl, unread]
    exact ⟨_, _, rfl, ⟨_, rfl⟩, fun _ => rfl⟩
  | panicError =>
    -- There is no group to close.
    have unwound : w.journal.unwind = w.journal := by
      unfold Journal.unwind
      rw [closed]
    refine ⟨.error .programNotLoaded, w, ?_, w.logs_refl, fun _ => rfl⟩
    rw [run_hostCall rfl, unread]
    unfold HostCall.refused
    rw [unwound]
  | log | warn | error | group | postOutput | postError =>
    rw [run_hostCall rfl, unread]
    exact ⟨_, w, rfl, w.logs_refl, fun _ => rfl⟩

namespace Machine

variable {m m' n : Machine}

/-- The start function of a base runs: there is no program, and only code waits. -/
structure Early (n : Machine) : Prop where
  world : n.world.Untouched
  frames : ∀ f ∈ n.frames, ∃ a, f = .caller a

theorem Early.logs (h : m.Early) (logs : m.world.Logs m'.world) (frames : m'.frames = m.frames) : m'.Early :=
  ⟨h.world.logs logs, frames ▸ h.frames⟩

theorem link_early (h : m.world.Untouched) (r : LinkRequest) :
    m.link r = m.failLink .programNotLoaded := by
  unfold link
  rw [Action.run_prepare_of_none h.program]

theorem Local.early (h : m.Early) (own : m.Local m') : m'.Early := by
  cases own with
  | go c => exact ⟨h.world, h.frames⟩
  | memory address memory a => exact ⟨h.world.stores ⟨_, rfl⟩, h.frames⟩
  | table address table a => exact ⟨h.world.stores ⟨_, rfl⟩, h.frames⟩
  | global address v a => exact ⟨h.world.stores ⟨_, rfl⟩, h.frames⟩
  | invoke a callee type => exact ⟨h.world, List.forall_mem_cons.2 ⟨⟨_, rfl⟩, h.frames⟩⟩

theorem call_early (h : m.Early) (callee : Callee) (args : List Value) : (m.call callee args).Early := by
  unfold call
  split
  · repeat' split
    all_goals exact ⟨h.world, h.frames⟩
  · rw [link_early h.world]
    exact h.logs ⟨_, rfl⟩ rfl
  · rename_i call _
    obtain ⟨result, w', run, logs, -⟩ :=
      Action.run_hostCall_early h.world call (args.getD 0 .null).word (args.getD 1 .null).word
    rw [run]
    cases result with
    | ok _ => exact h.logs logs rfl
    | error f => exact h.logs logs rfl

theorem step_early (h : m.Early) (step : m.step = .inl m') : m'.Early := by
  have below : ∀ g ∈ m.pop.frames, ∃ a, g = .caller a := fun g mem => h.frames g (List.mem_of_mem_tail mem)
  cases step_taken step with
  | code a _ hc own => exact own.early h
  | call callee args hc => exact call_early h callee args
  | resume f frames results hc hf =>
    obtain ⟨a, rfl⟩ := h.frames f (hf ▸ List.mem_cons_self)
    exact ⟨h.world, below⟩
  | abandon f frames r hc hf =>
    obtain ⟨a, rfl⟩ := h.frames f (hf ▸ List.mem_cons_self)
    exact ⟨h.world, below⟩

theorem early_call {w : World} (h : w.Untouched) (callee : Callee) :
    Early { world := w, control := .call callee [] } := ⟨h, List.forall_mem_nil _⟩

/-- What the host answers while the start function of a base runs. -/
structure Gated (n : Machine) : Prop where
  untouched : n.world.Untouched
  /-- A host call that is given as many values as it takes fails, unless it is a mark, and leaves a log record at most. -/
  calls : ∀ (call : HostCall) (args : List Value), args.length = call.type.params.length →
    ∃ n', (n.go (.call (.host call) args)).step = .inl n' ∧ n.world.Logs n'.world ∧ n'.frames = n.frames ∧
      n'.control = call.early?.elim (.give []) (.raise <| .failure ·)

theorem Early.gated (h : n.Early) : n.Gated := by
  refine ⟨h.world, fun call args fits => ⟨_, step_call rfl, ?_⟩⟩
  by_cases link : call = .compileInit
  · subst link
    obtain ⟨address, count, memoryBase, tableBase, rfl⟩ := List.length_eq_four.1 fits
    have failed := link_early (m := n.go (.call (.host .compileInit) [address, count, memoryBase, tableBase])) h.world
    rw [Machine.call, failed]
    exact ⟨⟨_, rfl⟩, rfl, rfl⟩
  · obtain ⟨result, w', run, logs, answer⟩ :=
      Action.run_hostCall_early h.world call (args.getD 0 .null).word (args.getD 1 .null).word
    rw [Machine.call]
    · have same : (n.go (.call (.host call) args)).world = n.world := rfl
      rw [same, run, answer link]
      cases call.early? with
      | none => exact ⟨logs, rfl, rfl⟩
      | some f => exact ⟨logs, rfl, rfl⟩
    · intro _ _ _ _ _ linking
      exact absurd linking link

end Machine

namespace Run

variable {fuel : Nat} {base : Module} {e : BaseExports} {w w' : World}

theorem stores_surface {d : Definitions} (h : Action.surface.run.run w = (.ok d, w')) : w.Stores w' :=
  (Action.respects_surface fun _ s => ⟨s, rfl⟩).of_run h

theorem stores_instantiate {d : Definitions} {owner : Instance}
    (h : (Action.instantiate d base).run.run w = (.ok owner, w')) : w.Stores w' :=
  (Action.respects_instantiate (fun _ s => ⟨s, rfl⟩) d base).of_run h

/-- The start function of a base runs without a program. -/
theorem starting_early {n : Machine} (h : w.Untouched) (mem : n ∈ starting fuel base w) : n.Early := by
  unfold starting at mem
  split at mem
  · rename_i surfaced
    split at mem
    · rename_i joined
      have joined := (h.stores (stores_surface surfaced)).stores (stores_instantiate joined)
      split at mem
      · exact Machine.visited_kept Machine.step_early (Machine.early_call joined _) mem
      · cases mem
    · cases mem
  · cases mem

/-- A base has joined the store and its start function has returned, and still there is no program. -/
theorem untouched_instantiate {d : Definitions} {owner : Instance} (h : w.Untouched)
    (joined : (instantiate fuel d base).run.run w = some (.ok owner, w')) : w'.Untouched := by
  obtain ⟨v, joined, started⟩ := instantiate_cases joined
  have joined := h.stores (stores_instantiate joined)
  rcases started with ⟨callee, results, -, run⟩ | ⟨-, rfl⟩
  · obtain ⟨-, last, -, early, -, rfl⟩ := @Machine.run_invariant _ _ _ _ (fun _ n => n.Early)
      (fun early step => Machine.step_early early step) [] run (Machine.early_call joined callee)
    exact early.world
  · exact joined

end Run

/-- What the initializer of a base finds: nothing was recorded, posted or linked, no group is open, and the symbols are the
functions and globals that the base exports under names that are not reserved. -/
structure World.Opened (base : Module) (w : World) (p : Program) : Prop where
  program : w.program = some p
  recorded : w.recorded = []
  pending : w.pending = none
  depth : w.depth = 0
  units : w.units = []
  joined : ∃ d s s', Store.instantiate s d base = (.ok p.base, s')
  exports : p.base.symbols.map (·.1) = (base.exports.filter Export.isSymbol).map (·.name)
  symbols : ∀ name object, p.symbols.find? name = some object ↔
    (name, object) ∈ p.base.symbols ∧ w.config.abi.isReserved name = false

namespace Run

variable {fuel : Nat} {base : Module} {e : BaseExports} {w w' : World}

/-- Putting the program in place records and posts nothing. -/
theorem place_opened {referenceTypes : Bool} (valid : base.isValid referenceTypes = true) (h : w.Untouched)
    (new : w.store.globals = #[]) (placed : (place fuel base).run.run w = some (.ok e, w')) :
    ∃ p, w'.Opened base p := by
  obtain ⟨p, found⟩ := place_ok new placed
  obtain ⟨_, _, _, allocated⟩ := found.joined
  obtain ⟨d, v, owner, v₁, surfaced, joined, -, installed⟩ := place_cases placed
  have started := untouched_instantiate (h.stores (stores_surface surfaced)) joined
  obtain ⟨surface, -, rfl⟩ := Action.install_ok installed
  let v₂ : World := { v₁ with program := some { base := owner, memory := e.memory, table := e.table, surface } }
  have pending := (v₂.kept_publish owner.symbols).pending.trans started.pending
  have console := (v₂.console_publish owner.symbols).trans started.console
  refine ⟨p, found.program, ?_, pending, ?_, ?_, found.joined, Store.names_of_instantiate valid allocated, ?_⟩
  · unfold World.recorded
    rw [console]
  · unfold World.depth
    rw [console]
  · unfold World.units
    rw [found.program]
    exact found.units
  · intro name object
    rw [found.symbols]
    cases reserved : (v₂.publish owner.symbols).config.abi.isReserved name with
    | true =>
      rw [Symbols.find?_publish_of_reserved reserved]
      simp [Symbols.find?]
    | false =>
      rw [Symbols.find?_publish_iff (Instance.distinct_of_instantiate valid allocated) reserved]
      simp [Symbols.find?]

end Run

/-! The renderer stays. -/

/-- The functions of a store are still there in a later one. -/
def Store.KeepsFuncs (s s' : Store) : Prop :=
  ∀ (address : Nat) (c : Closure), s.funcs[address]? = some c → s'.funcs[address]? = some c

namespace Store

variable {s s' : Store}

instance : IsPreorder Store KeepsFuncs where
  refl _ _ _ found := found
  trans _ _ _ h h' address c found := h' address c (h address c found)

theorem keepsFuncs_of_eq (same : s'.funcs = s.funcs) : s.KeepsFuncs s' := by
  intro address c found
  rw [same]
  exact found

theorem keepsFuncs_instantiate (s : Store) (d : Definitions) (m : Module) : s.KeepsFuncs (s.instantiate d m).2 := by
  refine rel_instantiate (fun _ _ _ _ => keepsFuncs_of_eq rfl) (fun _ _ _ _ => keepsFuncs_of_eq rfl) ?_
  intro imports _ address c found
  have inside := (Array.getElem?_eq_some_iff.1 found).1
  simp only [allocate]
  rw [Array.getElem?_append_left inside, found]

/-- A function of a given type that takes something is found again. -/
theorem KeepsFuncs.typedExport (h : s.KeepsFuncs s') {owner : Instance} {name : String} {report : Callee}
    (found : UnitHost.typedExport s owner name reportType = .ok report) :
    UnitHost.typedExport s' owner name reportType = .ok report := by
  have exported := export?_of_typedExport found
  have same : s'.calleeType report = s.calleeType report := by
    cases report with
    | host call => rfl
    | code address =>
      cases there : s.funcs[address]? with
      | some c =>
        unfold calleeType
        dsimp only
        rw [h address c there, there]
      | none =>
        -- What is not there takes nothing.
        unfold UnitHost.typedExport at found
        rw [exported] at found
        simp [calleeType, there, reportType] at found
  unfold UnitHost.typedExport at found ⊢
  rw [exported] at found ⊢
  dsimp only at found ⊢
  rw [same]
  exact found

end Store

/-- The functions of a world are still there in a later one. -/
def World.KeepsFuncs (w w' : World) : Prop := w.store.KeepsFuncs w'.store

instance : IsPreorder World World.KeepsFuncs where
  refl w := refl_of Store.KeepsFuncs w.store
  trans _ _ _ h h' := trans_of Store.KeepsFuncs h h'

namespace Action

open World (KeepsFuncs)

theorem keepsFuncs_instantiate (d : Definitions) (m : Module) : Respects KeepsFuncs (instantiate d m) := by
  intro w
  rw [run_instantiate]
  exact w.store.keepsFuncs_instantiate d m

/-- A link adds functions, no more. -/
theorem keepsFuncs_prepare (r : LinkRequest) : Respects KeepsFuncs (prepare r) := by
  refine respects_prepare (respects_growing ?_ ?_ ?_) ?_ keepsFuncs_instantiate r
  · exact fun _ _ _ _ => Store.keepsFuncs_of_eq rfl
  · exact fun _ _ _ _ => Store.keepsFuncs_of_eq rfl
  · exact fun _ _ => Store.keepsFuncs_of_eq rfl
  · exact fun _ _ => Store.keepsFuncs_of_eq rfl

end Action

/-- A later world of one session: its configuration, its base and its functions are still there. -/
structure World.Continues (w w' : World) : Prop where
  config : w'.config = w.config
  base : w'.program.map (·.base) = w.program.map (·.base)
  funcs : w.store.KeepsFuncs w'.store

/-- The base has the renderer that a link looks up. -/
def World.Renders (w : World) : Prop :=
  ∃ p report, w.program = some p ∧ typedExport w.store p.base w.config.abi.reportResult reportType = .ok report

namespace World

variable {w w' : World}

theorem Continues.of_same (same : SameProgram w w') (funcs : w'.store.funcs = w.store.funcs) : w.Continues w' :=
  ⟨same.config, by rw [same.program], Store.keepsFuncs_of_eq funcs⟩

theorem Renders.continues (h : w.Renders) (later : w.Continues w') : w'.Renders := by
  obtain ⟨p, report, placed, found⟩ := h
  have base := later.base
  rw [placed] at base
  obtain ⟨p', placed', same⟩ := Option.map_eq_some_iff.1 base
  refine ⟨p', report, placed', ?_⟩
  rw [same, later.config]
  exact later.funcs.typedExport found

theorem Renders.faultless (h : w.Renders) : w.rendererFault? = none := by
  obtain ⟨p, report, placed, found⟩ := h
  unfold rendererFault?
  rw [placed]
  dsimp only
  rw [found]

end World

namespace Machine

variable {m m' n : Machine}

theorem step_keepsFuncs (h : m.step = .inl m') : m.world.store.KeepsFuncs m'.world.store := by
  cases step_store h with
  | code a hc own => cases own <;> exact Store.keepsFuncs_of_eq rfl
  | same store => exact Store.keepsFuncs_of_eq (by rw [store])
  | linked r store =>
    rw [store]
    exact Action.keepsFuncs_prepare r m.world

theorem step_continues (h : m.step = .inl m') : m.world.Continues m'.world :=
  ⟨step_config h, step_map (fun same => same.base) h, step_keepsFuncs h⟩

theorem step_renders (h : m.world.Renders) (step : m.step = .inl m') : m'.world.Renders :=
  h.continues (step_continues step)

end Machine

/-- The renderer is looked up before a base is put in place. -/
theorem Run.place_renders {fuel : Nat} {base : Module} {e : BaseExports} {w w' : World}
    (h : (place fuel base).run.run w = some (.ok e, w')) : w'.Renders := by
  obtain ⟨d, v, owner, v₁, -, -, exported, installed⟩ := place_cases h
  obtain ⟨-, -, -, report, found⟩ := baseExports_cases exported
  obtain ⟨surface, -, rfl⟩ := Action.install_ok installed
  have kept := World.kept_publish
    { v₁ with program := some { base := owner, memory := e.memory, table := e.table, surface } } owner.symbols
  refine ⟨_, report, kept.program, ?_⟩
  rw [World.store_publish, kept.config]
  exact found

theorem Session.evaluation_renders {s : Session} {text : String} {m : Machine} (h : s.world.Renders)
    (fits : s.evaluation text = .ok m) : m.world.Renders := by
  obtain ⟨memory, -, store⟩ := evaluation_written fits
  exact h.continues (.of_same (evaluation_ok fits).1.same (by rw [store]; rfl))

/-- A loaded session has a renderer. -/
theorem Life.renders {life : List Machine} {s : Session} (h : Life life (.idle s)) : s.world.Renders := by
  refine idle_induction (P := fun s => s.world.Renders) ?_ ?_ id id (fun _ => id) h
  · intro engine base config log fuel s loaded
    obtain ⟨e, w, load, rfl⟩ := Session.load_cases loaded
    obtain ⟨v, v', results, ns, placed, run, rfl⟩ := Run.load_cases load
    have ended := Machine.run_kept (P := World.Renders) Machine.step_renders run (Run.place_renders placed)
    have noted := World.kept_noteAll { v' with pending := none } ns
    exact ended.continues (.of_same ⟨noted.engine, noted.config, noted.program⟩
      (congrArg Store.funcs (World.store_noteAll { v' with pending := none } ns)))
  · intro life s s' fuel text answer before earlier answered
    rcases Session.submit_cases before.waiting.ready answered with ⟨f, -, rfl⟩ | ⟨m, w, outcome, fits, run, rfl⟩
    · exact earlier
    · have ended := Machine.run_kept (P := World.Renders) Machine.step_renders run
        (Session.evaluation_renders earlier fits)
      have settled : (Session.settled w outcome).Renders := ended.continues (.of_same (Session.same_settled w outcome).1
        (congrArg Store.funcs (Session.store_settled w outcome)))
      exact settled

/-! With a program. -/

section Loaded

variable {f : Failure}

theorem Failure.Checked.loaded (h : f.Checked) : f ≠ .programNotLoaded := by
  rintro rfl
  exact h

namespace Machine

variable {m m' n : Machine}

/-- Nothing fails for want of a program or a renderer once there are both. -/
theorem Fails.loaded (h : m.Fails f) (renders : m.world.Renders) : f ≠ .programNotLoaded := by
  have ⟨p, _, placed, _⟩ := renders
  cases h with
  | trap t step => nofun
  | hostCall call args f control unlinked failed =>
    rcases Action.hostCall_fails failed with rfl | ⟨text, rfl⟩ | range
    · nofun
    · nofun
    · exact (checked_decoded placed range).loaded
  | prepare r f link failed => exact (Action.prepare_checked placed failed).loaded
  | entry r l w f link prepared unstarted absent =>
    obtain ⟨name, fault, rfl⟩ := missing_of_entryFault absent
    nofun
  | startedEntry l results f received absent =>
    obtain ⟨name, fault, rfl⟩ := missing_of_entryFault absent
    nofun
  | staticInit l main next depth results received refused => nofun
  | renderer l depth results f received absent =>
    rw [renders.faultless] at absent
    cases absent

/-- There are a program and a renderer, and what is on its way out is not that there is no program. -/
structure Loaded (n : Machine) : Prop where
  renders : n.world.Renders
  unraised : ∀ r, n.raised? = some r → r.recover ≠ .programNotLoaded

theorem step_loaded (h : m.Loaded) (step : m.step = .inl m') : m'.Loaded := by
  refine ⟨step_renders h.renders step, fun r raised => ?_⟩
  cases before : m.raised? with
  | none => exact (step_fails step before raised).1.loaded h.renders
  | some r₀ =>
    -- A frame passes on what it receives, or puts its own words in its place.
    have control := raised?_eq_some before
    cases frames : m.frames with
    | nil => simp [Machine.step, control, frames] at step
    | cons g rest =>
      rw [step_raise control frames] at step
      cases step
      obtain ⟨r', passed, -, recovered⟩ := abandon_raised m.pop g r₀
      rw [passed] at raised
      cases raised
      rw [recovered]
      split
      · intro same
        cases same
      · exact h.unraised r₀ before

theorem loaded_call {w : World} (h : w.Renders) (callee : Callee) (args : List Value) :
    Loaded { world := w, control := .call callee args } := ⟨h, fun _ => nofun⟩

/-- A main entry point that returned is followed by the renderer if there is one. -/
theorem executed_rendered (h : m.world.Renders) (l : Linking) (depth : Nat) (value : UInt32) :
    ∃ f, (m.executed l depth value).frames = f :: m.frames := by
  have calm : (m.executed l depth value).raised? = none := by
    cases raised : (m.executed l depth value).raised? with
    | none => rfl
    | some r =>
      have absent := (executed_raised raised).1
      rw [h.faultless] at absent
      cases absent
  revert calm
  unfold executed
  dsimp only
  repeat' split
  · intro calm
    cases calm
  · intro calm
    cases calm
  · intro _
    exact ⟨_, rfl⟩

/-- Code that runs on top of a frame runs until the frame receives its outcome. -/
theorem visited_waits {g : Frame} {below : List Frame} {fuel : Nat} (frames : ∃ above, m.frames = above ++ g :: below)
    (mem : n ∈ m.visited fuel) :
    (∃ above, n.frames = above ++ g :: below) ∨
      ∃ x ∈ m.visited fuel, ∃ o, x.received? = some (g, o) ∧ x.base = below := by
  induction fuel generalizing m with
  | zero => cases mem
  | succ fuel ih =>
    unfold visited at mem ⊢
    rcases List.mem_cons.1 mem with rfl | later
    · exact .inl frames
    obtain ⟨above, frames⟩ := frames
    rcases received_or_above frames with ⟨o, received, back⟩ | ⟨rest, still⟩
    · exact .inr ⟨m, List.mem_cons_self, o, received, (base_of_received received).trans back⟩
    cases step : m.step with
    | inr outcome =>
      rw [step] at later
      cases later
    | inl next =>
      rw [step] at later
      have waits : ∃ above, next.frames = above ++ g :: below := by
        rcases step_base step with same | ⟨pushed, same⟩
        · exact ⟨rest, same.trans still⟩
        · exact ⟨pushed :: rest, by rw [same, still, List.cons_append]⟩
      refine (ih waits later).imp_right ?_
      rintro ⟨x, mem, found⟩
      exact ⟨x, List.mem_cons_of_mem _ mem, found⟩

/-- What the host answers once the program is in place. -/
structure Served (n : Machine) : Prop where
  renders : n.world.Renders
  unraised : ∀ r, n.raised? = some r → r.recover ≠ .programNotLoaded
  /-- No host call and no link would fail at once for want of a program. -/
  calls : ∀ (call : HostCall) (args : List Value) (n' : Machine) (r : Raised),
    (n.go (.call (.host call) args)).step = .inl n' → n'.raised? = some r → r.recover ≠ .programNotLoaded
  /-- A unit whose entry points have run is appended. -/
  appends : ∀ l state, n.finished? = some (l, state) →
    ∃ n', n.step = .inl n' ∧ n'.world.entries = n.world.entries ++ [(l, state)]
  /-- A unit whose main entry point has returned is published, and its link waits for the renderer until that has ended. -/
  publishes : ∀ l depth results, n.received? = some (.main l depth, .ok results) →
    ∃ n' p report, n.step = .inl n' ∧
      n'.world.Executed n.world.config.abi l n.world.units.length (results.headD .null).word ∧
      n.world.program = some p ∧ p.base.export? n.world.config.abi.reportResult = some (.func report) ∧
      n'.control = .call report [.i32 (results.headD .null).word] ∧
      n'.frames = .report n.world.units.length :: n.base ∧
      ∀ fuel, ∀ y ∈ n'.visited fuel, (∃ above, y.frames = above ++ .report n.world.units.length :: n.base) ∨
        ∃ x ∈ n'.visited fuel, ∃ o, x.received? = some (.report n.world.units.length, o) ∧ x.base = n.base
  /-- A link whose renderer has returned returns. -/
  rendered : ∀ index results, n.received? = some (.report index, .ok results) →
    ∃ n', n.step = .inl n' ∧ n'.control = .give [] ∧ n'.frames = n.base
  /-- A link whose renderer has failed fails with what the renderer failed with. -/
  unrendered : ∀ index r, n.received? = some (.report index, .error r) →
    ∃ n', n.step = .inl n' ∧ n'.control = .raise (.failure r.recover) ∧ n'.frames = n.base

theorem Loaded.served {life : List Machine} (lived : Life life (.running n)) (h : n.Loaded) : n.Served where
  renders := h.renders
  unraised := h.unraised
  calls call args n' r step raised := (step_fails step rfl raised).1.loaded h.renders
  appends l state finished := by
    obtain ⟨p, _, placed, _⟩ := h.renders
    have received := finished
    unfold finished? at received
    obtain ⟨⟨g, o⟩, received, -⟩ := Option.bind_eq_some_iff.1 received
    have step := (step_received received).1
    have entries := step_entries step fun absent => by rw [placed] at absent; cases absent
    rw [finished] at entries
    exact ⟨_, step, entries⟩
  publishes l depth results received := by
    obtain ⟨p, _, placed, _⟩ := h.renders
    obtain ⟨step, frames⟩ := step_received received
    have distinct : l.owner.Distinct := by
      have linked : l ∈ n.linking := by
        rw [linking_of_some frames rfl]
        exact List.mem_cons_self
      exact (invariant_published.holds lived).2 l linked
    obtain ⟨g, pushed⟩ := executed_rendered (m := n.pop) h.renders l depth (results.headD .null).word
    obtain ⟨report, rfl, control, exported, published⟩ := executed_called (m := n.pop) placed distinct pushed
    rw [← base_of_received received] at pushed
    exact ⟨_, p, report, step, published, placed, exported, control, pushed,
      fun fuel y mem => visited_waits ⟨[], pushed⟩ mem⟩
  rendered index results received := ⟨_, (step_received received).1, rfl, (base_of_received received).symm⟩
  unrendered index r received := ⟨_, (step_received received).1, rfl, (base_of_received received).symm⟩

end Machine

end Loaded

/-- The host call that is made next. -/
def Machine.hostCall? (n : Machine) : Option HostCall :=
  match n.control with
  | .call (.host call) _ => some call
  | _ => none

/-- A base whose start function is its initializer, which makes a mark. Its evaluator links a unit and its renderer traps. -/
def Sample.earlyMarkBase : Module :=
  let unit := Text.Utf8.encode innerText
  let base := Module.ofEvaluator [.compileInit, .mark] [.i32 0, .i32 0, .call 1]
    [.i32 1000, .i32 (.ofNat unit.length), .i32 1024, .i32 1, .call 0]
    [{ memory := 0, offset := .i32 1000, bytes := unit }]
  { base with
    start := some 2
    funcs := base.funcs.set 2 { type := reportType, locals := [], body := [.unreachable] } }

/-- While a base joins the store and its start function runs, every host call but a mark fails and a mark records nothing,
and its initializer finds nothing recorded, posted, linked or open and the symbols of the base alone. From then on, in every
state of the initializer and of every later submission, nothing fails for want of a program, the renderer is found, every
unit whose entry points have run is appended, and a link that has published its unit fails only if the renderer does. -/
theorem host_surface_gated {engine : Engine} {base : Module} (valid : base.isValid engine.referenceTypes = true)
    (config : Config) (log : Array Notice) (loading : Nat) :
    (∀ n ∈ Run.starting loading base (.fresh engine config log), n.Gated) ∧
      (∀ e w, (Run.place loading base).run.run (.fresh engine config log) = some (.ok e, w) → ∃ p, w.Opened base p) ∧
      (∀ n ∈ Run.initialization loading base (.fresh engine config log), n.Served) ∧
      ∀ life s, Life life (.idle s) → ∀ fuel text, ∀ n ∈ s.visited fuel text, n.Served := by
  have fresh := World.untouched_fresh engine config log
  refine ⟨fun n mem => (Run.starting_early fresh mem).gated, fun e w placed => Run.place_opened valid fresh rfl placed,
    fun n mem => ?_, fun life s h fuel text n mem => ?_⟩
  · unfold Run.initialization at mem
    split at mem
    · rename_i e w placed
      obtain ⟨life, lived⟩ := (Life.initializing valid placed).of_visited mem
      have loaded := Machine.loaded_call (Run.place_renders placed) e.initializer []
      exact (Machine.visited_kept Machine.step_loaded loaded mem).served lived
    · cases mem
  · obtain ⟨life', lived⟩ := h.of_evaluated mem
    unfold Session.visited at mem
    cases fits : s.evaluation text with
    | error f =>
      rw [fits] at mem
      cases mem
    | ok m =>
      rw [fits] at mem
      obtain ⟨args, control⟩ := Session.evaluation_called fits
      have loaded : m.Loaded := by
        refine ⟨Session.evaluation_renders h.renders fits, fun r raised => ?_⟩
        simp [Machine.raised?, control] at raised
      exact (Machine.visited_kept Machine.step_loaded loaded mem).served lived

/-- One function makes a mark twice, as the start function and as the initializer, and one mark is recorded. After that a
unit is linked. -/
theorem mark_dropped_before_installation : ∃ s n₀ n₁ n₂ l,
    Session.load 100 {} Sample.earlyMarkBase {} = some (.ok s) ∧ s.world.recorded = [.mark "" 0] ∧
      n₀ ∈ Run.starting 100 Sample.earlyMarkBase (.fresh {} {} #[]) ∧ n₀.hostCall? = some .mark ∧ n₀.Gated ∧
      n₁ ∈ Run.initialization 100 Sample.earlyMarkBase (.fresh {} {} #[]) ∧ n₁.hostCall? = some .mark ∧ n₁.Served ∧
      n₂ ∈ s.visited 100 "" ∧ n₂.finished? = some (l, .executed 0) ∧ n₂.Served := by
  have evaluated : ((Session.load 100 {} Sample.earlyMarkBase {}).bind Except.toOption).map (fun s =>
      (s.world.recorded, (s.visited 100 "").any fun n => n.finished?.any (·.2 == .executed 0))) =
      some ([.mark "" 0], true) := by decide +kernel
  have begun : (Run.starting 100 Sample.earlyMarkBase (.fresh {} {} #[])).any (·.hostCall? == some .mark) = true := by
    decide +kernel
  have gone : (Run.initialization 100 Sample.earlyMarkBase (.fresh {} {} #[])).any (·.hostCall? == some .mark) = true := by
    decide +kernel
  have valid : Sample.earlyMarkBase.isValid ({} : Engine).referenceTypes = true := by decide +kernel
  obtain ⟨s, loaded, found⟩ := Option.map_eq_some_iff.1 evaluated
  obtain ⟨e, load, ok⟩ := Option.bind_eq_some_iff.1 loaded
  cases ok_of_toOption ok
  obtain ⟨recorded, linked⟩ := Prod.mk.inj found
  obtain ⟨n₀, early, mark₀⟩ := List.any_eq_true.1 begun
  obtain ⟨n₁, late, mark₁⟩ := List.any_eq_true.1 gone
  obtain ⟨n₂, later, finished⟩ := List.any_eq_true.1 linked
  obtain ⟨⟨l, state⟩, finished, executed⟩ := (Option.any_eq_true _ _).1 finished
  cases eq_of_beq executed
  obtain ⟨gated, -, served, answered⟩ := host_surface_gated valid {} #[] 100
  exact ⟨s, n₀, n₁, n₂, l, load, recorded, early, eq_of_beq mark₀, gated n₀ early, late, eq_of_beq mark₁, served n₁ late,
    later, finished, answered _ s (.loaded valid load) 100 "" n₂ later⟩

end UnitHost
