import UnitHost.Proofs.Isolation

/-!
# What a session reads of its configuration

A session started with a configuration of its own runs on the engine that its replicator was built with. Of the
configuration it reads the limits and the names, and of the new names only those of host calls. `Config.plain` keeps that
much. Loading commutes with `World.seen`, which leaves the plain configuration in place of the given one: `Run.Blind` is
for loading what `Action.Blind` is for actions. From there on `Machine.run_seen` and `Session.reply_seen` take over.
-/

namespace UnitHost

open Wasm

/-- Configurations that set the same limits and the same names. -/
structure Config.Agrees (c c' : Config) : Prop where
  maxMemoryPages : c.maxMemoryPages = c'.maxMemoryPages
  maxTableSize : c.maxTableSize = c'.maxTableSize
  abi : { c.abi with hostCalls := [] } = { c'.abi with hostCalls := [] }
  hostCalls : ∀ call : HostCall, c.abi.hostCalls.lookup call.name = c'.abi.hostCalls.lookup call.name

theorem Config.Agrees.plain_eq {c c' : Config} (agree : c.Agrees c') : c.plain = c'.plain := by
  have names (call : HostCall) : c.abi.hostName call = c'.abi.hostName call := by
    unfold Abi.hostName
    rw [agree.hostCalls call]
  have abi : c.abi.plain = c'.abi.plain := by
    unfold Abi.plain
    simp only [names]
    exact congrArg (fun abi : Abi => { abi with hostCalls := HostCall.all.map fun call : HostCall =>
      (call.name, c'.abi.hostName call) }) agree.abi
  unfold plain
  rw [agree.maxMemoryPages, agree.maxTableSize, abi]

/-! Actions of loading. -/

namespace Action

theorem blind_surface : Blind surface := by
  refine blind_get_bind (fun before w => ?_) fun w => ?_
  · have names : (w.seen before).config.abi = w.config.abi.plain := rfl
    dsimp only
    rw [names]
    simp only [Abi.hostName_plain]
    rfl
  · exact (blind_foldlM (fun _ _ => blind_define _ _ _ _) _ _).bind fun _ => (blind_constant _).bind fun _ =>
      blind_define _ _ _ _

theorem blind_baseExport (owner : Instance) (name : String) (type : FuncType) : Blind (baseExport owner name type) :=
  blind_get_bind (fun _ _ => rfl) fun _ => blind_ofExcept _

theorem blind_throw_bind (f : Failure) (k : α → Action β) : Blind (throw f >>= k) := fun _ _ => rfl

theorem blind_baseExports (owner : Instance) : Blind (baseExports owner) := by
  refine blind_get_bind (fun _ _ => rfl) fun w => ?_
  dsimp only
  split
  · refine (blind_pure _).bind fun memory => ?_
    split
    · exact (blind_pure _).bind fun table => (blind_baseExport _ _ _).bind fun _ => (blind_baseExport _ _ _).bind fun _ =>
        (blind_baseExport _ _ _).bind fun _ => blind_pure _
    · exact blind_throw_bind _ _
  · exact blind_throw_bind _ _

theorem blind_install (surface : Definitions) (owner : Instance) (e : BaseExports) : Blind (install surface owner e) :=
  blind_get_bind (fun _ _ => rfl) fun _ => (blind_define _ _ _ _).bind fun _ => (blind_define _ _ _ _).bind fun _ =>
    (blind_modify fun _ _ => rfl).bind fun _ => blind_modify fun before w => w.publish_seen before owner.symbols

end Action

/-! Loading. -/

namespace Run

/-- Neither times nor entries that were handed out matter for what is run. -/
def Blind (a : Run α) : Prop :=
  ∀ (before : Array Event) (w : World), a.run.run (w.seen before) =
    (a.run.run w).map fun (result, w) => (result, w.seen before)

theorem blind_pure (x : α) : Blind (pure x : Run α) := fun _ _ => rfl

theorem Blind.bind {a : Run α} {f : α → Run β} (ha : Blind a) (hf : ∀ x, Blind (f x)) : Blind (a >>= f) := by
  intro before w
  have opened (w : World) : (a >>= f).run.run w =
    (a.run.run w).bind fun (result, v) => (ExceptT.bindCont f result).run v := rfl
  rw [opened, opened, ha before w]
  rcases a.run.run w with _ | ⟨e | x, v⟩
  · rfl
  · rfl
  · exact hf x before v

theorem blind_ofAction {a : Action α} (h : Action.Blind a) : Blind (ofAction a) :=
  fun before w => congrArg some (h before w)

theorem blind_call (fuel : Nat) (callee : Callee) (args : List Value) (fail : Raised → Failure) :
    Blind (call fuel callee args fail) := by
  intro before w
  have ran : (w.seen before).callFunction fuel callee args =
      (w.callFunction fuel callee args).map fun ended => (ended.1.seen before, ended.2) :=
    Machine.run_seen before { world := w, control := .call callee args } fuel
  have opened (w : World) : (call fuel callee args fail).run.run w =
    (w.callFunction fuel callee args).map fun ended => (ended.2.mapError fail, ended.1) := rfl
  rw [opened, opened, ran, Option.map_map, Option.map_map]
  rfl

theorem blind_modify {g : World → World} (h : ∀ before w, g (w.seen before) = (g w).seen before) :
    Blind (modify g : Run Unit) :=
  fun before w => congrArg (fun v => some (Except.ok (), v)) (h before w)

theorem blind_get_bind {f : World → Run α} (same : ∀ before w, f (w.seen before) = f w) (hf : ∀ w, Blind (f w)) :
    Blind (get >>= f) := by
  intro before w
  have opened (w : World) : (get >>= f : Run α).run.run w = (f w).run.run w := rfl
  rw [opened, opened, same, hf w before w]

theorem blind_instantiate (fuel : Nat) (d : Definitions) (m : Module) : Blind (instantiate fuel d m) := by
  refine (blind_ofAction (Action.blind_instantiate d m)).bind fun owner => ?_
  dsimp only
  split
  · exact (blind_call _ _ _ _).bind fun _ => blind_pure _
  · exact blind_pure _

theorem blind_place (fuel : Nat) (base : Module) : Blind (place fuel base) :=
  (blind_ofAction Action.blind_surface).bind fun _ => (blind_instantiate _ _ _).bind fun owner =>
    (blind_ofAction (Action.blind_baseExports owner)).bind fun e =>
      (blind_ofAction (Action.blind_install _ owner e)).bind fun _ => blind_pure _

theorem blind_load (fuel : Nat) (base : Module) : Blind (load fuel base) := by
  refine (blind_place fuel base).bind fun e => (blind_call _ _ _ _).bind fun _ => ?_
  have ready : Blind (modify fun w => w.note (.ready (w.store.memory e.memory).pages (w.store.table e.table).size)) :=
    blind_modify fun before w => w.note_seen_of_timeless before rfl
  refine blind_get_bind (fun _ _ => rfl) fun w => ?_
  dsimp only
  split
  · exact (blind_modify fun _ _ => rfl).bind fun _ =>
      (blind_modify fun before w => w.note_seen_of_timeless before rfl).bind fun _ => ready.bind fun _ => blind_pure e
  · exact ready.bind fun _ => blind_pure e

end Run

/-! Sessions and their handles. -/

/-- A handle as its owner sees it who has no watch. -/
def Handle.seen (h : Handle) : Handle := { loaded := h.loaded.map (Session.seen #[]) }

/-- Loading reads the plain part of a configuration only. -/
theorem Session.load_plain (fuel : Nat) (engine : Engine) (base : Module) (config : Config) :
    (Session.load fuel engine base config.plain).map Handle.ofLoad =
      (Session.load fuel engine base config).map fun loaded => (Handle.ofLoad loaded).seen := by
  have fresh : ({ engine, config := config.plain } : World) = World.seen #[] { engine, config } := by
    simp [World.seen, Journal.seen, Console.seen]
  have ran := Run.blind_load fuel base #[] { engine, config }
  rw [← fresh] at ran
  unfold Session.load
  rw [ran]
  rcases (Run.load fuel base).run.run { engine, config } with _ | ⟨f | e, w⟩ <;> rfl

/-- The time of a question reaches nothing but the marks. -/
theorem Handle.reply_seen (fuel : Nat) (h : Handle) (question : Question) :
    h.seen.reply fuel question.timeless = (h.reply fuel question).map fun (reply, h) => (reply.timeless, h.seen) := by
  obtain ⟨f | s⟩ := h
  · cases question <;> rfl
  · have seen : Handle.seen { loaded := .ok s } = { loaded := .ok (s.seen #[]) } := rfl
    rw [seen, reply_ok, reply_ok, s.reply_seen]
    cases s.reply fuel question <;> rfl

/-- What the owner of a replicator is told of a session: its number, where it stands at first, why it failed to load, if
it did, and what it replies. -/
structure Told where
  id : Nat
  state : Lifecycle
  loadError : Option Failure
  replies : List Reply

/-- The same without the times of marks. -/
def Told.timeless (told : Told) : Told := { told with replies := told.replies.map Reply.timeless }

namespace Replicator

/-- Starts a session with a configuration of its own and asks it. -/
def spawnAndAsk (fuel : Nat) (r : Replicator) (config : Config) (questions : List Question) : Option Told :=
  (r.spawnWith fuel config).bind fun (id, h, _) => (askEach (Handle.reply fuel) h questions).map fun (replies, _) =>
    { id, state := h.state, loadError := h.loadError?, replies }

theorem spawnAndAsk_eq (fuel : Nat) (r : Replicator) (config : Config) (questions : List Question) :
    r.spawnAndAsk fuel config questions =
      ((Session.load fuel r.engine r.base config).map Handle.ofLoad).bind fun h =>
        (askEach (Handle.reply fuel) h questions).map fun (replies, _) =>
          { id := r.handles.length, state := h.state, loadError := h.loadError?, replies } := by
  unfold spawnAndAsk spawnWith
  rcases Session.load fuel r.engine r.base config with _ | _ | _ <;> rfl

/-- A session started with the plain configuration and asked at no time is told of as any other, times aside. -/
theorem spawnAndAsk_plain (fuel : Nat) (r : Replicator) (config : Config) (questions : List Question) :
    r.spawnAndAsk fuel config.plain (questions.map Question.timeless) =
      (r.spawnAndAsk fuel config questions).map Told.timeless := by
  rw [spawnAndAsk_eq, spawnAndAsk_eq, Session.load_plain]
  rcases Session.load fuel r.engine r.base config with _ | loaded
  · rfl
  have asked := askEach_map (g := Handle.seen) (Handle.reply_seen fuel) (Handle.ofLoad loaded) questions
  have state : (Handle.ofLoad loaded).seen.state = (Handle.ofLoad loaded).state := by cases loaded <;> rfl
  have loadError : (Handle.ofLoad loaded).seen.loadError? = (Handle.ofLoad loaded).loadError? := by cases loaded <;> rfl
  dsimp only [Option.map_some, Option.bind_some]
  rw [asked, state, loadError]
  cases askEach (Handle.reply fuel) (Handle.ofLoad loaded) questions <;> rfl

end Replicator

/-- A unit that needs reference types. -/
def Sample.referringText : String :=
  "(func(export \"static_init\")(export \"main\")(result i32)ref.null func drop i32.const 0)"

/-- A base whose evaluator makes a mark, named by the first character of the text, and links the text as a unit. -/
def Sample.linkingReplicator : Replicator where
  engine := {}
  base := .ofEvaluator [.mark, .compileInit] []
    [.i32 0, .i32 1, .call 0, .localGet 0, .localGet 1, .i32 1024, .i32 1, .call 1]
  config := {}

/-- A configuration that no engine can be built with, and that gives a new name to what is no host call. -/
def Sample.featureless : Config where
  enableSimd := false
  enableReferenceTypes := false
  enableBulkMemory := false
  stackSize := 0
  abi := { hostCalls := [("grow", "enlarge")] }

/-- Of two configurations with the same limits and the same names, whatever they say of the features and the stack of the
engine, and whatever new names they give to anything but host calls, a replicator starts sessions that cannot be told
apart: both end or neither does, both load or both fail for the same reason, and asked the same questions at any times
they reply the same, the times of marks aside. -/
theorem engine_settings_ignored (fuel : Nat) (r : Replicator) {config config' : Config} (agree : config.Agrees config')
    {questions questions' : List Question} (same : questions.map Question.timeless = questions'.map Question.timeless) :
    (r.spawnAndAsk fuel config questions).map Told.timeless = (r.spawnAndAsk fuel config' questions').map Told.timeless := by
  rw [← r.spawnAndAsk_plain, ← r.spawnAndAsk_plain, agree.plain_eq, same]

/-- With every feature off and no stack, a session still links a unit that needs reference types. -/
theorem unit_linked_without_features : ∃ told told',
    (Engine.build Sample.featureless).toOption = none ∧
    Sample.linkingReplicator.spawnAndAsk 100 Sample.featureless [.submit 3 Sample.referringText, .drainConsole] = some told ∧
    Sample.linkingReplicator.spawnAndAsk 100 {} [.submit 8 Sample.referringText, .drainConsole] = some told' ∧
    told.loadError = none ∧ told.replies.flatMap Reply.drained = [.mark "(" 3, .opened 0 "unit 0 static_init", .closed 0,
      .opened 0 "unit 0 main", .closed 0] ∧ told.timeless = told'.timeless := by
  have evaluated : (Sample.linkingReplicator.spawnAndAsk 100 Sample.featureless
      [.submit 3 Sample.referringText, .drainConsole]).map (fun told => (told.loadError, told.replies.flatMap Reply.drained)) =
      some (none, [.mark "(" 3, .opened 0 "unit 0 static_init", .closed 0, .opened 0 "unit 0 main", .closed 0]) := by
    decide +kernel
  obtain ⟨told, asked, found⟩ := Option.map_eq_some_iff.1 evaluated
  obtain ⟨loadError, drained⟩ := Prod.mk.inj found
  have agree : Sample.featureless.Agrees {} := ⟨rfl, rfl, rfl, fun call => by cases call <;> rfl⟩
  have same : [Question.submit 3 Sample.referringText, .drainConsole].map Question.timeless =
    [Question.submit 8 Sample.referringText, .drainConsole].map Question.timeless := rfl
  have ignored := engine_settings_ignored 100 Sample.linkingReplicator agree same
  rw [asked] at ignored
  obtain ⟨told', asked', timeless⟩ := Option.map_eq_some_iff.1 ignored.symm
  exact ⟨told, told', rfl, asked, asked', loadError, drained, timeless.symm⟩

end UnitHost
