import UnitHost.Proofs.ConsoleSteps
import UnitHost.Proofs.Growth

/-!
# The way of a failure

An evaluation that fails does so in one operation: an instruction or a call traps, a host call fails, or a link fails by
itself. `Machine.Fails` lists these. From there the failure is passed outwards from frame to frame and no code runs any
more:

* `step_fails` says that a failure begins in one of these operations;
* `abandon_raised` says what a frame makes of it: a start function's link puts its own words in place of the failure,
  every other frame passes it on;
* `Journey` follows it from one to the other.

So unless it leaves a start function, what is reported in the end is what the operation failed with.
-/

namespace UnitHost

open Wasm

/-! What operations fail with. -/

namespace Action

/-- Whatever an action fails with has a property. -/
def Throws (P : Failure → Prop) (a : Action α) : Prop := ∀ w f, (a.run.run w).1 = .error f → P f

variable {P : Failure → Prop}

theorem throws_pure (x : α) : Throws P (pure x : Action α) := fun _ _ => nofun

theorem throws_get : Throws P (get : Action World) := fun _ _ => nofun

theorem throws_modify (g : World → World) : Throws P (modify g : Action Unit) := fun _ _ => nofun

theorem throws_throw {f : Failure} (h : P f) : Throws P (throw f : Action α) := by
  intro w f' failed
  cases failed
  exact h

theorem throws_ofExcept {r : Except Failure α} (h : ∀ f, r = .error f → P f) : Throws P (ofExcept r) := by
  intro w f failed
  rw [run_ofExcept] at failed
  exact h f failed

theorem Throws.bind {a : Action α} {k : α → Action β} (ha : Throws P a) (hk : ∀ x, Throws P (k x)) :
    Throws P (a >>= k) := by
  intro w f failed
  have first := ha w
  rw [run_bind] at failed
  rcases run : a.run.run w with ⟨f' | x, v⟩
  · rw [run] at failed first
    cases failed
    exact first _ rfl
  · rw [run] at failed
    exact hk x v f failed

theorem throws_forM {k : α → Action Unit} (hk : ∀ x, Throws P (k x)) (xs : List α) : Throws P (xs.forM k) := by
  induction xs with
  | nil => exact throws_pure ()
  | cons x xs ih => exact (hk x).bind fun _ => ih

theorem throws_foldlM {k : β → α → Action β} (hk : ∀ b x, Throws P (k b x)) (b : β) (xs : List α) :
    Throws P (xs.foldlM k b) := by
  induction xs generalizing b with
  | nil => exact throws_pure b
  | cons x xs ih => exact (hk b x).bind fun b => ih b

end Action

/-- A failure is not that of a static initializer. -/
def Failure.Other (f : Failure) : Prop := ∀ unit code, f ≠ .staticInit unit code

/-- A failure of the checks that a link makes before any code of its unit runs. -/
def Failure.Checked : Failure → Prop
  | .outOfBounds .. | .instantiation _ | .offsetRegression .. | .resourceLimit _ => True
  | _ => False

section Other

variable {f : Failure}

theorem Failure.Checked.other (h : f.Checked) : f.Other := by
  rintro unit code rfl
  exact h

theorem checked_readBytes {m : Memory} {address count : Nat} (h : m.readBytes address count = .error f) : f.Checked := by
  unfold Memory.readBytes at h
  split at h <;> cases h
  trivial

theorem checked_decoded {w : World} {p : Program} {address count : UInt32} (placed : w.program = some p)
    (h : w.decoded address count = .error f) : f.Checked := by
  unfold World.decoded Memory.readText at h
  rw [placed] at h
  dsimp only at h
  cases bytes : (w.memory p).readBytes address.toNat count.toNat with
  | ok found => rw [bytes] at h; cases h
  | error f' =>
    rw [bytes] at h
    cases h
    exact checked_readBytes bytes

theorem other_decoded {w : World} {address count : UInt32} (h : w.decoded address count = .error f) : f.Other := by
  cases placed : w.program with
  | some p => exact (checked_decoded placed h).other
  | none =>
    unfold World.decoded at h
    rw [placed] at h
    cases h
    nofun

theorem checked_checkBases {r : LinkRequest} {previous : Nat × Nat} (h : r.checkBases previous = .error f) :
    f.Checked := by
  unfold LinkRequest.checkBases checkBase at h
  by_cases memory : 0 ≤ r.memoryBase.toInt ∧ previous.1 ≤ r.memoryBase.toInt.toNat
  · rw [if_pos memory] at h
    by_cases table : 0 ≤ r.tableBase.toInt ∧ previous.2 ≤ r.tableBase.toInt.toNat
    · rw [if_pos table] at h
      cases h
    · rw [if_neg table] at h
      cases h
      trivial
  · rw [if_neg memory] at h
    cases h
    trivial

theorem missing_of_typedExport {s : Store} {owner : Instance} {name : String} {type : FuncType}
    (h : typedExport s owner name type = .error f) : ∃ fault, f = .missingExport name fault := by
  unfold typedExport at h
  dsimp only at h
  repeat' split at h
  all_goals cases h
  all_goals exact ⟨_, rfl⟩

end Other

namespace Action

open Failure (Other Checked)

/-- A host call by itself fails for want of a group, as it was told to, or for its range. -/
theorem hostCall_fails {w : World} {f : Failure} {call : HostCall} {address count : UInt32}
    (failed : ((hostCall call address count).run.run w).1 = .error f) :
    f = .unbalancedGroup ∨ (∃ text, f = .fatal text) ∨ w.decoded address count = .error f := by
  cases reads : call.reads with
  | false =>
    cases call with
    | groupEnd =>
      unfold hostCall at failed
      rw [run_groupEnd, Journal.closeGroup, Console.closeGroup] at failed
      cases depth : w.journal.console.depth with
      | zero =>
        rw [depth] at failed
        cases failed
        exact .inl rfl
      | succ inner =>
        rw [depth] at failed
        cases failed
    | compileInit => cases failed
    | log | warn | error | panicError | group | mark | postOutput | postError => cases reads
  | true =>
    rw [run_hostCall reads] at failed
    cases read : w.decoded address count with
    | ok text =>
      rw [read] at failed
      cases call <;> cases failed
      exact .inr (.inl ⟨text, rfl⟩)
    | error range =>
      rw [read] at failed
      cases call <;> cases failed <;> exact .inr (.inr rfl)

/-- A host call by itself runs no static initializer. -/
theorem throws_hostCall (call : HostCall) (address count : UInt32) : Throws Other (hostCall call address count) := by
  intro w f failed
  rcases hostCall_fails failed with rfl | ⟨text, rfl⟩ | range
  · nofun
  · nofun
  · exact other_decoded range

theorem throws_growForImport (p : Program) (i : Import) : Throws Checked (growForImport p i) := by
  intro w f failed
  rw [run_growForImport] at failed
  cases grown : growFor w.config.abi w.config i (w.memory p) (w.table p) with
  | ok larger => rw [grown] at failed; cases failed
  | error fault => rw [grown] at failed; cases failed; trivial

theorem throws_define (d : Definitions) (module name : String) (object : Extern) :
    Throws Checked (define d module name object) := by
  unfold define
  split
  · exact throws_pure _
  · exact throws_throw trivial

theorem throws_constant (n : Nat) : Throws Checked (constant n) :=
  throws_get.bind fun _ => (throws_modify _).bind fun _ => throws_pure _

theorem throws_importObject (p : Program) (memoryBase tableBase : Nat) :
    Throws Checked (importObject p memoryBase tableBase) :=
  throws_get.bind fun _ => (throws_constant _).bind fun _ => (throws_constant _).bind fun _ =>
    (throws_define _ _ _ _).bind fun _ => (throws_define _ _ _ _).bind fun _ =>
      throws_foldlM (fun _ _ => throws_define _ _ _ _) _ _

theorem throws_instantiate (d : Definitions) (m : Module) : Throws Checked (instantiate d m) := by
  refine throws_get.bind fun w => ?_
  dsimp only
  refine (throws_modify _).bind fun _ => ?_
  split
  · exact throws_pure _
  · exact throws_throw trivial

theorem throws_compile (bytes : List UInt8) : Throws Checked (compile bytes) := by
  refine throws_get.bind fun w => ?_
  split
  · exact throws_pure _
  · exact throws_throw trivial

/-- Without a program a link fails at once. -/
theorem run_prepare_of_none {w : World} (absent : w.program = none) (r : LinkRequest) :
    (prepare r).run.run w = (.error .programNotLoaded, w) := by
  have missing : program.run.run w = (.error .programNotLoaded, w) := by rw [run_program, absent]
  unfold prepare
  rw [run_bind, missing]

/-- A link up to its unit's own code fails with one of its checks, once there is a program. -/
theorem prepare_checked {r : LinkRequest} {w : World} {p : Program} {f : Failure} (placed : w.program = some p)
    (failed : ((prepare r).run.run w).1 = .error f) : f.Checked := by
  have found : program.run.run w = (.ok p, w) := by rw [run_program, placed]
  unfold prepare at failed
  rw [run_bind, found] at failed
  dsimp only at failed
  refine (?_ : Throws Checked _) w f failed
  exact throws_get.bind fun _ => (throws_ofExcept fun _ => checked_readBytes).bind fun _ =>
    (throws_compile _).bind fun _ => (throws_ofExcept fun _ => checked_checkBases).bind fun _ =>
      (throws_forM (throws_growForImport _) _).bind fun _ => (throws_importObject _ _ _).bind fun _ =>
        (throws_instantiate _ _).bind fun _ => throws_pure _

/-- A link up to its unit's own code runs no static initializer. -/
theorem throws_prepare (r : LinkRequest) : Throws Other (prepare r) := by
  intro w f failed
  cases placed : w.program with
  | some p => exact (prepare_checked placed failed).other
  | none =>
    rw [run_prepare_of_none placed] at failed
    cases failed
    nofun

end Action

/-! Where a failure begins. -/

/-- Why a unit whose start function is done cannot be entered. -/
def Linking.entryFault? (l : Linking) (w : World) : Option Failure :=
  match typedExport w.store l.owner w.config.abi.staticInit entryType with
  | .error f => some f
  | .ok _ =>
    match typedExport w.store l.owner w.config.abi.main entryType with
    | .error f => some f
    | .ok _ => none

/-- Why the base cannot render a result. -/
def World.rendererFault? (w : World) : Option Failure :=
  match w.program with
  | none => some .programNotLoaded
  | some p =>
    match typedExport w.store p.base w.config.abi.reportResult reportType with
    | .error f => some f
    | .ok _ => none

theorem missing_of_entryFault {l : Linking} {w : World} {f : Failure} (h : l.entryFault? w = some f) :
    ∃ name fault, f = .missingExport name fault := by
  unfold Linking.entryFault? at h
  repeat' split at h
  · cases h
    exact ⟨_, missing_of_typedExport ‹_›⟩
  · cases h
    exact ⟨_, missing_of_typedExport ‹_›⟩
  · cases h

theorem other_entryFault {l : Linking} {w : World} {f : Failure} (h : l.entryFault? w = some f) : f.Other := by
  obtain ⟨name, fault, rfl⟩ := missing_of_entryFault h
  nofun

theorem other_rendererFault {w : World} {f : Failure} (h : w.rendererFault? = some f) : f.Other := by
  unfold World.rendererFault? at h
  repeat' split at h
  · cases h
    nofun
  · cases h
    obtain ⟨fault, rfl⟩ := missing_of_typedExport ‹_›
    nofun
  · cases h

theorem World.rendererFault?_congr {w w' : World} (store : w'.store = w.store) (config : w'.config = w.config)
    (base : w'.program.map (·.base) = w.program.map (·.base)) : w'.rendererFault? = w.rendererFault? := by
  unfold rendererFault?
  rw [store, config]
  cases hp : w.program with
  | none =>
    rw [hp] at base
    rw [Option.map_eq_none_iff.1 base]
  | some p =>
    rw [hp] at base
    obtain ⟨p', hp', same⟩ := Option.map_eq_some_iff.1 base
    rw [hp']
    dsimp only at same ⊢
    rw [same]

namespace Machine

/-- What is on its way out. -/
def raised? (m : Machine) : Option Raised :=
  match m.control with
  | .raise r => some r
  | _ => none

/-- The next step is an operation that fails, and what with. -/
inductive Fails (m : Machine) : Failure → Prop where
  /-- Code traps. -/
  | trap (t : Trap) (step : m.step = .inl (m.trap t)) : Fails m (.execution (.trap t))
  /-- A host call other than one that links fails. -/
  | hostCall (call : HostCall) (args : List Value) (f : Failure) (control : m.control = .call (.host call) args)
      (unlinked : m.link? = none)
      (failed : ((Action.hostCall call (args.getD 0 .null).word (args.getD 1 .null).word).run.run m.world).1 =
        .error f) : Fails m f
  /-- A link fails before any code of its unit runs. -/
  | prepare (r : LinkRequest) (f : Failure) (link : m.link? = some r)
      (failed : ((Action.prepare r).run.run m.world).1 = .error f) : Fails m f
  /-- A unit without a start function lacks an entry point. -/
  | entry (r : LinkRequest) (l : Linking) (w : World) (f : Failure) (link : m.link? = some r)
      (prepared : (Action.prepare r).run.run m.world = (.ok l, w))
      (unstarted : l.module.start.bind (l.owner.funcs[·]?) = none) (absent : l.entryFault? w = some f) : Fails m f
  /-- A unit whose start function has returned lacks an entry point. -/
  | startedEntry (l : Linking) (results : List Value) (f : Failure) (received : m.received? = some (.start l, .ok results))
      (absent : l.entryFault? m.world = some f) : Fails m f
  /-- A static initializer returns something other than zero. The unit that it leaves behind is the next one. -/
  | staticInit (l : Linking) (main : Callee) (next depth : Nat) (results : List Value)
      (received : m.received? = some (.staticInit l main next depth, .ok results))
      (refused : signed (results.headD .null).word ≠ 0) :
      Fails m (.staticInit m.world.units.length (signed (results.headD .null).word))
  /-- A main entry point returns and the base cannot render its result. -/
  | renderer (l : Linking) (depth : Nat) (results : List Value) (f : Failure)
      (received : m.received? = some (.main l depth, .ok results)) (absent : m.world.rendererFault? = some f) : Fails m f

variable {m m' : Machine} {r : Raised} {f : Failure} {l : Linking}

theorem raised?_eq_some (h : m.raised? = some r) : m.control = .raise r := by
  unfold raised? at h
  split at h
  · rename_i hc
    cases h
    exact hc
  · cases h

theorem raised?_branch (m : Machine) (a : Activation) (label : Nat) : (m.branch a label).raised? = none := by
  unfold branch
  split <;> rfl

theorem raised?_fallOff (m : Machine) (a : Activation) : (m.fallOff a).raised? = none := by
  unfold fallOff
  split <;> rfl

/-- All that an instruction raises is a trap, which leaves everything else as it is. -/
theorem exec_cases (m : Machine) (a : Activation) (instr : Instr) :
    (m.exec a instr).raised? = none ∨ ∃ t, m.exec a instr = m.trap t := by
  unfold exec
  dsimp only
  repeat' split
  all_goals first
    | exact .inl rfl
    | exact .inl (raised?_branch m _ _)
    | exact .inr ⟨_, rfl⟩

theorem enterUnit_raised (h : (m.enterUnit l).raised? = some r) :
    l.entryFault? m.world = some r.recover ∧ (m.enterUnit l).frames = m.frames := by
  revert h
  unfold enterUnit Linking.entryFault?
  dsimp only
  cases typedExport m.world.store l.owner m.world.config.abi.staticInit entryType with
  | error f =>
    intro h
    cases h
    exact ⟨rfl, rfl⟩
  | ok initializer =>
    cases typedExport m.world.store l.owner m.world.config.abi.main entryType with
    | error f =>
      intro h
      cases h
      exact ⟨rfl, rfl⟩
    | ok main =>
      intro h
      cases h

theorem link_raised {request : LinkRequest} (link : m.link? = some request) (h : (m.link request).raised? = some r) :
    m.Fails r.recover ∧ (m.link request).frames = m.frames := by
  revert h
  unfold Machine.link
  rcases run : (Action.prepare request).run.run m.world with ⟨f | l, w⟩
  · intro h
    cases h
    exact ⟨.prepare request f link (by rw [run]), rfl⟩
  · dsimp only
    cases start : l.module.start.bind (l.owner.funcs[·]?) with
    | some callee =>
      intro h
      cases h
    | none =>
      intro h
      obtain ⟨absent, frames⟩ := enterUnit_raised h
      exact ⟨.entry request l w _ link run start absent, frames⟩

theorem call_raised {callee : Callee} {args : List Value} (hc : m.control = .call callee args)
    (h : (m.call callee args).raised? = some r) : m.Fails r.recover ∧ (m.call callee args).frames = m.frames := by
  have step := step_call hc
  revert h step
  unfold call
  split
  · repeat' split
    all_goals intro h step
    all_goals cases h
    all_goals exact ⟨.trap _ step, rfl⟩
  · intro h step
    exact link_raised (by rw [link?, hc]) h
  · rename_i call other
    have unlinked : m.link? = none := by
      unfold link?
      split
      · rename_i link
        rw [hc] at link
        cases link
        exact absurd rfl (other _ _ _ _ rfl)
      · rfl
    split
    · intro h
      cases h
    · rename_i failed
      intro h step
      cases h
      exact ⟨.hostCall call args _ hc unlinked (congrArg Prod.fst failed), rfl⟩

theorem executed_raised {depth : Nat} {value : UInt32} (h : (m.executed l depth value).raised? = some r) :
    m.world.rendererFault? = some r.recover ∧ (m.executed l depth value).frames = m.frames := by
  revert h
  have bound := (World.kept_publish (m.closePhase depth).world l.owner.symbols).append l (.executed (signed value))
  have store := World.store_publish (m.closePhase depth).world l.owner.symbols
  unfold executed
  dsimp only
  generalize linked : ((m.closePhase depth).world.publish l.owner.symbols).append l (.executed (signed value)) = appended
  rw [linked] at bound
  obtain ⟨index, w⟩ := appended
  have same : w.rendererFault? = m.world.rendererFault? := by
    refine World.rendererFault?_congr ?_ bound.config ?_
    · rw [← (Prod.mk.inj linked).2]
      exact store
    · rw [bound.program]
      cases hp : m.world.program <;> simp [closePhase, World.append, World.updateProgram, Program.append, hp]
  rw [← same]
  unfold World.rendererFault? World.note
  dsimp only
  cases w.program with
  | none =>
    intro h
    cases h
    exact ⟨rfl, rfl⟩
  | some p =>
    dsimp only
    cases typedExport w.store p.base w.config.abi.reportResult reportType with
    | error f =>
      intro h
      cases h
      exact ⟨rfl, rfl⟩
    | ok report =>
      intro h
      cases h

theorem resume_raised {frame : Frame} {results : List Value} (received : m.received? = some (frame, .ok results))
    (h : (m.pop.resume frame results).raised? = some r) :
    m.Fails r.recover ∧ (m.pop.resume frame results).frames = m.pop.frames := by
  cases frame with
  | caller a => cases h
  | report index => cases h
  | start l =>
    obtain ⟨absent, frames⟩ := enterUnit_raised h
    exact ⟨.startedEntry l results _ received absent, frames⟩
  | staticInit l main next depth =>
    revert h
    unfold resume initialized
    dsimp only
    split
    · intro h
      cases h
    · rename_i refused
      intro h
      cases h
      exact ⟨.staticInit l main next depth results received refused, rfl⟩
  | main l depth =>
    obtain ⟨absent, frames⟩ := executed_raised h
    exact ⟨.renderer l depth results _ received absent, frames⟩

/-- A failure begins in an operation that fails, and leaves the stack below it as it is. -/
theorem step_fails (h : m.step = .inl m') (calm : m.raised? = none) (raised : m'.raised? = some r) :
    m.Fails r.recover ∧ m'.frames = m.base := by
  have step := h
  cases hc : m.control with
  | run a =>
    have unreceived : m.received? = none := by simp [received?, hc]
    rw [base_of_unreceived unreceived]
    cases code : a.code with
    | nil =>
      simp only [Machine.step, hc, code] at h
      cases h
      rw [raised?_fallOff] at raised
      cases raised
    | cons instr rest =>
      simp only [Machine.step, hc, code] at h
      cases h
      rcases exec_cases m { a with code := rest } instr with quiet | ⟨t, trapped⟩
      · rw [quiet] at raised
        cases raised
      · rw [trapped] at step raised ⊢
        cases raised
        exact ⟨.trap t step, rfl⟩
  | call callee args =>
    have unreceived : m.received? = none := by simp [received?, hc]
    rw [step_call hc] at h
    cases h
    rw [base_of_unreceived unreceived]
    exact call_raised hc raised
  | give results =>
    cases hf : m.frames with
    | nil => simp [Machine.step, hc, hf] at h
    | cons frame frames =>
      have received : m.received? = some (frame, .ok results) := by simp [received?, hc, hf]
      rw [step_give hc hf] at h
      cases h
      rw [base_of_received received]
      exact resume_raised received raised
  | raise r => simp [raised?, hc] at calm

/-- A frame passes on what it receives, unless it waits for a start function, and runs no code. -/
theorem abandon_raised (m : Machine) (frame : Frame) (r : Raised) :
    ∃ r', (m.abandon frame r).raised? = some r' ∧ (m.abandon frame r).frames = m.frames ∧
      r'.recover = if frame.isStart then .instantiation (.raised r.text) else r.recover := by
  obtain ⟨r', control, frames, recovered, -⟩ := abandon_raises m frame r
  exact ⟨r', by rw [raised?, control], frames, recovered⟩

end Machine

/-! What a static initializer leaves behind. -/

/-- If a failure is that of a static initializer, it names a unit that failed and a code other than zero. -/
def Failure.Leaves (f : Failure) (w : World) : Prop :=
  ∀ i code, f = .staticInit i code → code ≠ 0 ∧ ∃ u, w.units[i]? = some u ∧ u.state = .failed

theorem Failure.Other.leaves {f : Failure} (h : f.Other) (w : World) : f.Leaves w :=
  fun i code named => absurd named (h i code)

theorem Failure.Leaves.mono {f : Failure} {w w' : World} (h : f.Leaves w) (later : w.units <+: w'.units) :
    f.Leaves w' := by
  intro i code named
  obtain ⟨refused, u, found, failed⟩ := h i code named
  exact ⟨refused, u, World.unit_of_prefix later found, failed⟩

namespace Machine

variable {m m' : Machine} {f : Failure}

theorem Fails.leaves (h : m.Fails f) (step : m.step = .inl m') (placed : m.world.program = none → m.linking = []) :
    f.Leaves m'.world := by
  cases h with
  | trap t =>
    intro i code named
    cases named
  | hostCall call args f control unlinked failed => exact (Action.throws_hostCall _ _ _ _ _ failed).leaves _
  | prepare r f link failed => exact (Action.throws_prepare r _ _ failed).leaves _
  | entry r l w f link prepared unstarted absent => exact (other_entryFault absent).leaves _
  | startedEntry l results f received absent => exact (other_entryFault absent).leaves _
  | renderer l depth results f received absent => exact (other_rendererFault absent).leaves _
  | staticInit l main next depth results received refused =>
    intro i code named
    cases named
    have finished : m.finished? = some (l, .failed) := by
      simp only [finished?, received, Option.bind_some, Frame.finished?, if_neg refused]
    have entries := step_entries step placed
    rw [finished] at entries
    have length : m.world.units.length = m.world.entries.length := (List.length_map _).symm
    have last : m'.world.entries[m.world.units.length]? = some (l, .failed) := by
      rw [entries, length]
      exact List.getElem?_concat_length
    rw [World.entries, List.getElem?_map] at last
    obtain ⟨u, found, state⟩ := Option.map_eq_some_iff.1 last
    exact ⟨refused, u, found, (Prod.mk.inj state).2⟩

/-- No failure has begun, or one has: where, and what is known of it since. -/
inductive Journey (m : Machine) : List Machine → Prop where
  | calm (past : List Machine) (quiet : m.raised? = none) (before : ∀ n ∈ past, n.raised? = none) : Journey m past
  | passing (before : List Machine) (x : Machine) (after : List Machine) (r : Raised) (f : Failure)
      (raised : m.raised? = some r) (quiet : ∀ n ∈ before ++ [x], n.raised? = none)
      (raising : ∀ n ∈ after, n.raised?.isSome = true) (fails : x.Fails f) (outer : m.frames <:+ x.base)
      (same : (∀ g ∈ x.base, g.isStart = false) → r.recover = f) (leaves : r.recover.Leaves m.world) :
      Journey m (before ++ x :: after)

theorem Journey.step {past : List Machine} (h : m.Journey past) (step : m.step = .inl m')
    (placed : m.world.program = none → m.linking = []) : m'.Journey (past ++ [m]) := by
  cases h with
  | calm _ quiet before =>
    have none : ∀ n ∈ past ++ [m], n.raised? = none := by
      intro n mem
      rcases List.mem_append.1 mem with earlier | here
      · exact before n earlier
      · rw [List.mem_singleton.1 here]
        exact quiet
    cases raised : m'.raised? with
    | none => exact .calm _ raised none
    | some r =>
      obtain ⟨fails, frames⟩ := step_fails step quiet raised
      exact .passing past m [] r r.recover raised none (List.forall_mem_nil _) fails (frames ▸ List.suffix_rfl) (fun _ => rfl)
        (fails.leaves step placed)
  | passing before x after r f raised quiet raising fails outer same leaves =>
    have control := raised?_eq_some raised
    cases frames : m.frames with
    | nil => simp [Machine.step, control, frames] at step
    | cons g rest =>
      have units := step_units step
      rw [step_raise control frames] at step
      cases step
      obtain ⟨r', passed, kept, recovered⟩ := abandon_raised m.pop g r
      rw [frames] at outer
      have past : before ++ x :: after ++ [m] = before ++ x :: (after ++ [m]) := by simp
      rw [past]
      refine .passing before x (after ++ [m]) r' f passed quiet ?_ fails ?_ ?_ ?_
      · intro n mem
        rcases List.mem_append.1 mem with earlier | here
        · exact raising n earlier
        · rw [List.mem_singleton.1 here, raised]
          rfl
      · rw [kept, pop, frames]
        exact (List.suffix_cons g rest).trans outer
      · intro unstarted
        rw [recovered, unstarted g (outer.mem (List.mem_cons_self ..)), if_neg Bool.false_ne_true]
        exact same unstarted
      · rw [recovered]
        cases g.isStart with
        | true =>
          intro i code named
          cases named
        | false => exact leaves.mono units

end Machine

theorem Machine.base_sublist (m : Machine) : m.base.Sublist m.frames := by
  unfold base
  split
  · exact List.tail_sublist _
  · exact List.Sublist.refl _

theorem Machine.raised?_of_ended {m : Machine} {r : Raised} (h : m.step = .inr (.error r)) : m.raised? = some r := by
  have outermost := frames_of_ended h
  cases hc : m.control with
  | run a => simp only [step, hc] at h; split at h <;> cases h
  | call callee args => rw [step_call hc] at h; cases h
  | give results => simp [step, hc, outermost] at h
  | raise r' =>
    simp only [step, hc, outermost] at h
    cases h
    simp [raised?, hc]

/-- An evaluation that fails has one operation that fails, before which no failure is on its way and after which only
that one is. Unless a start function is running then, what is reported is what the operation failed with, whatever
calls and links it is passed through. A failure of a static initializer names a unit that failed and a code other than
zero. -/
theorem failures_reported_unchanged {life : List Machine} {s : Session} {text : String} {m : Machine} {fuel : Nat}
    {w : World} {raised : Raised} (h : Life life (.idle s)) (begun : s.evaluation text = .ok m)
    (failed : m.run fuel = some (w, .error raised)) :
    (∃ before x after f, m.visited fuel = before ++ x :: after ∧ (∀ n ∈ before ++ [x], n.raised? = none) ∧
      (∀ n ∈ after, n.raised?.isSome = true) ∧ x.Fails f ∧
      ((∀ g ∈ x.base, g.isStart = false) → raised.recover = f)) ∧
    ∀ i code, raised.recover = .staticInit i code → code ≠ 0 ∧ ∃ u, w.units[i]? = some u ∧ u.state = .failed := by
  have running := h.evaluating begun
  obtain ⟨args, control⟩ := Session.evaluation_called begun
  have initially : m.Journey [] := .calm [] (by rw [Machine.raised?, control]) (List.forall_mem_nil _)
  obtain ⟨left, last, trace, ⟨-, journey⟩, ended, rfl⟩ :=
    Machine.run_invariant (I := fun past n => (∃ life, Life life (.running n)) ∧ n.Journey past)
      (fun ⟨⟨_, lived⟩, journey⟩ step =>
        ⟨⟨_, lived.step step⟩, journey.step step (invariant_entries.holds lived).2⟩)
      failed ⟨⟨_, running⟩, initially⟩
  have out := Machine.raised?_of_ended ended
  cases journey with
  | calm _ quiet before =>
    rw [quiet] at out
    cases out
  | passing before x after r f raised quiet raising fails outer same leaves =>
    cases raised.symm.trans out
    refine ⟨⟨before, x, after ++ [last], f, by simp [trace], quiet, ?_, fails, same⟩, leaves⟩
    intro n mem
    rcases List.mem_append.1 mem with earlier | here
    · exact raising n earlier
    · rw [List.mem_singleton.1 here, out]
      rfl

/-- The evaluation of a text that fails: where it begins, the world it leaves and what it fails with. -/
def Session.failed? (fuel : Nat) (s : Session) (text : String) : Option (Machine × World × Raised) := do
  let m ← (s.evaluation text).toOption
  match ← m.run fuel with
  | (w, .error raised) => some (m, w, raised)
  | (_, .ok _) => none

theorem Session.failed?_eq_some {fuel : Nat} {s : Session} {text : String} {m : Machine} {w : World} {raised : Raised}
    (h : s.failed? fuel text = some (m, w, raised)) :
    s.evaluation text = .ok m ∧ m.run fuel = some (w, .error raised) := by
  obtain ⟨m', begun, h⟩ := Option.bind_eq_some_iff.1 h
  obtain ⟨⟨w', outcome⟩, run, h⟩ := Option.bind_eq_some_iff.1 h
  cases outcome with
  | ok results => cases h
  | error raised' =>
    cases h
    exact ⟨ok_of_toOption begun, run⟩

/-- A unit whose static initializer returns seven. -/
def Sample.refusingText : String := "(func(export \"static_init\")(export \"main\")(result i32)i32.const 7)"

/-- A static initializer returns seven in a link that another unit's main entry point makes. The failure leaves both
links as it is: it names the inner unit, and no start function was running. -/
theorem inner_initializer_reported : ∃ life s m w raised before x after f, Life life (.idle s) ∧
    s.evaluation "" = .ok m ∧ m.run 100 = some (w, .error raised) ∧ raised.recover = .staticInit 0 7 ∧
    w.units.map (·.state) = [.failed, .initialized] ∧ m.visited 100 = before ++ x :: after ∧ x.Fails f ∧
    (∀ g ∈ x.base, g.isStart = false) ∧ f = .staticInit 0 7 ∧
    ∃ u, w.units[0]? = some u ∧ u.state = .failed := by
  have evaluated : (Session.after 100 (Sample.nesting Sample.refusingText) []).bind (fun s =>
      (s.failed? 100 "").map fun (m, w, raised) => (raised.recover, w.units.map (·.state),
        (m.visited 100).all fun n => n.frames.all fun g => !g.isStart)) =
      some (.staticInit 0 7, [.failed, .initialized], true) := by decide +kernel
  obtain ⟨s, started, found⟩ := Option.bind_eq_some_iff.1 evaluated
  obtain ⟨⟨m, w, raised⟩, failed, found⟩ := Option.map_eq_some_iff.1 found
  obtain ⟨recovered, found⟩ := Prod.mk.inj found
  obtain ⟨states, unstarted⟩ := Prod.mk.inj found
  obtain ⟨begun, run⟩ := Session.failed?_eq_some failed
  obtain ⟨life, h⟩ := Life.after (by decide +kernel) started
  obtain ⟨⟨before, x, after, f, trace, -, -, fails, same⟩, leaves⟩ := failures_reported_unchanged h begun run
  have below : ∀ g ∈ x.base, g.isStart = false := by
    intro g mem
    have visited : x ∈ m.visited 100 := by simp [trace]
    have frames := List.all_eq_true.1 unstarted x visited
    simpa using List.all_eq_true.1 frames g (x.base_sublist.mem mem)
  exact ⟨life, s, m, w, raised, before, x, after, f, h, begun, run, recovered, states, trace, fails, below,
    (same below).symm.trans recovered, (leaves 0 7 recovered).2⟩

end UnitHost
