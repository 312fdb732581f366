import UnitHost.Proofs.Transcript

/-!
# Time reaches marks only

The clock of a world is read when a mark is made, and nowhere else. `World.seen` takes the times out of a world and puts
entries that were handed out before in front of its console. It also takes out what sessions do not read of their
configuration: the features and the stack, which the engine was built with before, and new names for anything but a host
call. What is left is all that an observer without a watch can tell. Whatever the host, the code and the session do
commutes with it: `Action.Blind` for actions, `Machine.step_seen` and `Machine.run_seen` for code, `Session.submit_seen`
for submissions.
-/

namespace UnitHost

open Wasm

/-! Configurations. -/

namespace Abi

variable (abi : Abi)

/-- The same names, with one new name for each host call and none for anything else. -/
def plain : Abi := { abi with hostCalls := HostCall.all.map fun call => (call.name, abi.hostName call) }

theorem hostName_plain (call : HostCall) : abi.plain.hostName call = abi.hostName call := by
  cases call <;> rfl

theorem isReserved_plain (name : String) : abi.plain.isReserved name = abi.isReserved name := by
  unfold isReserved
  simp only [hostName_plain]
  rfl

end Abi

theorem Symbols.publish_plain (s : Symbols) (abi : Abi) (exports : List (String × Extern)) :
    s.publish abi.plain exports = s.publish abi exports := by
  simp only [publish, abi.isReserved_plain]

theorem Symbols.notices_plain (s : Symbols) (abi : Abi) (exports : List (String × Extern)) :
    s.notices abi.plain exports = s.notices abi exports := by
  induction exports generalizing s with
  | nil => rfl
  | cons e rest ih =>
    obtain ⟨name, object⟩ := e
    unfold notices
    simp only [abi.isReserved_plain, ih]

/-- What sessions read of a configuration. -/
def Config.plain (config : Config) : Config where
  maxMemoryPages := config.maxMemoryPages
  maxTableSize := config.maxTableSize
  abi := config.abi.plain

/-! Consoles and logs. -/

/-- An entry without the time of a mark. -/
def Event.timeless : Event → Event
  | .mark name _ => .mark name 0
  | e => e

/-- A record without the time of a mark. -/
def Notice.timeless : Notice → Notice
  | .mark name _ => .mark name 0
  | n => n

namespace Console

variable (before : Array Event) (c : Console)

/-- A console behind entries that were handed out before, without times. -/
def seen : Console := { depth := c.depth, events := before ++ c.events.map Event.timeless }

theorem record_seen (e : Event) : (c.seen before).record e.timeless = (c.record e).seen before := by
  simp [seen, record, Array.map_push]

theorem message_seen (channel : Channel) (text : String) :
    (c.seen before).message channel text = (c.message channel text).seen before :=
  record_seen before c (.message channel c.depth text)

theorem openGroup_seen (label : String) : (c.seen before).openGroup label = (c.openGroup label).seen before := by
  have recorded := record_seen before c (.opened c.depth label)
  exact congrArg (fun r : Console => { r with depth := c.depth + 1 }) recorded

theorem closed_seen (depth : Nat) :
    { (c.seen before).record (.closed depth) with depth } =
      ({ c.record (.closed depth) with depth } : Console).seen before :=
  congrArg (fun r : Console => { r with depth }) (record_seen before c (.closed depth))

theorem closeGroup_seen : (c.seen before).closeGroup = c.closeGroup.map (·.seen before) := by
  have inner : (c.seen before).depth = c.depth := rfl
  unfold closeGroup
  rw [inner]
  cases c.depth with
  | zero => rfl
  | succ depth => exact congrArg Except.ok (closed_seen before c depth)

theorem close_seen (n : Nat) : (c.seen before).close n = (c.close n).seen before := by
  induction n generalizing c with
  | zero => rfl
  | succ n ih =>
    have inner : (c.seen before).depth = c.depth := rfl
    unfold close
    rw [inner]
    cases c.depth with
    | zero => rfl
    | succ depth =>
      dsimp only
      rw [closed_seen, ih]

theorem closeTo_seen (depth : Nat) : (c.seen before).closeTo depth = (c.closeTo depth).seen before :=
  close_seen before c _

theorem mark_seen (name : String) (elapsed : Nat) : (c.seen before).mark name 0 = (c.mark name elapsed).seen before :=
  record_seen before c (.mark name elapsed)

end Console

namespace Journal

variable (before : Array Event) (j : Journal)

/-- A journal behind entries that were handed out before, without times. -/
def seen : Journal := { console := j.console.seen before, log := j.log.map Notice.timeless }

theorem note_seen (n : Notice) : (j.seen before).note n.timeless = (j.note n).seen before := by
  simp [seen, note, Array.map_push]

theorem message_seen (channel : Channel) (text : String) :
    (j.seen before).message channel text = (j.message channel text).seen before := by
  have noted := note_seen before j (.message channel j.console.depth text)
  have recorded := j.console.message_seen before channel text
  exact congrArg₂ (fun log console => { log, console : Journal }) (congrArg log noted) recorded

theorem openGroup_seen (label : String) : (j.seen before).openGroup label = (j.openGroup label).seen before := by
  have noted := note_seen before j (.opened j.console.depth label)
  have recorded := j.console.openGroup_seen before label
  exact congrArg₂ (fun log console => { log, console : Journal }) (congrArg log noted) recorded

theorem closeGroup_seen : (j.seen before).closeGroup = j.closeGroup.map (·.seen before) := by
  have closed := j.console.closeGroup_seen before
  unfold closeGroup
  change (j.console.seen before).closeGroup.map _ = _
  rw [closed]
  cases j.console.closeGroup <;> rfl

theorem closeTo_seen (depth : Nat) : (j.seen before).closeTo depth = (j.closeTo depth).seen before :=
  congrArg (fun console => { console, log := j.log.map Notice.timeless : Journal }) (j.console.closeTo_seen before depth)

theorem unwind_seen : (j.seen before).unwind = j.unwind.seen before := by
  have inner : (j.seen before).console.depth = j.console.depth := rfl
  unfold unwind
  rw [inner]
  cases j.console.depth with
  | zero => rfl
  | succ depth =>
    dsimp only
    rw [closeTo_seen]
    exact note_seen before (j.closeTo 0) (.unwound (depth + 1))

theorem mark_seen (name : String) (elapsed : Nat) : (j.seen before).mark name 0 = (j.mark name elapsed).seen before := by
  have noted := note_seen before j (.mark name elapsed)
  have recorded := j.console.mark_seen before name elapsed
  exact congrArg₂ (fun log console => { log, console : Journal }) (congrArg log noted) recorded

end Journal

/-! Worlds. -/

namespace World

/-- All that an observer can tell who has no watch and was handed some entries before. -/
def seen (before : Array Event) (w : World) : World :=
  { w with config := w.config.plain, journal := w.journal.seen before, clock := 0 }

variable (before : Array Event) (w : World)

theorem note_seen (n : Notice) : (w.seen before).note n.timeless = (w.note n).seen before :=
  congrArg (fun j => { w.seen before with journal := j }) (w.journal.note_seen before n)

theorem note_seen_of_timeless {n : Notice} (timeless : n.timeless = n) :
    (w.seen before).note n = (w.note n).seen before := by
  have noted := w.note_seen before n
  rwa [timeless] at noted

theorem enlargeMemory_seen (p : Program) (m : Memory) :
    (w.seen before).enlargeMemory p m = (w.enlargeMemory p m).seen before := by
  unfold enlargeMemory
  rw [apply_ite (seen before), ← note_seen_of_timeless _ _ rfl]
  rfl

theorem enlargeTable_seen (p : Program) (t : Table) :
    (w.seen before).enlargeTable p t = (w.enlargeTable p t).seen before := by
  unfold enlargeTable
  rw [apply_ite (seen before), ← note_seen_of_timeless _ _ rfl]
  rfl

theorem noteAll_seen {ns : List Notice} (timeless : ∀ n ∈ ns, n.timeless = n) :
    (w.seen before).noteAll ns = (w.noteAll ns).seen before := by
  induction ns generalizing w with
  | nil => rfl
  | cons n ns ih =>
    obtain ⟨first, rest⟩ := List.forall_mem_cons.1 timeless
    change ((w.seen before).note n).noteAll ns = ((w.note n).noteAll ns).seen before
    rw [w.note_seen_of_timeless before first, ih (w.note n) rest]

theorem timeless_notices (s : Symbols) (abi : Abi) (exports : List (String × Extern)) :
    ∀ n ∈ s.notices abi exports, n.timeless = n := by
  induction exports generalizing s with
  | nil => simp [Symbols.notices]
  | cons e rest ih =>
    obtain ⟨name, object⟩ := e
    unfold Symbols.notices
    dsimp only
    split
    · exact List.forall_mem_cons.2 ⟨rfl, ih s⟩
    · split
      · exact List.forall_mem_cons.2 ⟨rfl, ih _⟩
      · exact ih _

theorem publish_seen (exports : List (String × Extern)) :
    (w.seen before).publish exports = (w.publish exports).seen before := by
  have same : (w.seen before).program = w.program := rfl
  unfold publish
  rw [same]
  cases w.program with
  | none => rfl
  | some p =>
    have names : (w.seen before).config.abi = w.config.abi.plain := rfl
    have noted := w.noteAll_seen before (timeless_notices p.symbols w.config.abi exports)
    dsimp only
    rw [names]
    simp only [Symbols.notices_plain, Symbols.publish_plain]
    exact congrArg (fun v : World => v.updateProgram fun p => { p with symbols := p.symbols.publish w.config.abi exports })
      noted

theorem post_seen (r : Response) : (w.seen before).post r = (w.post r).seen before := by
  have same : (w.seen before).pending = w.pending := rfl
  unfold post
  rw [same]
  cases w.pending with
  | none => rfl
  | some _ => exact w.note_seen before (.extraResult r)

end World

/-! Actions. -/

namespace Action

/-- Neither times nor entries that were handed out matter for what an action does. -/
def Blind (a : Action α) : Prop :=
  ∀ (before : Array Event) (w : World), a.run.run (w.seen before) = ((a.run.run w).1, (a.run.run w).2.seen before)

section Blind

theorem blind_pure (x : α) : Blind (pure x : Action α) := fun _ _ => rfl

theorem blind_throw (f : Failure) : Blind (throw f : Action α) := fun _ _ => rfl

theorem blind_ofExcept (r : Except Failure α) : Blind (ofExcept r) := by
  intro before w
  rw [run_ofExcept, run_ofExcept]

theorem blind_modify {g : World → World} (h : ∀ before w, g (w.seen before) = (g w).seen before) :
    Blind (modify g : Action Unit) := by
  intro before w
  exact congrArg (Prod.mk (Except.ok ())) (h before w)

theorem Blind.bind {a : Action α} {f : α → Action β} (ha : Blind a) (hf : ∀ x, Blind (f x)) : Blind (a >>= f) := by
  intro before w
  rw [run_bind, run_bind, ha before w]
  rcases a.run.run w with ⟨e | x, v⟩
  · rfl
  · exact hf x before v

/-- What an action reads of the world has to be what an observer can tell. -/
theorem blind_get_bind {f : World → Action α} (same : ∀ before w, f (w.seen before) = f w) (hf : ∀ w, Blind (f w)) :
    Blind (get >>= f) := by
  intro before w
  rw [run_bind, run_bind, run_get, run_get]
  dsimp only
  rw [same, hf w before w]

theorem Blind.attempt {a : Action α} (ha : Blind a) : Blind (attempt a) := by
  intro before w
  rw [run_attempt, run_attempt, ha before w]

theorem blind_forM {f : α → Action Unit} (hf : ∀ x, Blind (f x)) (xs : List α) : Blind (xs.forM f) := by
  induction xs with
  | nil => exact blind_pure ()
  | cons x xs ih => exact (hf x).bind fun _ => ih

theorem blind_foldlM {f : β → α → Action β} (hf : ∀ b x, Blind (f b x)) (b : β) (xs : List α) :
    Blind (xs.foldlM f b) := by
  induction xs generalizing b with
  | nil => exact blind_pure b
  | cons x xs ih => exact (hf b x).bind fun b => ih b

end Blind

theorem blind_program : Blind program := by
  refine blind_get_bind (fun _ _ => rfl) fun w => ?_
  split
  · exact blind_pure _
  · exact blind_throw _

theorem blind_decode (address count : UInt32) : Blind (decode address count) := by
  intro before w
  rw [run_decode, run_decode]
  rfl

theorem blind_note {n : Notice} (timeless : n.timeless = n) : Blind (note n) :=
  blind_modify fun before w => w.note_seen_of_timeless before timeless

theorem blind_journal {g : World → Journal} (h : ∀ before w, g (w.seen before) = (g w).seen before) :
    Blind (modify fun w => { w with journal := g w } : Action Unit) :=
  blind_modify fun before w => congrArg (fun j => { w.seen before with journal := j }) (h before w)

theorem blind_message (channel : Channel) (address count : UInt32) : Blind (message channel address count) :=
  (blind_decode address count).bind fun text => blind_journal fun before w =>
    w.journal.message_seen before channel text

theorem blind_group (address count : UInt32) : Blind (group address count) :=
  (blind_decode address count).bind fun label => blind_journal fun before w =>
    w.journal.openGroup_seen before label

theorem blind_groupEnd : Blind groupEnd := by
  intro before w
  have closed : (w.seen before).journal.closeGroup = w.journal.closeGroup.map (·.seen before) :=
    w.journal.closeGroup_seen before
  rw [run_groupEnd, run_groupEnd, closed]
  cases w.journal.closeGroup <;> rfl

theorem blind_panicError (address count : UInt32) : Blind (panicError address count) :=
  (blind_decode address count).attempt.bind fun _ =>
    (blind_journal fun before w => w.journal.unwind_seen before).bind fun _ => (blind_ofExcept _).bind fun text =>
      (blind_journal fun before w => w.journal.message_seen before .error text).bind fun _ => blind_throw _

/-- The one place where the clock is read. -/
theorem blind_mark (address count : UInt32) : Blind (mark address count) := by
  refine (blind_decode address count).attempt.bind fun text => ?_
  cases text with
  | ok name => exact blind_journal fun before w => w.journal.mark_seen before name w.clock
  | error f => exact blind_note rfl

theorem blind_post (wrap : String → Response) (address count : UInt32) : Blind (post wrap address count) :=
  (blind_decode address count).bind fun text => blind_modify fun before w => w.post_seen before (wrap text)

theorem blind_hostCall (call : HostCall) (address count : UInt32) : Blind (hostCall call address count) := by
  cases call with
  | log => exact blind_message _ _ _
  | warn => exact blind_message _ _ _
  | error => exact blind_message _ _ _
  | panicError => exact blind_panicError _ _
  | group => exact blind_group _ _
  | groupEnd => exact blind_groupEnd
  | mark => exact blind_mark _ _
  | compileInit => exact blind_pure ()
  | postOutput => exact blind_post _ _ _
  | postError => exact blind_post _ _ _

theorem blind_store (g : World → Store) (same : ∀ before w, g (w.seen before) = g w) :
    Blind (modify fun w => { w with store := g w } : Action Unit) :=
  blind_modify fun before w => congrArg (fun s => { w.seen before with store := s }) (same before w)

theorem blind_define (d : Definitions) (module name : String) (object : Extern) : Blind (define d module name object) := by
  unfold define
  split
  · exact blind_pure _
  · exact blind_throw _

theorem blind_constant (n : Nat) : Blind (constant n) :=
  blind_get_bind (fun _ _ => rfl) fun _ => (blind_store _ fun _ _ => rfl).bind fun _ => blind_pure _

theorem blind_growForImport (p : Program) (i : Import) : Blind (growForImport p i) := by
  intro before w
  have sizes : growFor (w.seen before).config.abi (w.seen before).config i ((w.seen before).memory p)
      ((w.seen before).table p) = growFor w.config.abi w.config i (w.memory p) (w.table p) := rfl
  rw [run_growForImport, run_growForImport, sizes]
  cases growFor w.config.abi w.config i (w.memory p) (w.table p) with
  | error fault => rfl
  | ok larger =>
    dsimp only
    rw [World.enlargeMemory_seen, World.enlargeTable_seen]

theorem blind_importObject (p : Program) (memoryBase tableBase : Nat) : Blind (importObject p memoryBase tableBase) :=
  blind_get_bind (fun _ _ => rfl) fun _ => (blind_constant _).bind fun _ => (blind_constant _).bind fun _ =>
    (blind_define _ _ _ _).bind fun _ => (blind_define _ _ _ _).bind fun _ =>
      blind_foldlM (fun _ _ => blind_define _ _ _ _) _ _

theorem blind_instantiate (d : Definitions) (m : Module) : Blind (instantiate d m) := by
  refine blind_get_bind (fun _ _ => rfl) fun w => (blind_store _ fun _ _ => rfl).bind fun _ => ?_
  split
  · exact blind_pure _
  · exact blind_throw _

theorem blind_compile (bytes : List UInt8) : Blind (compile bytes) := by
  refine blind_get_bind (fun _ _ => rfl) fun w => ?_
  split
  · exact blind_pure _
  · exact blind_throw _

theorem blind_prepare (r : LinkRequest) : Blind (prepare r) :=
  blind_program.bind fun p => blind_get_bind (fun _ _ => rfl) fun _ => (blind_ofExcept _).bind fun _ =>
    (blind_compile _).bind fun _ => (blind_ofExcept _).bind fun _ =>
      (blind_forM (blind_growForImport p) _).bind fun _ => (blind_importObject _ _ _).bind fun _ =>
        (blind_instantiate _ _).bind fun _ => blind_pure _

end Action

/-! Code. -/

namespace Machine

/-- Running code as an observer without a watch sees it. -/
def seen (before : Array Event) (m : Machine) : Machine := { m with world := m.world.seen before }

variable (before : Array Event) (m : Machine)

theorem store_seen : (m.seen before).world.store = m.world.store := rfl

theorem staticInit_seen : (m.seen before).world.config.abi.staticInit = m.world.config.abi.staticInit := rfl

theorem main_seen : (m.seen before).world.config.abi.main = m.world.config.abi.main := rfl

theorem branch_seen (a : Activation) (label : Nat) : (m.seen before).branch a label = (m.branch a label).seen before := by
  unfold branch
  split <;> rfl

theorem fallOff_seen (a : Activation) : (m.seen before).fallOff a = (m.fallOff a).seen before := by
  unfold fallOff
  split <;> rfl

theorem exec_seen (a : Activation) (instr : Instr) : (m.seen before).exec a instr = (m.exec a instr).seen before := by
  unfold exec
  rw [store_seen]
  dsimp only
  split
  -- An instruction looks at nothing but the store, and on both sides at the same one.
  all_goals first
    | rfl
    | exact branch_seen before m _ _
    | (split <;> first | rfl | exact branch_seen before m _ _)
    | (split <;> first | rfl | (split <;> first | rfl | (split <;> rfl)))

theorem openPhase_seen (next : Nat) (entry : String) :
    (m.seen before).openPhase next entry = (m.openPhase next entry).seen before :=
  congrArg (fun j => { m.seen before with world := { m.world.seen before with journal := j } })
    (m.world.journal.openGroup_seen before _)

theorem closePhase_seen (depth : Nat) : (m.seen before).closePhase depth = (m.closePhase depth).seen before :=
  congrArg (fun j => { m.seen before with world := { m.world.seen before with journal := j } })
    (m.world.journal.closeTo_seen before depth)

theorem failLink_seen (f : Failure) : (m.seen before).failLink f = (m.failLink f).seen before :=
  congrArg (fun w => { m with world := w, control := .raise (.failure f) }) (m.world.note_seen_of_timeless before rfl)

theorem enterUnit_seen (l : Linking) : (m.seen before).enterUnit l = (m.enterUnit l).seen before := by
  unfold enterUnit
  dsimp only
  rw [store_seen, staticInit_seen, main_seen]
  cases typedExport m.world.store l.owner m.world.config.abi.staticInit entryType with
  | error f => exact failLink_seen before m f
  | ok initializer =>
    cases typedExport m.world.store l.owner m.world.config.abi.main entryType with
    | error f => exact failLink_seen before m f
    | ok main =>
      exact congrArg (fun n : Machine => n.await (.staticInit l main m.world.units.length m.world.depth) initializer [])
        (openPhase_seen before m m.world.units.length m.world.config.abi.staticInit)

theorem link_seen (r : LinkRequest) : (m.seen before).link r = (m.link r).seen before := by
  have prepared : (Action.prepare r).run.run (m.seen before).world =
      (((Action.prepare r).run.run m.world).1, ((Action.prepare r).run.run m.world).2.seen before) :=
    Action.blind_prepare r before m.world
  unfold link
  rw [prepared]
  rcases (Action.prepare r).run.run m.world with ⟨f | l, w⟩
  · exact failLink_seen before { m with world := w } f
  · dsimp only
    cases l.module.start.bind (l.owner.funcs[·]?) with
    | some callee => rfl
    | none => exact enterUnit_seen before { m with world := w } l

theorem call_seen (callee : Callee) (args : List Value) :
    (m.seen before).call callee args = (m.call callee args).seen before := by
  have called (call : HostCall) : (Action.hostCall call (args.getD 0 .null).word (args.getD 1 .null).word).run.run
      (m.seen before).world = _ := Action.blind_hostCall call _ _ before m.world
  unfold call
  split
  · rw [store_seen]
    split
    · rfl
    · have engine : (m.seen before).world.engine = m.world.engine := rfl
      have depth : (m.seen before).depth = m.depth := rfl
      rw [engine, depth]
      split <;> rfl
  · exact link_seen before m _
  · rename_i call _
    rw [called call]
    rcases (Action.hostCall call (args.getD 0 .null).word (args.getD 1 .null).word).run.run m.world with ⟨f | ⟨⟩, w⟩
    · rfl
    · rfl

theorem note_failLink_seen (w : World) {n : Notice} (timeless : n.timeless = n) (f : Failure) :
    failLink { m with world := (w.seen before).note n } f = (failLink { m with world := w.note n } f).seen before := by
  rw [w.note_seen_of_timeless before timeless]
  exact failLink_seen before { m with world := w.note n } f

theorem message_seen (channel : Channel) (text : String) :
    ({ m.seen before with
      world := { (m.seen before).world with journal := (m.seen before).world.journal.message channel text } } : Machine) =
    seen before { m with world := { m.world with journal := m.world.journal.message channel text } } :=
  congrArg (fun j => { m.seen before with world := { m.world.seen before with journal := j } })
    (m.world.journal.message_seen before channel text)

theorem initialized_seen (l : Linking) (main : Callee) (next depth : Nat) (code : Int32) :
    (m.seen before).initialized l main next depth code = (m.initialized l main next depth code).seen before := by
  unfold initialized
  dsimp only
  split
  · rw [closePhase_seen, openPhase_seen]
    rfl
  · rw [message_seen, closePhase_seen]
    exact failLink_seen before { m with world := (World.append _ l .failed).2 } _

theorem executed_seen (l : Linking) (depth : Nat) (value : UInt32) :
    (m.seen before).executed l depth value = (m.executed l depth value).seen before := by
  unfold executed
  dsimp only
  rw [closePhase_seen]
  generalize m.closePhase depth = m
  have published : (m.seen before).world.publish l.owner.symbols = _ := m.world.publish_seen before l.owner.symbols
  rw [published]
  generalize m.world.publish l.owner.symbols = w
  -- Both sides number the new unit by the same list of units.
  have numbered : (w.seen before).append l (.executed (signed value)) =
    ((w.append l (.executed (signed value))).1, (w.append l (.executed (signed value))).2.seen before) := rfl
  rw [numbered]
  dsimp only
  rw [World.note_seen_of_timeless before _ rfl]
  generalize World.note (w.append l (.executed (signed value))).2 _ = v
  have program : (v.seen before).program = v.program := rfl
  have store : (v.seen before).store = v.store := rfl
  have renderer : (v.seen before).config.abi.reportResult = v.config.abi.reportResult := rfl
  rw [program, store, renderer]
  cases v.program with
  | none => exact failLink_seen before { m with world := v } _
  | some p =>
    dsimp only
    cases typedExport v.store p.base v.config.abi.reportResult reportType with
    | error f => exact failLink_seen before { m with world := v } f
    | ok report => rfl

theorem resume_seen (f : Frame) (results : List Value) :
    (m.seen before).resume f results = (m.resume f results).seen before := by
  cases f with
  | caller a => rfl
  | start l => exact enterUnit_seen before m l
  | staticInit l main next depth => exact initialized_seen before m l main next depth _
  | main l depth => exact executed_seen before m l depth _
  | report index =>
    exact congrArg (fun w => { m with world := w, control := .give [] })
      (m.world.note_seen_of_timeless (n := .linkDone index) before rfl)

theorem abandon_seen (f : Frame) (r : Raised) : (m.seen before).abandon f r = (m.abandon f r).seen before := by
  cases f with
  | caller _ => rfl
  | start _ => exact failLink_seen before m _
  | staticInit l _ _ depth =>
    unfold abandon
    dsimp only
    rw [closePhase_seen]
    exact note_failLink_seen before (m.closePhase depth) ((m.closePhase depth).world.append l .failed).2 rfl _
  | main l depth =>
    unfold abandon
    dsimp only
    rw [closePhase_seen]
    exact note_failLink_seen before (m.closePhase depth) ((m.closePhase depth).world.append l .initialized).2 rfl _
  | report _ => exact failLink_seen before m _

theorem step_seen : (m.seen before).step = m.step.map (·.seen before) id := by
  obtain ⟨w, control, frames, depth⟩ := m
  cases control with
  | run a =>
    unfold step
    dsimp only [seen]
    cases a.code with
    | nil => exact congrArg Sum.inl (fallOff_seen before { world := w, control := .run a, frames, depth } a)
    | cons instr rest =>
      exact congrArg Sum.inl (exec_seen before { world := w, control := .run a, frames, depth } { a with code := rest } instr)
  | call callee args =>
    exact congrArg Sum.inl (call_seen before { world := w, control := .call callee args, frames, depth } callee args)
  | give results =>
    cases frames with
    | nil => rfl
    | cons f frames =>
      exact congrArg Sum.inl (resume_seen before { world := w, control := .give results, frames, depth := depth - 1 } f results)
  | raise r =>
    cases frames with
    | nil => rfl
    | cons f frames =>
      exact congrArg Sum.inl (abandon_seen before { world := w, control := .raise r, frames, depth := depth - 1 } f r)

/-- Code runs the same, and leaves the same behind, as far as can be seen without a watch. -/
theorem run_seen (fuel : Nat) :
    (m.seen before).run fuel = (m.run fuel).map fun (w, outcome) => (w.seen before, outcome) := by
  induction fuel generalizing m with
  | zero => rfl
  | succ fuel ih =>
    unfold run
    rw [step_seen]
    cases m.step with
    | inl next => exact ih next
    | inr outcome => rfl

end Machine

/-! Sessions. -/

namespace Session

/-- A session as its owner sees it who has no watch and was handed some entries before. -/
def seen (before : Array Event) (s : Session) : Session := { s with world := s.world.seen before }

variable (before : Array Event) (s : Session) (fuel : Nat) (text : String)

theorem clean_seen (w : World) (raised : Raised) (posted : Option Response) :
    clean (w.seen before) raised posted = (clean w raised posted).seen before := by
  have unwound : ({ w.seen before with journal := (w.seen before).journal.unwind } : World) =
      World.seen before { w with journal := w.journal.unwind } :=
    congrArg (fun j => { w.seen before with journal := j }) (w.journal.unwind_seen before)
  unfold clean
  rw [unwound]
  split
  · rfl
  · exact World.note_seen_of_timeless before _ rfl
  · rfl

theorem evaluation_seen : (s.seen before).evaluation text = (s.evaluation text).map (·.seen before) := by
  have memory : ((s.seen before).world.store.memory (s.seen before).memory) = s.world.store.memory s.memory := rfl
  unfold evaluation
  dsimp only
  rw [memory]
  cases (s.world.store.memory s.memory).writeText text <;> rfl

theorem settled_seen (w : World) (outcome : Outcome) :
    settled (w.seen before) outcome = (settled w outcome).seen before := by
  cases outcome with
  | ok results => rfl
  | error raised => exact clean_seen before { w with pending := none } raised w.pending

theorem answered_seen (response : Response) (w : World) :
    (s.seen before).answered text response (w.seen before) = (s.answered text response w).seen before :=
  congrArg (fun w => { s.answered text response w with world := w })
    (w.note_seen before (.submission s.history.length response))

/-- A submission whose evaluation does not end within the fuel is not answered. -/
theorem submit_of_endless {s : Session} {fuel : Nat} {text : String} {m : Machine} (ready : s.state = .ready)
    (fits : s.evaluation text = .ok m) (run : m.run fuel = none) : s.submit fuel text = none := by
  simp [submit, ready, evaluateText, fits, run]

/-- A submission is answered the same, and leaves the same behind. -/
theorem submit_seen : (s.seen before).submit fuel text =
    (s.submit fuel text).map fun (answer, s) => (answer, s.seen before) := by
  have state : (s.seen before).state = s.state := rfl
  have begun := evaluation_seen before s text
  by_cases ready : s.state = .ready
  · cases fits : s.evaluation text with
    | error f =>
      rw [fits] at begun
      rw [submit_of_misfit ready fits, submit_of_misfit (state.trans ready) begun]
      exact congrArg (fun s => some (_, s)) (answered_seen before s text (.error f.message) s.world)
    | ok m =>
      have ran := m.run_seen before fuel
      rw [fits] at begun
      cases run : m.run fuel with
      | none =>
        rw [run] at ran
        rw [submit_of_endless ready fits run, submit_of_endless (state.trans ready) begun ran]
        rfl
      | some ended =>
        obtain ⟨w, outcome⟩ := ended
        rw [run] at ran
        rw [submit_of_run ready fits run, submit_of_run (state.trans ready) begun ran, settled_seen]
        exact congrArg (fun s => some (_, s)) (answered_seen before s text (settle outcome w.pending) (settled w outcome))
  · simp [submit, state, ready]

end Session

end UnitHost
