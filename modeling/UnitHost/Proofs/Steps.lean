import UnitHost.Proofs.Actions

/-!
# What one step can do

A step executes code, calls a function, or gives results or a failure to a frame, which is
`Machine.step_taken`. Code by itself goes on, changes one object or calls a function:
`Machine.local_exec` says so once, for every instruction.

Seen from the program, a step of the machine does one of six things: nothing, post a response,
begin a link, give a link up before its unit has an entry point running, append a unit that did not
run to its end, or publish and append one that did. `Machine.step_change` says so once, with all
that is known in each case; what holds of every run is derived from it and never opens the machine
again.
-/

namespace UnitHost

open Wasm

theorem ok_of_toOption {e : Except ε α} {x : α} (h : e.toOption = some x) : e = .ok x := by
  cases e with
  | error f => cases h
  | ok found => cases h; rfl

/-! Single objects. -/

/-- An object is replaced by one that stands in a relation to it. -/
theorem rel_getD_setIfInBounds {R : α → α → Prop} (refl : ∀ x, R x x) {xs : Array α} {absent x : α} {i : Nat}
    (h : R (xs[i]?.getD absent) x) (j : Nat) : R (xs[j]?.getD absent) ((xs.setIfInBounds i x)[j]?.getD absent) := by
  rw [Array.getElem?_setIfInBounds]
  split
  · subst j
    split
    · exact h
    · rename_i outside
      rw [Array.getElem?_eq_none (Nat.not_lt.1 outside)]
      exact refl _
  · exact refl _

namespace Memory

variable {m m' : Memory}

theorem pages_write? {address : Nat} {bytes : List UInt8} (h : m.write? address bytes = some m') :
    m'.pages = m.pages := by
  obtain ⟨fits, h⟩ := Option.dite_none_right_eq_some.1 h
  cases h
  rfl

theorem pages_fill? {address count : Nat} {b : UInt8} (h : m.fill? address count b = some m') :
    m'.pages = m.pages := by
  obtain ⟨fits, h⟩ := Option.dite_none_right_eq_some.1 h
  cases h
  rfl

theorem pages_grow? {delta : Nat} (h : m.grow? delta = some m') : m'.pages = m.pages + delta := by
  obtain ⟨-, h⟩ := Option.ite_none_right_eq_some.1 h
  cases h
  rfl

end Memory

namespace Table

variable {t t' : Table}

theorem size_write? {start : Nat} {funcs : List Callee} (h : t.write? start funcs = some t') : t'.size = t.size := by
  obtain ⟨fits, h⟩ := Option.dite_none_right_eq_some.1 h
  cases h
  rfl

theorem size_grow? {delta : Nat} (h : t.grow? delta = some t') : t'.size = t.size + delta := by
  obtain ⟨-, h⟩ := Option.ite_none_right_eq_some.1 h
  cases h
  rfl

end Table

/-! What a step can do. -/

/-- The unit a frame is linking. A unit whose result is being rendered has been linked. -/
def Frame.linking? : Frame → Option Linking
  | .start l | .staticInit l .. | .main l .. => some l
  | .caller _ | .report _ => none

/-- A program has the base, memory, table and surface that it had before. -/
structure Program.SameGround (p p' : Program) : Prop where
  base : p'.base = p.base
  memory : p'.memory = p.memory
  table : p'.table = p.table
  surface : p'.surface = p.surface

namespace Machine

variable {m m' : Machine}

/-- The units being linked, innermost first. -/
def linking (m : Machine) : List Linking := m.frames.filterMap Frame.linking?

/-- The text of the range that a host call is given. -/
def argumentText (m : Machine) (args : List Value) : Except Failure String :=
  m.world.decoded (args.getD 0 .null).word (args.getD 1 .null).word

/-- The response that the next step posts: it calls `post_output` or `post_error` with a range that
can be decoded. -/
def posted? (m : Machine) : Option Response :=
  match m.control with
  | .call (.host .postOutput) args => (m.argumentText args).toOption.map .output
  | .call (.host .postError) args => (m.argumentText args).toOption.map .error
  | _ => none

/-- Neither the program nor the links change. -/
structure Still (m m' : Machine) : Prop where
  kept : World.Kept m.world m'.world
  linking : m'.linking = m.linking

/-- What a step can do to the program, the links and the pending response. -/
inductive Change (m m' : Machine) : Prop where
  | still (quiet : m.posted? = none) (still : Still m m')
  | posted (r : Response) (posted : m.posted? = some r) (world : m'.world = m.world.post r)
      (linking : m'.linking = m.linking)
  | began (r : LinkRequest) (p : Program) (l : Linking) (quiet : m.posted? = none)
      (prepared : r.Prepared m.world p l) (kept : World.Kept m.world m'.world)
      (linking : m'.linking = l :: m.linking)
  | dropped (l : Linking) (quiet : m.posted? = none) (kept : World.Kept m.world m'.world)
      (linking : m.linking = l :: m'.linking)
  | appended (l : Linking) (state : UnitState) (quiet : m.posted? = none)
      (unfinished : state.result? = none)
      (kept : World.Kept (m.world.append l state).2 m'.world) (linking : m.linking = l :: m'.linking)
  | executed (l : Linking) (value : Int32) (quiet : m.posted? = none)
      (kept : World.Kept ((m.world.publish l.owner.symbols).append l (.executed value)).2 m'.world)
      (linking : m.linking = l :: m'.linking)

/-! Code of its own. -/

/-- What code does by itself in a step: it goes on, changes one object or calls a function. No memory and no table
gets smaller. -/
inductive Local (m : Machine) : Machine → Prop where
  | go (c : Control) : Local m (m.go c)
  | memory (address : Nat) (memory : Memory) (a : Activation)
      (le : (m.world.store.memory address).pages ≤ memory.pages) :
      Local m (m.update (m.world.store.setMemory address memory) a)
  | table (address : Nat) (table : Table) (a : Activation)
      (le : (m.world.store.table address).size ≤ table.size) :
      Local m (m.update (m.world.store.setTable address table) a)
  | global (address : Nat) (v : Value) (a : Activation) : Local m (m.update (m.world.store.setGlobal address v) a)
  | invoke (a : Activation) (callee : Callee) (type : FuncType) : Local m (m.invoke a callee type)

theorem local_branch (m : Machine) (a : Activation) (label : Nat) : m.Local (m.branch a label) := by
  unfold branch
  split <;> exact .go _

theorem local_fallOff (m : Machine) (a : Activation) : m.Local (m.fallOff a) := by
  unfold fallOff
  split <;> exact .go _

theorem local_exec (m : Machine) (a : Activation) (instr : Instr) : m.Local (m.exec a instr) := by
  unfold exec
  dsimp only
  -- Whatever it checks on the way, an instruction ends in one of the ways above.
  repeat' split
  all_goals first
    | exact .go _
    | exact local_branch m _ _
    | exact .invoke _ _ _
    | exact .global _ _ _
    | exact .memory _ _ _ (Nat.le_of_eq (Memory.pages_write? ‹_›).symm)
    | exact .memory _ _ _ (Nat.le_of_eq (Memory.pages_fill? ‹_›).symm)
    | exact .memory _ _ _ (Memory.pages_grow? ‹_› ▸ Nat.le_add_right _ _)
    | exact .table _ _ _ (Table.size_grow? ‹_› ▸ Nat.le_add_right _ _)

theorem still_go (m : Machine) (c : Control) : Still m (m.go c) := ⟨.refl _, rfl⟩

theorem still_trap (m : Machine) (t : Trap) : Still m (m.trap t) := still_go m _

theorem still_failLink (m : Machine) (f : Failure) : Still m (m.failLink f) :=
  ⟨⟨rfl, rfl, rfl, rfl⟩, rfl⟩

theorem Local.still (h : m.Local m') : Still m m' := by
  cases h with
  | go c => exact still_go m c
  | memory address memory a le => exact ⟨⟨rfl, rfl, rfl, rfl⟩, rfl⟩
  | table address table a le => exact ⟨⟨rfl, rfl, rfl, rfl⟩, rfl⟩
  | global address v a => exact ⟨⟨rfl, rfl, rfl, rfl⟩, rfl⟩
  | invoke a callee type => exact ⟨.refl _, rfl⟩

/-! Host calls and links. -/

/-- A posting call posts its text if the range can be decoded and changes nothing otherwise. -/
theorem change_post {wrap : String → Response} {args : List Value} {result : Except Failure Unit}
    {world : World} (posted : m.posted? = (m.argumentText args).toOption.map wrap)
    (run : (Action.post wrap (args.getD 0 .null).word (args.getD 1 .null).word).run.run m.world =
      (result, world)) (c : Control) : Change m { m with world, control := c } := by
  rw [Action.run_post, ← argumentText] at run
  cases htext : m.argumentText args with
  | ok text =>
    rw [htext] at run posted
    cases run
    exact .posted (wrap text) posted rfl rfl
  | error f =>
    rw [htext] at run posted
    cases run
    exact .still posted ⟨.refl _, rfl⟩

/-- A host call by itself posts its text, or keeps both the program and what is pending. -/
theorem change_hostCall {call : HostCall} {args : List Value} {result : Except Failure Unit}
    {world : World} (hc : m.control = .call (.host call) args)
    (run : (Action.hostCall call (args.getD 0 .null).word (args.getD 1 .null).word).run.run m.world =
      (result, world)) (c : Control) : Change m { m with world, control := c } := by
  by_cases output : call = .postOutput
  · subst output
    exact change_post (by rw [posted?, hc]) run c
  by_cases error : call = .postError
  · subst error
    exact change_post (by rw [posted?, hc]) run c
  have quiet : m.posted? = none := by
    rw [posted?, hc]
    cases call <;> first | rfl | exact absurd rfl output | exact absurd rfl error
  have kept := (Action.respects_hostCall World.kept_journal output error _ _).of_run run
  exact .still quiet ⟨kept, rfl⟩

/-- A unit whose start function is done either has both entry points or is given up. -/
theorem enterUnit_cases (m : Machine) (l : Linking) :
    Still m (m.enterUnit l) ∨
      World.Kept m.world (m.enterUnit l).world ∧ (m.enterUnit l).linking = l :: m.linking := by
  unfold enterUnit
  dsimp only
  split
  · exact .inl (still_failLink m _)
  · split
    · exact .inl (still_failLink m _)
    · exact .inr ⟨⟨rfl, rfl, rfl, rfl⟩, rfl⟩

/-- A link fails before its unit's code runs, or begins. -/
theorem change_link (quiet : m.posted? = none) (r : LinkRequest) : Change m (m.link r) := by
  have kept := Action.keeps_prepare r m.world
  unfold link
  rcases run : (Action.prepare r).run.run m.world with ⟨f | l, world⟩
  · rw [run] at kept
    exact .still quiet ⟨kept.trans (still_failLink { m with world } f).kept, rfl⟩
  · rw [run] at kept
    obtain ⟨p, prepared⟩ := Action.prepare_ok run
    dsimp only
    split
    · exact .began r p l quiet prepared kept rfl
    · rcases enterUnit_cases { m with world } l with still | ⟨entered, linking⟩
      · exact .still quiet ⟨kept.trans still.kept, still.linking⟩
      · exact .began r p l quiet prepared (kept.trans entered) linking

theorem change_call {callee : Callee} {args : List Value} (hc : m.control = .call callee args) :
    Change m (m.call callee args) := by
  unfold call
  split
  · have quiet : m.posted? = none := by rw [posted?, hc]
    repeat' split
    · exact .still quiet (still_trap m _)
    · exact .still quiet (still_trap m _)
    · exact .still quiet (still_go m _)
  · exact change_link (by rw [posted?, hc]) _
  · split
    · exact change_hostCall hc ‹_› _
    · exact change_hostCall hc ‹_› _

/-! Returning to a frame. -/

/-- The machine without its innermost frame. -/
def pop (m : Machine) : Machine := { m with frames := m.frames.tail, depth := m.depth - 1 }

section Frames

variable {f : Frame} {frames : List Frame} {l : Linking}

theorem linking_of_some (hf : m.frames = f :: frames) (hl : f.linking? = some l) :
    m.linking = l :: m.pop.linking := by
  simp [linking, pop, hf, hl]

theorem linking_of_none (hf : m.frames = f :: frames) (hl : f.linking? = none) :
    m.linking = m.pop.linking := by
  simp [linking, pop, hf, hl]

/-- Results reach a frame: a link goes on, ends, or is given up. -/
theorem change_resume (quiet : m.posted? = none) (hf : m.frames = f :: frames) (results : List Value) :
    Change m (m.pop.resume f results) := by
  cases f with
  | caller a => exact .still quiet ⟨.refl _, (linking_of_none hf rfl).symm⟩
  | start l =>
    have before := linking_of_some hf rfl
    rcases enterUnit_cases m.pop l with given | ⟨entered, after⟩
    · exact .dropped l quiet given.kept (before.trans (congrArg (l :: ·) given.linking.symm))
    · exact .still quiet ⟨entered, after.trans before.symm⟩
  | staticInit l main next depth =>
    have before := linking_of_some hf rfl
    unfold resume initialized
    dsimp only
    split
    · exact .still quiet ⟨⟨rfl, rfl, rfl, rfl⟩, before.symm⟩
    · exact .appended l .failed quiet rfl ⟨rfl, rfl, rfl, rfl⟩ before
  | main l depth =>
    have before := linking_of_some hf rfl
    have closed : World.Kept m.world (m.pop.closePhase depth).world := ⟨rfl, rfl, rfl, rfl⟩
    have kept := (closed.publish l.owner.symbols).append l (.executed (signed (results.headD .null).word))
    unfold resume executed
    dsimp only
    split
    · exact .executed l _ quiet (kept.trans ⟨rfl, rfl, rfl, rfl⟩) before
    · split
      · exact .executed l _ quiet (kept.trans ⟨rfl, rfl, rfl, rfl⟩) before
      · exact .executed l _ quiet (kept.trans ⟨rfl, rfl, rfl, rfl⟩) before
  | report index => exact .still quiet ⟨⟨rfl, rfl, rfl, rfl⟩, (linking_of_none hf rfl).symm⟩

/-- A failure reaches a frame: a link ends with its unit appended if an entry point ran. -/
theorem change_abandon (quiet : m.posted? = none) (hf : m.frames = f :: frames) (r : Raised) :
    Change m (m.pop.abandon f r) := by
  cases f with
  | caller a => exact .still quiet ⟨.refl _, (linking_of_none hf rfl).symm⟩
  | start l => exact .dropped l quiet ⟨rfl, rfl, rfl, rfl⟩ (linking_of_some hf rfl)
  | staticInit l main next depth =>
    exact .appended l .failed quiet rfl ⟨rfl, rfl, rfl, rfl⟩ (linking_of_some hf rfl)
  | main l depth =>
    exact .appended l .initialized quiet rfl ⟨rfl, rfl, rfl, rfl⟩ (linking_of_some hf rfl)
  | report index => exact .still quiet ⟨⟨rfl, rfl, rfl, rfl⟩, (linking_of_none hf rfl).symm⟩

end Frames

/-! The six kinds of step. -/

theorem step_call {callee : Callee} {args : List Value} (hc : m.control = .call callee args) :
    m.step = .inl (m.call callee args) := by
  unfold step
  rw [hc]

theorem step_give {results : List Value} {f : Frame} {frames : List Frame}
    (hc : m.control = .give results) (hf : m.frames = f :: frames) :
    m.step = .inl (m.pop.resume f results) := by
  unfold step pop
  rw [hc, hf]
  rfl

theorem step_raise {r : Raised} {f : Frame} {frames : List Frame}
    (hc : m.control = .raise r) (hf : m.frames = f :: frames) :
    m.step = .inl (m.pop.abandon f r) := by
  unfold step pop
  rw [hc, hf]
  rfl

/-- What the machine does in a step. -/
inductive Taken (m : Machine) : Machine → Prop where
  | code (a : Activation) (m' : Machine) (hc : m.control = .run a) (own : m.Local m') : Taken m m'
  | call (callee : Callee) (args : List Value) (hc : m.control = .call callee args) : Taken m (m.call callee args)
  | resume (f : Frame) (frames : List Frame) (results : List Value) (hc : m.control = .give results)
      (hf : m.frames = f :: frames) : Taken m (m.pop.resume f results)
  | abandon (f : Frame) (frames : List Frame) (r : Raised) (hc : m.control = .raise r)
      (hf : m.frames = f :: frames) : Taken m (m.pop.abandon f r)

theorem step_taken (h : m.step = .inl m') : m.Taken m' := by
  cases hc : m.control with
  | run a =>
    cases code : a.code with
    | nil =>
      simp only [step, hc, code] at h
      cases h
      exact .code a _ hc (local_fallOff m a)
    | cons instr rest =>
      simp only [step, hc, code] at h
      cases h
      exact .code a _ hc (local_exec m _ instr)
  | call callee args =>
    rw [step_call hc] at h
    cases h
    exact .call callee args hc
  | give results =>
    cases hf : m.frames with
    | nil => simp [step, hc, hf] at h
    | cons f frames =>
      rw [step_give hc hf] at h
      cases h
      exact .resume f frames results hc hf
  | raise r =>
    cases hf : m.frames with
    | nil => simp [step, hc, hf] at h
    | cons f frames =>
      rw [step_raise hc hf] at h
      cases h
      exact .abandon f frames r hc hf

/-- What a step can do to the objects: code changes one by itself, or a unit is linked up to its start function. -/
inductive Stored (m m' : Machine) : Prop where
  | code (a : Activation) (hc : m.control = .run a) (own : m.Local m')
  | same (store : m'.world.store = m.world.store)
  | linked (r : LinkRequest) (store : m'.world.store = ((Action.prepare r).run.run m.world).2.store)

theorem store_enterUnit (m : Machine) (l : Linking) : (m.enterUnit l).world.store = m.world.store := by
  unfold enterUnit
  dsimp only
  repeat' split
  all_goals rfl

theorem store_link (m : Machine) (r : LinkRequest) :
    (m.link r).world.store = ((Action.prepare r).run.run m.world).2.store := by
  unfold link
  rcases (Action.prepare r).run.run m.world with ⟨f | l, w⟩
  · rfl
  · dsimp only
    split
    · rfl
    · exact store_enterUnit { m with world := w } l

theorem store_resume (m : Machine) (f : Frame) (results : List Value) :
    (m.resume f results).world.store = m.world.store := by
  cases f with
  | caller a => rfl
  | start l => exact store_enterUnit m l
  | staticInit l main next depth =>
    unfold resume initialized
    dsimp only
    split <;> rfl
  | main l depth =>
    have published := World.store_publish (m.closePhase depth).world l.owner.symbols
    unfold resume executed
    dsimp only
    repeat' split
    all_goals exact published
  | report index => rfl

theorem step_store (h : m.step = .inl m') : Stored m m' := by
  cases step_taken h with
  | code a _ hc own => exact .code a hc own
  | call callee args hc =>
    unfold call
    split
    · repeat' split
      all_goals exact .same rfl
    · exact .linked _ (store_link m _)
    · split
      · exact .same ((Action.respects_hostCall_store _ _ _).of_run ‹_›)
      · exact .same ((Action.respects_hostCall_store _ _ _).of_run ‹_›)
  | resume f frames results hc hf => exact .same (store_resume m.pop f results)
  | abandon f frames r hc hf => cases f <;> exact .same rfl

/-- What a step can do. -/
theorem step_change (h : m.step = .inl m') : Change m m' := by
  cases step_taken h with
  | code a _ hc own => exact .still (by rw [posted?, hc]) own.still
  | call callee args hc => exact change_call hc
  | resume f frames results hc hf => exact change_resume (by rw [posted?, hc]) hf results
  | abandon f frames r hc hf => exact change_abandon (by rw [posted?, hc]) hf r

/-- The pending response is the first that was posted; a step adds at most one. -/
theorem step_pending (h : m.step = .inl m') : m'.world.pending = m.world.pending.or m.posted? := by
  cases step_change h with
  | still quiet still => rw [still.kept.pending, quiet, Option.or_none]
  | posted r posted world => rw [world, World.post_pending, posted]
  | began r p l quiet prepared kept => rw [kept.pending, quiet, Option.or_none]
  | dropped l quiet kept => rw [kept.pending, quiet, Option.or_none]
  | appended l state quiet unfinished kept => rw [kept.pending, quiet, Option.or_none]; rfl
  | executed l value quiet kept =>
    rw [kept.pending, quiet, Option.or_none]
    exact (World.kept_publish m.world l.owner.symbols).pending

/-- A step changes the units and symbols of a program, no more. -/
theorem step_ground {p' : Program} (h : m.step = .inl m') (hp : m'.world.program = some p') :
    ∃ p, m.world.program = some p ∧ p.SameGround p' := by
  cases step_change h with
  | still quiet still => exact ⟨p', still.kept.program.symm.trans hp, rfl, rfl, rfl, rfl⟩
  | posted r posted world =>
    rw [world, (World.same_post m.world r).program] at hp
    exact ⟨p', hp, rfl, rfl, rfl, rfl⟩
  | began r p l quiet prepared kept => exact ⟨p', kept.program.symm.trans hp, rfl, rfl, rfl, rfl⟩
  | dropped l quiet kept => exact ⟨p', kept.program.symm.trans hp, rfl, rfl, rfl, rfl⟩
  | appended l state quiet unfinished kept =>
    obtain ⟨p, installed, rfl⟩ := Option.map_eq_some_iff.1 (kept.program.symm.trans hp)
    exact ⟨p, installed, rfl, rfl, rfl, rfl⟩
  | executed l value quiet kept =>
    have bound := (World.kept_publish m.world l.owner.symbols).append l (.executed value)
    obtain ⟨_, updated, rfl⟩ := Option.map_eq_some_iff.1 ((bound.trans kept).program.symm.trans hp)
    obtain ⟨p, installed, rfl⟩ := Option.map_eq_some_iff.1 updated
    exact ⟨p, installed, rfl, rfl, rfl, rfl⟩

/-- A program that is in place stays there, and no step puts one in place. -/
theorem step_placed (h : m.step = .inl m') : m'.world.program.isSome = m.world.program.isSome := by
  cases step_change h with
  | still quiet still => rw [still.kept.program]
  | posted r posted world => rw [world, (World.same_post m.world r).program]
  | began r p l quiet prepared kept => rw [kept.program]
  | dropped l quiet kept => rw [kept.program]
  | appended l state quiet unfinished kept =>
    rw [kept.program]
    exact Option.isSome_map
  | executed l value quiet kept =>
    have bound := (World.kept_publish m.world l.owner.symbols).append l (.executed value)
    rw [(bound.trans kept).program]
    simp [World.append, World.updateProgram]

/-- What is read off the ground of a program stays, and so does its absence. -/
theorem step_map {g : Program → α} (same : ∀ {p p' : Program}, p.SameGround p' → g p' = g p) (h : m.step = .inl m') :
    m'.world.program.map g = m.world.program.map g := by
  cases after : m'.world.program with
  | none =>
    have placed := step_placed h
    cases before : m.world.program with
    | none => rfl
    | some p =>
      rw [after, before] at placed
      cases placed
  | some p' =>
    obtain ⟨p, before, ground⟩ := step_ground h after
    rw [before]
    exact congrArg some (same ground)

/-- No step changes the configuration. -/
theorem step_config (h : m.step = .inl m') : m'.world.config = m.world.config := by
  cases step_change h with
  | still quiet still => exact still.kept.config
  | posted r posted world => rw [world]; exact (World.same_post m.world r).config
  | began r p l quiet prepared kept => exact kept.config
  | dropped l quiet kept => exact kept.config
  | appended l state quiet unfinished kept => exact kept.config
  | executed l value quiet kept =>
    exact kept.config.trans (World.kept_publish m.world l.owner.symbols).config

end Machine

end UnitHost
