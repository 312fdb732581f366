import UnitHost.Proofs.Panic
import UnitHost.Proofs.PhaseLabels

/-!
# What a step does to the console

A step leaves the console alone or adds one entry, and closes groups first if it ends an entry phase: `Machine.leaving` is
the console then. Only a panic does something else, it closes every group there is. `Machine.step_prints` says so once, and
`Machine.step_phase` says which number of open groups an entry phase begins with. `closings` lists the entries that closing
groups makes.

What a host call does with its range is the equation `Action.run_hostCall`: `HostCall.given` says what it does with the
text, `HostCall.refused` what it does without.
-/

namespace UnitHost

open Wasm

/-! Closing groups. -/

/-- The entries that close groups, innermost first, while more than `depth` of `current` are open. -/
def closings (depth current : Nat) : List Event := (List.range' depth (current - depth)).reverse.map .closed

theorem closings_of_le {depth current : Nat} (h : current ≤ depth) : closings depth current = [] := by
  unfold closings
  rw [Nat.sub_eq_zero_of_le h]
  rfl

theorem closings_succ {depth current : Nat} (h : depth ≤ current) :
    closings depth (current + 1) = .closed current :: closings depth current := by
  have more : current + 1 - depth = current - depth + 1 := by omega
  have last : depth + 1 * (current - depth) = current := by omega
  unfold closings
  rw [more, List.range'_concat, List.reverse_append, List.map_append, last]
  rfl

/-- The last group that is closed is the outermost. -/
theorem closings_concat {depth current : Nat} (h : depth < current) :
    closings depth current = closings (depth + 1) current ++ [.closed depth] := by
  have more : current - depth = current - (depth + 1) + 1 := by omega
  unfold closings
  rw [more, List.range'_succ, List.reverse_cons, List.map_append]
  rfl

theorem mem_closings {depth current : Nat} {e : Event} :
    e ∈ closings depth current ↔ ∃ inner, depth ≤ inner ∧ inner < current ∧ e = .closed inner := by
  unfold closings
  simp only [List.mem_map, List.mem_reverse, List.mem_range'_1]
  constructor
  · rintro ⟨inner, ⟨low, high⟩, rfl⟩
    exact ⟨inner, low, by omega, rfl⟩
  · rintro ⟨inner, low, high, rfl⟩
    exact ⟨inner, ⟨low, by omega⟩, rfl⟩

namespace Console

theorem depth_close (c : Console) (n : Nat) : (c.close n).depth = c.depth - n := by
  induction n generalizing c with
  | zero => rfl
  | succ n ih =>
    unfold close
    split
    · rename_i none
      omega
    · rename_i depth open_
      rw [ih, open_]
      show depth - n = depth + 1 - (n + 1)
      omega

theorem events_close (c : Console) (n : Nat) :
    (c.close n).events.toList = c.events.toList ++ closings (c.depth - n) c.depth := by
  induction n generalizing c with
  | zero =>
    rw [Nat.sub_zero, closings_of_le (Nat.le_refl _), List.append_nil]
    rfl
  | succ n ih =>
    unfold close
    split
    · rename_i none
      rw [none, closings_of_le (Nat.zero_le _), List.append_nil]
    · rename_i depth open_
      have left : depth + 1 - (n + 1) = depth - n := by omega
      rw [ih, open_, left, closings_succ (Nat.sub_le _ _), record, Array.toList_push, List.append_assoc]
      rfl

@[simp] theorem depth_closeTo (c : Console) (depth : Nat) : (c.closeTo depth).depth = min depth c.depth := by
  rw [closeTo, depth_close]
  omega

theorem events_closeTo (c : Console) (depth : Nat) :
    (c.closeTo depth).events.toList = c.events.toList ++ closings depth c.depth := by
  rw [closeTo, events_close]
  rcases Nat.le_total c.depth depth with few | many
  · rw [closings_of_le few, closings_of_le (by omega)]
  · have left : c.depth - (c.depth - depth) = depth := by omega
    rw [left]

/-- Where there are not more groups open, none is closed. -/
theorem closeTo_of_le {c : Console} {depth : Nat} (h : c.depth ≤ depth) : c.closeTo depth = c := by
  rw [closeTo, Nat.sub_eq_zero_of_le h]
  rfl

@[simp] theorem depth_message (c : Console) (channel : Channel) (text : String) :
    (c.message channel text).depth = c.depth := rfl

theorem events_message (c : Console) (channel : Channel) (text : String) :
    (c.message channel text).events.toList = c.events.toList ++ [.message channel c.depth text] :=
  Array.toList_push

theorem events_openGroup (c : Console) (label : String) :
    (c.openGroup label).events.toList = c.events.toList ++ [.opened c.depth label] :=
  Array.toList_push

end Console

theorem Journal.console_unwind (j : Journal) : j.unwind.console = j.console.closeTo 0 := by
  unfold unwind
  split
  · rename_i none
    exact (Console.closeTo_of_le (Nat.le_of_eq none)).symm
  · rfl

/-! Host calls. -/

namespace HostCall

/-- What a host call does with the text of its range. The two that read no text do nothing here. -/
def given (call : HostCall) (text : String) (w : World) : Except Failure Unit × World :=
  match call with
  | .log => (.ok (), { w with journal := w.journal.message .log text })
  | .warn => (.ok (), { w with journal := w.journal.message .warn text })
  | .error => (.ok (), { w with journal := w.journal.message .error text })
  | .panicError => (.error (.fatal text), { w with journal := w.journal.unwind.message .error text })
  | .group => (.ok (), { w with journal := w.journal.openGroup text })
  | .mark => (.ok (), { w with journal := w.journal.mark text w.clock })
  | .postOutput => (.ok (), w.post (.output text))
  | .postError => (.ok (), w.post (.error text))
  | .groupEnd | .compileInit => (.ok (), w)

/-- What it does if it cannot have the text. -/
def refused (call : HostCall) (f : Failure) (w : World) : Except Failure Unit × World :=
  match call with
  | .panicError => (.error f, { w with journal := w.journal.unwind })
  | .mark => (.ok (), w.note (.markIgnored f))
  | _ => (.error f, w)

/-- Whether a host call by itself reads a range. -/
def reads : HostCall → Bool
  | .groupEnd | .compileInit => false
  | _ => true

end HostCall

theorem Action.run_hostCall {call : HostCall} (reads : call.reads = true) (address count : UInt32) (w : World) :
    (hostCall call address count).run.run w =
      match w.decoded address count with
      | .ok text => call.given text w
      | .error f => call.refused f w := by
  cases call with
  | groupEnd => cases reads
  | compileInit => cases reads
  | panicError =>
    unfold hostCall panicError
    rw [run_bind, run_attempt, run_decode]
    cases w.decoded address count <;> rfl
  | mark =>
    unfold hostCall mark
    rw [run_bind, run_attempt, run_decode]
    cases w.decoded address count <;> rfl
  | postOutput => exact run_post .output address count w
  | postError => exact run_post .error address count w
  | log | warn | error =>
    unfold hostCall message
    rw [run_bind, run_decode]
    cases w.decoded address count <;> rfl
  | group =>
    unfold hostCall group
    rw [run_bind, run_decode]
    cases w.decoded address count <;> rfl

/-! Entry phases. -/

namespace Frame

/-- The number of groups that were open when the entry phase began that a frame waits for. -/
def phase? : Frame → Option Nat
  | .staticInit _ _ _ depth | .main _ depth => some depth
  | .caller _ | .start _ | .report _ => none

/-- What is said about the result of a static initializer. -/
def complaint? (f : Frame) (abi : Abi) (o : Outcome) : Option String :=
  match f, o with
  | .staticInit .., .ok results =>
    if signed (results.headD .null).word = 0 then none
    else some s!"assertion failed: {abi.staticInit} returned {(signed (results.headD .null).word).toInt}, expected 0"
  | _, _ => none

/-- The label of the entry phase that follows. -/
def following? (f : Frame) (abi : Abi) (o : Outcome) : Option String :=
  match f, o with
  | .staticInit _ _ next _, .ok results =>
    if signed (results.headD .null).word = 0 then some (phaseLabel next abi.main) else none
  | _, _ => none

end Frame

namespace Console

/-- The end of an entry phase: what is said about its result, and then the groups that are open are closed. -/
def leave (c : Console) (complaint : Option String) (depth : Nat) : Console :=
  (complaint.elim c (c.message .error)).closeTo depth

theorem depth_leave (c : Console) (complaint : Option String) (depth : Nat) :
    (c.leave complaint depth).depth = min depth c.depth := by
  cases complaint <;> exact depth_closeTo _ depth

theorem events_leave (c : Console) (complaint : Option String) (depth : Nat) :
    (c.leave complaint depth).events.toList =
      c.events.toList ++ complaint.toList.map (.message .error c.depth) ++ closings depth c.depth := by
  cases complaint with
  | none =>
    rw [leave, Option.elim_none, events_closeTo]
    simp
  | some text =>
    rw [leave, Option.elim_some, events_closeTo, events_message]
    rfl

/-- Nothing is added to a console, or one entry that can be made then. -/
inductive Adds (c : Console) : Console → Prop where
  | nothing : Adds c c
  | entry (e : Event) (depth : Nat) (replays : e.replay c.depth = some depth) :
      Adds c { c.record e with depth := depth }

variable {c c' : Console}

theorem adds_of_eq (h : c' = c) : c.Adds c' := h ▸ .nothing

theorem adds_message (c : Console) (channel : Channel) (text : String) : c.Adds (c.message channel text) :=
  .entry _ c.depth (if_pos rfl)

theorem adds_openGroup (c : Console) (label : String) : c.Adds (c.openGroup label) :=
  .entry _ (c.depth + 1) (if_pos rfl)

theorem adds_mark (c : Console) (name : String) (elapsed : Nat) : c.Adds (c.mark name elapsed) :=
  .entry _ c.depth rfl

theorem adds_closeGroup (h : c.closeGroup = .ok c') : c.Adds c' := by
  obtain ⟨depth, opened, rfl⟩ := closeGroup_ok h
  exact .entry _ depth (if_pos opened.symm)

end Console

namespace HostCall

variable {call : HostCall}

/-- A call that has its text makes at most one entry, unless it panics. -/
theorem adds_given (calm : call ≠ .panicError) (text : String) (w : World) :
    w.journal.console.Adds (call.given text w).2.journal.console := by
  cases call with
  | panicError => exact absurd rfl calm
  | log | warn | error => exact Console.adds_message _ _ _
  | group => exact Console.adds_openGroup _ _
  | mark => exact Console.adds_mark _ _ _
  | postOutput | postError => exact Console.adds_of_eq (congrArg Prod.fst (World.timed_post _ _))
  | groupEnd | compileInit => exact .nothing

theorem console_refused (calm : call ≠ .panicError) (f : Failure) (w : World) :
    (call.refused f w).2.journal.console = w.journal.console := by
  cases call with
  | panicError => exact absurd rfl calm
  | log | warn | error | group | groupEnd | mark | compileInit | postOutput | postError => rfl

end HostCall

/-- The console is as it was. -/
def World.SameConsole (w w' : World) : Prop := w'.journal.console = w.journal.console

instance : IsPreorder World World.SameConsole where
  refl _ := rfl
  trans _ _ _ h h' := Eq.trans h' h

theorem Action.console_prepare (r : LinkRequest) : Respects World.SameConsole (prepare r) :=
  respects_linking (fun _ _ => rfl) (fun _ _ => rfl) r

namespace Machine

variable {m m' : Machine} {f : Frame} {o : Outcome} {l : Linking}

/-- The console once the entry phase that the next step ends, if it ends one, has closed its groups. -/
def leaving (m : Machine) : Console :=
  match m.received? with
  | some (f, o) =>
    f.phase?.elim m.world.journal.console (m.world.journal.console.leave (f.complaint? m.world.config.abi o))
  | none => m.world.journal.console

theorem leaving_of_unreceived (h : m.received? = none) : m.leaving = m.world.journal.console := by
  unfold leaving
  rw [h]

theorem leaving_of_other (h : m.received? = some (f, o)) (other : f.phase? = none) :
    m.leaving = m.world.journal.console := by
  unfold leaving
  rw [h]
  dsimp only
  rw [other]
  rfl

theorem leaving_of_phase {depth : Nat} (h : m.received? = some (f, o)) (phase : f.phase? = some depth) :
    m.leaving = m.world.journal.console.leave (f.complaint? m.world.config.abi o) depth := by
  unfold leaving
  rw [h]
  dsimp only
  rw [phase]
  rfl

theorem depth_leaving {depth : Nat} (h : m.received? = some (f, o)) (phase : f.phase? = some depth) :
    m.leaving.depth = min depth m.world.depth := by
  rw [leaving_of_phase h phase]
  exact Console.depth_leave _ _ depth

theorem events_leaving {depth : Nat} (h : m.received? = some (f, o)) (phase : f.phase? = some depth) :
    m.leaving.events.toList = m.world.recorded ++
      (f.complaint? m.world.config.abi o).toList.map (.message .error m.world.depth) ++ closings depth m.world.depth := by
  rw [leaving_of_phase h phase]
  exact Console.events_leave _ _ depth

/-- A phase that is over has closed its groups; the next one has opened its own. -/
theorem receive_console {depth : Nat} (phase : f.phase? = some depth) (m : Machine) (o : Outcome) :
    (m.receive f o).world.journal.console =
      (f.following? m.world.config.abi o).elim
        (m.world.journal.console.leave (f.complaint? m.world.config.abi o) depth)
        (m.world.journal.console.leave (f.complaint? m.world.config.abi o) depth).openGroup := by
  cases f with
  | caller a => cases phase
  | start l => cases phase
  | report index => cases phase
  | staticInit l main next outer =>
    cases phase
    cases o with
    | error r => rfl
    | ok results =>
      unfold receive resume initialized Frame.following? Frame.complaint?
      dsimp only
      split <;> rfl
  | main l outer =>
    cases phase
    cases o with
    | error r => rfl
    | ok results =>
      have published := World.console_publish (m.closePhase depth).world l.owner.symbols
      unfold receive resume executed
      dsimp only
      repeat' split
      all_goals exact published

theorem step_leaving {depth : Nat} (received : m.received? = some (f, o)) (phase : f.phase? = some depth) :
    ∃ m', m.step = .inl m' ∧
      m'.world.journal.console = (f.following? m.world.config.abi o).elim m.leaving m.leaving.openGroup := by
  refine ⟨_, (step_received received).1, ?_⟩
  rw [leaving_of_phase received phase]
  exact receive_console phase m.pop o

/-! What a step adds to the console. -/

/-- What a step does to the console. -/
inductive Prints (m m' : Machine) : Prop where
  | adds (adds : m.leaving.Adds m'.world.journal.console)
  /-- A panic whose range cannot be decoded closes every group. -/
  | unwound (args : List Value) (control : m.control = .call (.host .panicError) args)
      (closed : m'.world.journal.console = m.world.journal.console.closeTo 0)
  /-- A panic closes every group before its message. -/
  | panicked (text : String) (panic : m.panic? = some text)
      (said : m'.world.journal.console = (m.world.journal.console.closeTo 0).message .error text)

theorem Local.console (h : m.Local m') : m'.world.journal.console = m.world.journal.console := by
  cases h <;> rfl

theorem adds_enterUnit (m : Machine) (l : Linking) :
    m.world.journal.console.Adds (m.enterUnit l).world.journal.console := by
  unfold enterUnit
  dsimp only
  repeat' split
  · exact .nothing
  · exact .nothing
  · exact Console.adds_openGroup _ _

theorem adds_link (m : Machine) (r : LinkRequest) : m.world.journal.console.Adds (m.link r).world.journal.console := by
  have same := Action.console_prepare r m.world
  unfold World.SameConsole at same
  unfold link
  rcases run : (Action.prepare r).run.run m.world with ⟨f | l, w⟩
  · rw [run] at same
    exact Console.adds_of_eq same
  · rw [run] at same
    dsimp only
    split
    · exact Console.adds_of_eq same
    · have entered := adds_enterUnit { m with world := w } l
      dsimp only at same entered
      rwa [same] at entered

theorem prints_of_unreceived (unreceived : m.received? = none)
    (adds : m.world.journal.console.Adds m'.world.journal.console) : m.Prints m' := by
  rw [← leaving_of_unreceived unreceived] at adds
  exact .adds adds

/-- What a host call does by itself to the console. -/
theorem prints_hostCall {call : HostCall} {args : List Value} {result : Except Failure Unit} {world : World}
    (hc : m.control = .call (.host call) args)
    (run : (Action.hostCall call (args.getD 0 .null).word (args.getD 1 .null).word).run.run m.world = (result, world))
    (c : Control) : m.Prints { m with world, control := c } := by
  have unreceived : m.received? = none := by simp [received?, hc]
  cases reads : call.reads with
  | false =>
    apply prints_of_unreceived unreceived
    cases call with
    | groupEnd =>
      rw [Action.hostCall, Action.run_groupEnd] at run
      unfold Journal.closeGroup at run
      cases closed : m.world.journal.console.closeGroup with
      | error f =>
        rw [closed] at run
        cases run
        exact .nothing
      | ok console =>
        rw [closed] at run
        cases run
        exact Console.adds_closeGroup closed
    | compileInit =>
      cases run
      exact .nothing
    | log | warn | error | panicError | group | mark | postOutput | postError => cases reads
  | true =>
    rw [Action.run_hostCall reads, ← argumentText] at run
    by_cases panic : call = .panicError
    · subst panic
      cases decoded : m.argumentText args with
      | error f =>
        rw [decoded] at run
        cases run
        exact .unwound args hc m.world.journal.console_unwind
      | ok text =>
        rw [decoded] at run
        cases run
        refine .panicked text (by rw [panic?, hc]; dsimp only; rw [decoded]; rfl) ?_
        exact congrArg (Console.message · .error text) m.world.journal.console_unwind
    · apply prints_of_unreceived unreceived
      cases decoded : m.argumentText args with
      | error f =>
        have same := HostCall.console_refused panic f m.world
        rw [decoded] at run
        dsimp only at run
        rw [run] at same
        exact Console.adds_of_eq same
      | ok text =>
        have adds := HostCall.adds_given panic text m.world
        rw [decoded] at run
        dsimp only at run
        rw [run] at adds
        exact adds

theorem prints_call {callee : Callee} {args : List Value} (hc : m.control = .call callee args) :
    m.Prints (m.call callee args) := by
  have unreceived : m.received? = none := by simp [received?, hc]
  unfold call
  split
  · apply prints_of_unreceived unreceived
    repeat' split
    all_goals exact .nothing
  · exact prints_of_unreceived unreceived (adds_link m _)
  · split
    · exact prints_hostCall hc ‹_› _
    · exact prints_hostCall hc ‹_› _

/-- A frame that is not in an entry phase leaves the console alone, or its unit goes into its first one. -/
theorem adds_receive (other : f.phase? = none) (m : Machine) (o : Outcome) :
    m.world.journal.console.Adds (m.receive f o).world.journal.console := by
  cases f with
  | caller a => cases o <;> exact .nothing
  | start l =>
    cases o with
    | error r => exact .nothing
    | ok results => exact adds_enterUnit m l
  | report index => cases o <;> exact .nothing
  | staticInit l main next depth => cases other
  | main l depth => cases other

theorem step_prints (h : m.step = .inl m') : m.Prints m' := by
  cases hr : m.received? with
  | some received =>
    obtain ⟨f, o⟩ := received
    refine .adds ?_
    cases phase : f.phase? with
    | none =>
      rw [(step_received hr).1] at h
      cases h
      rw [leaving_of_other hr phase]
      exact adds_receive phase m.pop o
    | some depth =>
      obtain ⟨next, step, console⟩ := step_leaving hr phase
      rw [h] at step
      cases step
      rw [console]
      cases f.following? m.world.config.abi o with
      | none => exact .nothing
      | some label => exact Console.adds_openGroup _ _
  | none =>
    cases step_taken h with
    | code a _ hc own => exact prints_of_unreceived hr (Console.adds_of_eq own.console)
    | call callee args hc => exact prints_call hc
    | resume f frames results hc hf => simp [received?, hc, hf] at hr
    | abandon f frames r hc hf => simp [received?, hc, hf] at hr

/-! Going into an entry phase. -/

theorem receive_phase {g : Frame} {depth : Nat} (received : m.received? = some (f, o))
    (pushed : (m.pop.receive f o).frames = g :: m.pop.frames) (phase : g.phase? = some depth) :
    depth = m.leaving.depth ∧
      ∃ label, (m.pop.receive f o).world.journal.console = m.leaving.openGroup label := by
  cases f with
  | caller a => cases o <;> exact not_pushed pushed
  | report index => cases o <;> exact not_pushed pushed
  | start l =>
    cases o with
    | error r => exact not_pushed pushed
    | ok results =>
      obtain ⟨main, rfl, -, console⟩ := enterUnit_pushed pushed
      cases phase
      rw [leaving_of_other received rfl]
      exact ⟨rfl, _, console⟩
  | staticInit l main next outer =>
    have console := receive_console (f := .staticInit l main next outer) rfl m.pop o
    rw [leaving_of_phase received rfl]
    cases o with
    | error r => exact not_pushed pushed
    | ok results =>
      unfold receive resume initialized at pushed console ⊢
      unfold Frame.following? at console
      unfold Frame.complaint? at console ⊢
      dsimp only at pushed console ⊢
      split at pushed
      · rename_i zero
        simp only [if_pos zero] at console ⊢
        cases pushed
        cases phase
        exact ⟨rfl, _, console⟩
      · exact not_pushed pushed
  | main l outer =>
    cases o with
    | error r => exact not_pushed pushed
    | ok results =>
      unfold receive resume executed at pushed
      dsimp only at pushed
      split at pushed
      · exact not_pushed pushed
      · split at pushed
        · exact not_pushed pushed
        · cases pushed
          cases phase

theorem link_phase {r : LinkRequest} {depth : Nat} (pushed : (m.link r).frames = f :: m.frames)
    (phase : f.phase? = some depth) :
    depth = m.world.depth ∧ ∃ label, (m.link r).world.journal.console = m.world.journal.console.openGroup label := by
  have same := Action.console_prepare r m.world
  unfold World.SameConsole at same
  unfold link at pushed ⊢
  rcases run : (Action.prepare r).run.run m.world with ⟨fault | l, w⟩
  · rw [run] at pushed
    exact not_pushed pushed
  · rw [run] at pushed same
    dsimp only at pushed same ⊢
    cases start : l.module.start.bind (l.owner.funcs[·]?) with
    | some callee =>
      rw [start] at pushed
      cases pushed
      cases phase
    | none =>
      rw [start] at pushed
      obtain ⟨main, rfl, -, console⟩ := enterUnit_pushed (m := { m with world := w }) pushed
      cases phase
      dsimp only at console ⊢
      rw [same] at console
      exact ⟨congrArg Console.depth same, _, console⟩

/-- A step that goes into an entry phase opens its group, after those of the phase before it are closed. -/
theorem step_phase {depth : Nat} (h : m.step = .inl m') (pushed : m'.frames = f :: m.base)
    (phase : f.phase? = some depth) :
    depth = m.leaving.depth ∧ ∃ label, m'.world.journal.console = m.leaving.openGroup label := by
  cases hr : m.received? with
  | some received =>
    obtain ⟨g, o⟩ := received
    rw [(step_received hr).1] at h
    cases h
    rw [base_of_received hr] at pushed
    exact receive_phase hr pushed phase
  | none =>
    rw [base_of_unreceived hr] at pushed
    rw [leaving_of_unreceived hr]
    cases step_taken h with
    | code a _ hc own =>
      cases own with
      | invoke a callee type =>
        cases pushed
        cases phase
      | go c => exact not_pushed pushed
      | memory address memory a le => exact not_pushed pushed
      | table address table a le => exact not_pushed pushed
      | global address v a => exact not_pushed pushed
    | call callee args hc =>
      unfold call at pushed ⊢
      split at pushed
      · repeat' split at pushed
        all_goals exact not_pushed pushed
      · exact link_phase pushed phase
      · split at pushed <;> exact not_pushed pushed
    | resume g rest results hc hf => simp [received?, hc, hf] at hr
    | abandon g rest r hc hf => simp [received?, hc, hf] at hr

end Machine

end UnitHost
