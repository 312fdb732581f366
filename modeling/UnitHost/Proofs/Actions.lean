import Mathlib.Order.Defs.Unbundled
import UnitHost.Session

/-!
# What actions leave alone

An action may fail half way, and what it changed by then stays changed. `Action.Respects R` relates
the world before an action to the world after it, however it ends, so one lemma covers success and
failure. Posting aside, nothing the host does while code runs touches the program or the pending
response: `respects_hostCall` and `keeps_prepare`. Posting itself is the equation `run_post`,
and a link that was prepared gives its facts through `prepare_ok`.
-/

namespace UnitHost

open Wasm

/-- The program, its setting and the pending response are the same. -/
structure World.Kept (w w' : World) : Prop where
  engine : w'.engine = w.engine
  config : w'.config = w.config
  program : w'.program = w.program
  pending : w'.pending = w.pending

/-- The program and its setting are the same; objects, log and pending response may differ. -/
structure World.SameProgram (w w' : World) : Prop where
  engine : w'.engine = w.engine
  config : w'.config = w.config
  program : w'.program = w.program

namespace World

theorem SameProgram.trans {w w' w'' : World} (h : SameProgram w w') (h' : SameProgram w' w'') :
    SameProgram w w'' :=
  ⟨h'.engine.trans h.engine, h'.config.trans h.config, h'.program.trans h.program⟩

theorem SameProgram.units {w w' : World} (h : SameProgram w w') : w'.units = w.units := by
  unfold World.units
  rw [h.program]

theorem Kept.same {w w' : World} (h : Kept w w') : SameProgram w w' := ⟨h.engine, h.config, h.program⟩

theorem Kept.refl (w : World) : Kept w w := ⟨rfl, rfl, rfl, rfl⟩

theorem Kept.trans {w w' w'' : World} (h : Kept w w') (h' : Kept w' w'') : Kept w w'' :=
  ⟨h'.engine.trans h.engine, h'.config.trans h.config, h'.program.trans h.program,
    h'.pending.trans h.pending⟩

theorem same_post (w : World) (r : Response) : SameProgram w (w.post r) := by
  unfold post
  split <;> exact ⟨rfl, rfl, rfl⟩

theorem Kept.symm {w w' : World} (h : Kept w w') : Kept w' w :=
  ⟨h.engine.symm, h.config.symm, h.program.symm, h.pending.symm⟩

instance : IsPreorder World Kept where
  refl := Kept.refl
  trans _ _ _ := Kept.trans

/-- The objects are as before. -/
def SameStore (w w' : World) : Prop := w'.store = w.store

instance : IsPreorder World SameStore where
  refl _ := rfl
  trans _ _ _ same same' := same'.trans same

theorem post_pending (w : World) (r : Response) : (w.post r).pending = w.pending.or (some r) := by
  unfold post
  cases h : w.pending with
  | none => rfl
  | some _ => exact h

theorem kept_journal (w : World) (j : Journal) : Kept w { w with journal := j } := ⟨rfl, rfl, rfl, rfl⟩

theorem kept_note (w : World) (n : Notice) : Kept w (w.note n) := kept_journal w _

/-- Changing objects keeps the program. -/
theorem kept_store (w : World) (s : Store) : Kept w { w with store := s } := ⟨rfl, rfl, rfl, rfl⟩

theorem kept_noteAll (w : World) (ns : List Notice) : Kept w (w.noteAll ns) := by
  induction ns generalizing w with
  | nil => exact .refl w
  | cons n ns ih =>
    exact (kept_note w n).trans (ih (w.note n))

/-- Publishing binds the exports and changes nothing else but the log. -/
theorem kept_publish (w : World) (exports : List (String × Extern)) :
    Kept (w.updateProgram fun p => { p with symbols := p.symbols.publish w.config.abi exports })
      (w.publish exports) := by
  unfold publish
  cases hp : w.program with
  | none => exact ⟨rfl, rfl, by simp [updateProgram, hp], rfl⟩
  | some p =>
    have noted := kept_noteAll w (p.symbols.notices w.config.abi exports)
    exact ⟨noted.engine, noted.config, by simp only [updateProgram, noted.program], noted.pending⟩

theorem units_publish (w : World) (exports : List (String × Extern)) : (w.publish exports).units = w.units := by
  rw [(kept_publish w exports).same.units]
  unfold World.units World.updateProgram
  cases w.program <;> rfl

theorem units_append (w : World) (l : Linking) (state : UnitState) : w.units <+: (w.append l state).2.units := by
  unfold World.units append World.updateProgram
  cases w.program with
  | none => exact List.prefix_rfl
  | some p => exact List.prefix_append _ _

theorem unit_of_prefix {w w' : World} {i : Nat} {u : LinkedUnit} (units : w.units <+: w'.units)
    (found : w.units[i]? = some u) : w'.units[i]? = some u := by
  obtain ⟨inside, rfl⟩ := List.getElem?_eq_some_iff.1 found
  exact List.prefix_iff_getElem?.1 units i inside

theorem store_noteAll (w : World) (ns : List Notice) : (w.noteAll ns).store = w.store := by
  induction ns generalizing w with
  | nil => rfl
  | cons n ns ih => exact ih (w.note n)

theorem store_publish (w : World) (exports : List (String × Extern)) : (w.publish exports).store = w.store := by
  unfold publish
  split
  · rfl
  · exact store_noteAll w _

theorem store_post (w : World) (r : Response) : (w.post r).store = w.store := by
  unfold post
  split <;> rfl

theorem Kept.updateProgram {w w' : World} (h : Kept w w') (f : Program → Program) :
    Kept (w.updateProgram f) (w'.updateProgram f) :=
  ⟨h.engine, h.config, congrArg (Option.map f) h.program, h.pending⟩

theorem Kept.publish {w w' : World} (h : Kept w w') (exports : List (String × Extern)) :
    Kept (w.publish exports) (w'.publish exports) := by
  have before := kept_publish w exports
  have after := kept_publish w' exports
  rw [h.config] at after
  have bound := h.updateProgram fun p => { p with symbols := p.symbols.publish w.config.abi exports }
  exact before.symm.trans (bound.trans after)

theorem Kept.append {w w' : World} (h : Kept w w') (l : Linking) (state : UnitState) :
    Kept (w.append l state).2 (w'.append l state).2 := h.updateProgram _

/-- The text in a range of the shared memory, once there is a program. -/
def decoded (w : World) (address count : UInt32) : Except Failure String :=
  match w.program with
  | some p => (w.memory p).readText address.toNat count.toNat
  | none => .error .programNotLoaded

/-! Growth of the shared objects. -/

/-- A memory takes the place of the shared one, if it is larger, and the growth is noted. -/
def enlargeMemory (w : World) (p : Program) (m : Memory) : World :=
  if (w.memory p).pages < m.pages then
    { w with store := w.store.setMemory p.memory m }.note (.memoryGrown (w.memory p).pages m.pages)
  else w

/-- A table takes the place of the shared one, if it is larger, and the growth is noted. -/
def enlargeTable (w : World) (p : Program) (t : Table) : World :=
  if (w.table p).size < t.size then
    { w with store := w.store.setTable p.table t }.note (.tableGrown (w.table p).size t.size)
  else w

section Enlarging

variable {R : World → World → Prop} [IsPreorder World R] {w : World} {p : Program}

theorem rel_enlargeMemory {m : Memory} (larger : (w.memory p).pages < m.pages →
    R w ({ w with store := w.store.setMemory p.memory m }.note (.memoryGrown (w.memory p).pages m.pages))) :
    R w (w.enlargeMemory p m) := by
  unfold enlargeMemory
  by_cases more : (w.memory p).pages < m.pages
  · rw [if_pos more]
    exact larger more
  · rw [if_neg more]
    exact refl_of R w

theorem rel_enlargeTable {t : Table} (wider : (w.table p).size < t.size →
    R w ({ w with store := w.store.setTable p.table t }.note (.tableGrown (w.table p).size t.size))) :
    R w (w.enlargeTable p t) := by
  unfold enlargeTable
  by_cases more : (w.table p).size < t.size
  · rw [if_pos more]
    exact wider more
  · rw [if_neg more]
    exact refl_of R w

end Enlarging

theorem tables_enlargeMemory (w : World) (p : Program) (m : Memory) :
    (w.enlargeMemory p m).store.tables = w.store.tables := by
  unfold enlargeMemory
  split <;> rfl

theorem table_enlargeMemory (w : World) (p : Program) (m : Memory) : (w.enlargeMemory p m).table p = w.table p := by
  unfold World.table Store.table
  rw [tables_enlargeMemory]

theorem memory_enlargeTable (w : World) (p : Program) (t : Table) : (w.enlargeTable p t).memory p = w.memory p := by
  unfold enlargeTable
  split <;> rfl

end World

namespace Action

variable {w w' : World}

theorem run_bind (a : Action α) (f : α → Action β) (w : World) :
    (a >>= f).run.run w =
      match a.run.run w with
      | (.ok x, w') => (f x).run.run w'
      | (.error e, w') => (.error e, w') := by
  change (match a.run.run w with
      | (r, w') => (ExceptT.bindCont f r).run w') = _
  rcases a.run.run w with ⟨_ | x, w'⟩ <;> rfl

theorem run_get (w : World) : (get : Action World).run.run w = (.ok w, w) := rfl

theorem run_ofExcept (r : Except Failure α) (w : World) : (ofExcept r).run.run w = (r, w) := by
  cases r <;> rfl

/-- A sequence succeeds only if both parts do. -/
theorem run_bind_ok {a : Action α} {f : α → Action β} {y : β}
    (h : (a >>= f).run.run w = (.ok y, w')) :
    ∃ x v, a.run.run w = (.ok x, v) ∧ (f x).run.run v = (.ok y, w') := by
  rw [run_bind] at h
  rcases ha : a.run.run w with ⟨e | x, v⟩
  · rw [ha] at h; cases h
  · rw [ha] at h; exact ⟨x, v, rfl, h⟩

/-- The worlds before and after are related, whether the action succeeds or fails. -/
def Respects (R : World → World → Prop) (a : Action α) : Prop := ∀ w, R w (a.run.run w).2

section Respects

variable {R : World → World → Prop}

theorem respects_modify {g : World → World} (h : ∀ w, R w (g w)) :
    Respects R (modify g : Action Unit) := h

theorem Respects.of_run {a : Action α} (ha : Respects R a) {result : Except Failure α}
    (run : a.run.run w = (result, w')) : R w w' := by
  have respected := ha w
  rwa [run] at respected

theorem Respects.attempt {a : Action α} (ha : Respects R a) : Respects R (attempt a) := ha

section Journal

-- Whatever does not speak of the console and the log.
variable (journal : ∀ (w : World) (j : Journal), R w { w with journal := j })

include journal

theorem respects_journal (g : World → Journal) :
    Respects R (modify fun w => { w with journal := g w } : Action Unit) :=
  respects_modify fun w => journal w (g w)

theorem respects_note (n : Notice) : Respects R (note n) :=
  respects_journal journal fun w => w.journal.note n

end Journal

variable [IsPreorder World R]

theorem respects_pure (x : α) : Respects R (pure x : Action α) := fun w => refl_of R w

theorem respects_throw (f : Failure) : Respects R (throw f : Action α) := fun w => refl_of R w

theorem respects_get : Respects R (get : Action World) := fun w => refl_of R w

theorem respects_ofExcept (r : Except Failure α) : Respects R (ofExcept r) := by
  intro w
  rw [run_ofExcept]
  exact refl_of R w

/-- The second part counts only for what the first can give. -/
theorem Respects.bind_of_ok {a : Action α} {f : α → Action β} (ha : Respects R a)
    (hf : ∀ {w x w'}, a.run.run w = (.ok x, w') → Respects R (f x)) : Respects R (a >>= f) := by
  intro w
  have before := ha w
  rw [run_bind]
  rcases hrun : a.run.run w with ⟨e | x, v⟩
  · rw [hrun] at before; exact before
  · rw [hrun] at before; exact trans_of R before (hf hrun v)

theorem Respects.bind {a : Action α} {f : α → Action β}
    (ha : Respects R a) (hf : ∀ x, Respects R (f x)) : Respects R (a >>= f) :=
  ha.bind_of_ok fun {_ x _} _ => hf x

theorem respects_forM {f : α → Action Unit} (hf : ∀ x, Respects R (f x)) (xs : List α) :
    Respects R (xs.forM f) := by
  induction xs with
  | nil => exact respects_pure ()
  | cons x xs ih => exact (hf x).bind fun _ => ih

theorem respects_foldlM {f : β → α → Action β} (hf : ∀ b x, Respects R (f b x)) (b : β)
    (xs : List α) : Respects R (xs.foldlM f b) := by
  induction xs generalizing b with
  | nil => exact respects_pure b
  | cons x xs ih => exact (hf b x).bind fun b => ih b

end Respects

/-! Reading. -/

theorem run_program (w : World) :
    program.run.run w = (match w.program with | some p => .ok p | none => .error .programNotLoaded, w) := by
  unfold program
  rw [run_bind]
  change (match w.program with | some p => pure p | none => throw .programNotLoaded : Action Program).run.run w = _
  cases w.program <;> rfl

theorem run_decode (address count : UInt32) (w : World) :
    (decode address count).run.run w = (w.decoded address count, w) := by
  unfold decode
  rw [run_bind, run_program]
  unfold World.decoded
  cases w.program with
  | none => rfl
  | some p => exact run_ofExcept _ w

theorem run_post (wrap : String → Response) (address count : UInt32) (w : World) :
    (post wrap address count).run.run w =
      match w.decoded address count with
      | .ok text => (.ok (), w.post (wrap text))
      | .error f => (.error f, w) := by
  unfold post
  rw [run_bind, run_decode]
  cases w.decoded address count <;> rfl

theorem run_attempt (a : Action α) (w : World) :
    (attempt a).run.run w = (.ok (a.run.run w).1, (a.run.run w).2) := rfl

/-- A panic with a text that can be decoded fails with it. -/
theorem run_panicError {address count : UInt32} {text : String} (h : w.decoded address count = .ok text) :
    ∃ v, (panicError address count).run.run w = (.error (.fatal text), v) := by
  unfold panicError
  rw [run_bind, run_attempt, run_decode, h]
  exact ⟨_, rfl⟩

/-! Host calls. -/

section HostCalls

variable {R : World → World → Prop} [IsPreorder World R]

theorem respects_program : Respects R program := by
  intro w
  rw [run_program]
  exact refl_of R w

theorem respects_decode (address count : UInt32) : Respects R (decode address count) := by
  intro w
  rw [run_decode]
  exact refl_of R w

variable (journal : ∀ (w : World) (j : Journal), R w { w with journal := j })

include journal

theorem respects_message (channel : Channel) (address count : UInt32) :
    Respects R (message channel address count) :=
  (respects_decode address count).bind fun _ => respects_journal journal _

theorem respects_group (address count : UInt32) : Respects R (group address count) :=
  (respects_decode address count).bind fun _ => respects_journal journal _

theorem respects_groupEnd : Respects R groupEnd :=
  respects_get.bind fun _ => (respects_ofExcept _).bind fun _ => respects_journal journal _

theorem respects_panicError (address count : UInt32) : Respects R (panicError address count) :=
  (respects_decode address count).attempt.bind fun _ => (respects_journal journal _).bind fun _ =>
    (respects_ofExcept _).bind fun _ => (respects_journal journal _).bind fun _ => respects_throw _

theorem respects_mark (address count : UInt32) : Respects R (mark address count) := by
  refine (respects_decode address count).attempt.bind fun text => ?_
  cases text with
  | ok name => exact respects_journal journal _
  | error f => exact respects_note journal _

/-- Posting aside, a host call changes the console and the log, no more. -/
theorem respects_hostCall {call : HostCall} (output : call ≠ .postOutput) (error : call ≠ .postError)
    (address count : UInt32) : Respects R (hostCall call address count) := by
  cases call with
  | log => exact respects_message journal _ _ _
  | warn => exact respects_message journal _ _ _
  | error => exact respects_message journal _ _ _
  | panicError => exact respects_panicError journal _ _
  | group => exact respects_group journal _ _
  | groupEnd => exact respects_groupEnd journal
  | mark => exact respects_mark journal _ _
  | compileInit => exact respects_pure ()
  | postOutput => exact absurd rfl output
  | postError => exact absurd rfl error

end HostCalls

/-- No host call by itself changes an object. -/
theorem respects_hostCall_store (call : HostCall) (address count : UInt32) :
    Respects World.SameStore (hostCall call address count) := by
  have posted (wrap : String → Response) : Respects World.SameStore (post wrap address count) := by
    intro w
    rw [run_post]
    cases w.decoded address count with
    | error f => rfl
    | ok text => exact w.store_post (wrap text)
  by_cases output : call = .postOutput
  · subst output
    exact posted .output
  by_cases error : call = .postError
  · subst error
    exact posted .error
  exact respects_hostCall (fun _ _ => rfl) output error address count

/-! Linking up to a unit's own code. -/

section Linking

variable {R : World → World → Prop} [IsPreorder World R]

theorem respects_define (d : Definitions) (module name : String) (object : Extern) :
    Respects R (define d module name object) := by
  unfold define
  split
  · exact respects_pure _
  · exact respects_throw _

theorem respects_compile (bytes : List UInt8) : Respects R (compile bytes) := by
  refine respects_get.bind fun w => ?_
  split
  · exact respects_pure _
  · exact respects_throw _

theorem respects_importObject (constant : ∀ n, Respects R (Action.constant n)) (p : Program)
    (memoryBase tableBase : Nat) : Respects R (importObject p memoryBase tableBase) :=
  respects_get.bind fun _ => (constant _).bind fun _ => (constant _).bind fun _ =>
    (respects_define _ _ _ _).bind fun _ => (respects_define _ _ _ _).bind fun _ =>
      respects_foldlM (fun _ _ => respects_define _ _ _ _) _ _

theorem run_compile_ok {bytes : List UInt8} {m : Module} {w w' : World}
    (h : (compile bytes).run.run w = (.ok m, w')) : w.engine.compile? bytes = some m ∧ w' = w := by
  unfold compile at h
  obtain ⟨_, _, hget, h⟩ := run_bind_ok h
  cases hget
  cases hm : w.engine.compile? bytes with
  | none => rw [hm] at h; cases h
  | some found => rw [hm] at h; cases h; exact ⟨rfl, rfl⟩

/-- Linking a unit up to its start function grows memory and table, allocates globals and lets a
module that was compiled join the store; all else reads. -/
theorem respects_prepare_compiled (grow : ∀ p i, Respects R (growForImport p i))
    (constant : ∀ n, Respects R (Action.constant n))
    (instantiate : ∀ (engine : Engine) bytes d m, engine.compile? bytes = some m → Respects R (Action.instantiate d m))
    (r : LinkRequest) : Respects R (prepare r) :=
  respects_program.bind fun _ => respects_get.bind fun _ => (respects_ofExcept _).bind fun _ =>
    (respects_compile _).bind_of_ok fun compiled => (respects_ofExcept _).bind fun _ =>
      (respects_forM (grow _) _).bind fun _ => (respects_importObject constant _ _ _).bind fun _ =>
        (instantiate _ _ _ _ (run_compile_ok compiled).1).bind fun _ => respects_pure _

theorem respects_prepare (grow : ∀ p i, Respects R (growForImport p i))
    (constant : ∀ n, Respects R (Action.constant n))
    (instantiate : ∀ d m, Respects R (Action.instantiate d m)) (r : LinkRequest) : Respects R (prepare r) :=
  respects_prepare_compiled grow constant (fun _ _ d m _ => instantiate d m) r

end Linking

/-- Growth for an import, as a function of the world. -/
theorem run_growForImport (p : Program) (i : Import) (w : World) :
    (growForImport p i).run.run w =
      match growFor w.config.abi w.config i (w.memory p) (w.table p) with
      | .ok (m, t) => (.ok (), (w.enlargeMemory p m).enlargeTable p t)
      | .error fault => (.error (.resourceLimit fault), w) := by
  unfold growForImport
  rw [run_bind, run_get]
  dsimp only
  cases growFor w.config.abi w.config i (w.memory p) (w.table p) with
  | error fault => rfl
  | ok grown =>
    obtain ⟨m, t⟩ := grown
    dsimp only
    -- Growth of the memory leaves the table alone, so both are compared with what there was before.
    unfold World.enlargeMemory
    by_cases pages : (w.memory p).pages < m.pages
    · rw [if_pos pages, if_pos pages]
      by_cases slots : (w.table p).size < t.size
      · rw [if_pos slots]
        exact congrArg (Prod.mk (Except.ok ())) (if_pos slots).symm
      · rw [if_neg slots]
        exact congrArg (Prod.mk (Except.ok ())) (if_neg slots).symm
    · rw [if_neg pages, if_neg pages]
      by_cases slots : (w.table p).size < t.size
      · rw [if_pos slots]
        exact congrArg (Prod.mk (Except.ok ())) (if_pos slots).symm
      · rw [if_neg slots]
        exact congrArg (Prod.mk (Except.ok ())) (if_neg slots).symm

section Growing

-- Whatever allows the shared memory and table to get larger.
variable {R : World → World → Prop} [IsPreorder World R]
  (memory : ∀ (w : World) (p : Program) (m : Memory), (w.memory p).pages < m.pages →
    R w { w with store := w.store.setMemory p.memory m })
  (table : ∀ (w : World) (p : Program) (t : Table), (w.table p).size < t.size →
    R w { w with store := w.store.setTable p.table t })
  (noted : ∀ (w : World) (n : Notice), R w (w.note n))

include memory table noted

theorem respects_growing (p : Program) (i : Import) : Respects R (growForImport p i) := by
  intro w
  rw [run_growForImport]
  split
  · rename_i m t _
    have larger := World.rel_enlargeMemory fun more => trans_of R (memory w p m more) (noted _ _)
    have wider := World.rel_enlargeTable fun more => trans_of R (table (w.enlargeMemory p m) p t more) (noted _ _)
    exact trans_of R larger wider
  · exact refl_of R w

end Growing

/-- A module joins the store, and nothing else changes. -/
theorem run_instantiate (d : Definitions) (m : Module) (w : World) :
    ((instantiate d m).run.run w).2 = { w with store := (w.store.instantiate d m).2 } := by
  unfold instantiate
  rw [run_bind, run_get]
  dsimp only
  rcases w.store.instantiate d m with ⟨fault | owner, store⟩ <;> rfl

section Objects

-- Whatever speaks neither of objects nor of the log.
variable {R : World → World → Prop} (store : ∀ (w : World) (s : Store), R w { w with store := s })

include store

theorem respects_store (g : World → Store) : Respects R (modify fun w => { w with store := g w } : Action Unit) :=
  respects_modify fun w => store w (g w)

theorem respects_instantiate (d : Definitions) (m : Module) : Respects R (instantiate d m) := by
  intro w
  rw [run_instantiate]
  exact store w _

variable [IsPreorder World R]

theorem respects_constant (n : Nat) : Respects R (constant n) :=
  respects_get.bind fun _ => (respects_store store _).bind fun _ => respects_pure _

theorem respects_surface : Respects R surface :=
  respects_get.bind fun _ => (respects_foldlM (fun _ _ => respects_define _ _ _ _) _ _).bind fun _ =>
    (respects_constant store _).bind fun _ => respects_define _ _ _ _

variable (noted : ∀ (w : World) (n : Notice), R w (w.note n))

include noted

theorem respects_growForImport (p : Program) (i : Import) : Respects R (growForImport p i) :=
  respects_growing (fun w _ _ _ => store w _) (fun w _ _ _ => store w _) noted p i

theorem respects_growToFit (p : Program) (imports : List Import) : Respects R (growToFit p imports) :=
  respects_forM (respects_growForImport store noted p) imports

/-- Linking a unit up to its start function touches objects and the log, no more. -/
theorem respects_linking (r : LinkRequest) : Respects R (prepare r) :=
  respects_prepare (respects_growForImport store noted) (respects_constant store) (respects_instantiate store) r

end Objects

section Kept

open World (Kept)

theorem keeps_growToFit (p : Program) (imports : List Import) : Respects Kept (growToFit p imports) :=
  respects_growToFit World.kept_store World.kept_note p imports

theorem keeps_surface : Respects Kept surface := respects_surface World.kept_store

theorem keeps_instantiate (d : Definitions) (m : Module) : Respects Kept (instantiate d m) :=
  respects_instantiate World.kept_store d m

/-- Linking a unit up to its start function keeps the program and the pending response. -/
theorem keeps_prepare (r : LinkRequest) : Respects Kept (prepare r) :=
  respects_linking World.kept_store World.kept_note r

end Kept

end Action

/-- What a link has passed once its unit's own code is next. -/
structure LinkRequest.Prepared (r : LinkRequest) (w : World) (p : Program) (l : Linking) : Prop where
  program : w.program = some p
  read : (w.memory p).readBytes r.address r.count = .ok l.bytes
  compiled : w.engine.compile? l.bytes = some l.module
  bases : r.checkBases p.floor = .ok (l.memoryBase, l.tableBase)
  linked : ∃ d v v' s, v.config = w.config ∧
    (Action.importObject p l.memoryBase l.tableBase).run.run v = (.ok d, v') ∧
      v'.store.instantiate d l.module = (.ok l.owner, s)

theorem LinkRequest.Prepared.joined {r : LinkRequest} {w : World} {p : Program} {l : Linking}
    (h : r.Prepared w p l) : ∃ d s s', Store.instantiate s d l.module = (.ok l.owner, s') := by
  obtain ⟨d, v, v', s, -, -, joined⟩ := h.linked
  exact ⟨d, v'.store, s, joined⟩

namespace Action

theorem run_instantiate_ok {d : Definitions} {m : Module} {owner : Instance} {w w' : World}
    (h : (instantiate d m).run.run w = (.ok owner, w')) :
    w.store.instantiate d m = (.ok owner, w'.store) := by
  unfold instantiate at h
  obtain ⟨_, _, hget, h⟩ := run_bind_ok h
  cases hget
  dsimp only at h
  obtain ⟨_, _, hmodify, h⟩ := run_bind_ok h
  cases hmodify
  rcases hrun : w.store.instantiate d m with ⟨e | found, store⟩
  · rw [hrun] at h; cases h
  · rw [hrun] at h; cases h; rfl

theorem run_instantiate_error {d : Definitions} {m : Module} {fault : InstantiationFault} {w : World} {s : Store}
    (h : w.store.instantiate d m = (.error fault, s)) :
    (instantiate d m).run.run w = (.error (.instantiation fault), { w with store := s }) := by
  unfold instantiate
  rw [run_bind, run_get]
  dsimp only
  rw [h]
  rfl

/-- A link that was prepared leaves the store that its unit joined. -/
theorem prepare_joined {r : LinkRequest} {l : Linking} {w w' : World} (h : (prepare r).run.run w = (.ok l, w')) :
    ∃ p, r.Prepared w p l ∧ ∃ d v v', v.config = w.config ∧
      (importObject p l.memoryBase l.tableBase).run.run v = (.ok d, v') ∧
        v'.store.instantiate d l.module = (.ok l.owner, w'.store) := by
  unfold prepare at h
  obtain ⟨p, v, hprogram, h⟩ := run_bind_ok h
  rw [run_program] at hprogram
  obtain ⟨found, rfl⟩ := Prod.mk.inj hprogram
  have installed : w.program = some p := by
    cases hp : w.program with
    | none => rw [hp] at found; cases found
    | some q => rw [hp] at found; cases found; rfl
  obtain ⟨_, _, hget, h⟩ := run_bind_ok h
  cases hget
  obtain ⟨bytes, _, hread, h⟩ := run_bind_ok h
  rw [run_ofExcept] at hread
  obtain ⟨read, rfl⟩ := Prod.mk.inj hread
  obtain ⟨module, _, hcompile, rest⟩ := run_bind_ok h
  obtain ⟨compiled, rfl⟩ := run_compile_ok hcompile
  obtain ⟨⟨memoryBase, tableBase⟩, _, hbases, h⟩ := run_bind_ok rest
  rw [run_ofExcept] at hbases
  obtain ⟨bases, rfl⟩ := Prod.mk.inj hbases
  dsimp only at h
  obtain ⟨_, v, hgrown, h⟩ := run_bind_ok h
  have grown := (keeps_growToFit p module.imports).of_run hgrown
  obtain ⟨d, _, himports, h⟩ := run_bind_ok h
  obtain ⟨owner, _, howner, h⟩ := run_bind_ok h
  cases h
  have joined := run_instantiate_ok howner
  exact ⟨p, ⟨installed, read, compiled, bases, d, v, _, _, grown.config, himports, joined⟩, d, v, _, grown.config,
    himports, joined⟩

theorem prepare_ok {r : LinkRequest} {l : Linking} {w w' : World}
    (h : (prepare r).run.run w = (.ok l, w')) : ∃ p, r.Prepared w p l := by
  obtain ⟨p, prepared, -⟩ := prepare_joined h
  exact ⟨p, prepared⟩

/-- Once memory and table are large enough, the import object is built and the unit joins the store. -/
theorem run_prepare_of_grown {r : LinkRequest} {w v : World} {p : Program} {bytes : List UInt8}
    {module : Module} {memoryBase tableBase : Nat} (program : w.program = some p)
    (read : (w.memory p).readBytes r.address r.count = .ok bytes)
    (compiled : w.engine.compile? bytes = some module)
    (bases : r.checkBases p.floor = .ok (memoryBase, tableBase))
    (grown : (growToFit p module.imports).run.run w = (.ok (), v)) :
    (prepare r).run.run w =
      (importObject p memoryBase tableBase >>= fun d => instantiate d module >>= fun owner =>
        pure { bytes, module, owner, memoryBase, tableBase : Linking }).run.run v := by
  have found : Action.program.run.run w = (.ok p, w) := by rw [run_program, program]
  have compiles : (compile bytes).run.run w = (.ok module, w) := by
    unfold compile
    rw [run_bind, run_get]
    dsimp only
    rw [compiled]
    rfl
  unfold prepare
  rw [run_bind, found]
  dsimp only
  rw [run_bind, run_get]
  dsimp only
  rw [run_bind, run_ofExcept, read]
  dsimp only
  rw [run_bind, compiles]
  dsimp only
  rw [run_bind, run_ofExcept, bases]
  dsimp only
  rw [run_bind, grown]

end Action

end UnitHost
