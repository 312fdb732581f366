import UnitHost.Proofs.Lives

/-!
# What submissions leave standing

Whatever code does, no memory and no table gets smaller and no unit is changed once it is listed. `Store.Grows`
says the first of two stores, with one lemma for each way to change objects; `step_grows` gathers them for a step of
the machine and `run_grows` for a run. `step_units` and `run_units` say the second. A session that answers a
submission therefore only adds to what its owner sees.
-/

namespace UnitHost

open Wasm

/-! Stores. -/

section Objects

variable (size : α → Nat) {xs ys : Array α} {absent x : α}

/-- An object is replaced by one that is not smaller. -/
theorem le_getD_setIfInBounds {i : Nat} (le : size (xs[i]?.getD absent) ≤ size x) (j : Nat) :
    size (xs[j]?.getD absent) ≤ size ((xs.setIfInBounds i x)[j]?.getD absent) :=
  rel_getD_setIfInBounds (R := fun x y => size x ≤ size y) (fun _ => Nat.le_refl _) le j

/-- Objects are added behind those that are there, and what is not there has no size. -/
theorem le_getD_append (empty : size absent = 0) (j : Nat) :
    size (xs[j]?.getD absent) ≤ size ((xs ++ ys)[j]?.getD absent) := by
  rcases Nat.lt_or_ge j xs.size with old | new
  · exact Nat.le_of_eq (by rw [Array.getElem?_append_left old])
  · have nothing : size (xs[j]?.getD absent) = 0 := by rw [Array.getElem?_eq_none new]; exact empty
    omega

end Objects

namespace Store

section Instantiation

-- Whatever does not speak of what memories and tables hold.
variable {R : Store → Store → Prop}
  (written : ∀ (s : Store) (address : Nat) (m : Memory), m.pages = (s.memory address).pages → R s (s.setMemory address m))
  (slotted : ∀ (s : Store) (address : Nat) (t : Table), t.size = (s.table address).size → R s (s.setTable address t))

include slotted in
theorem rel_writeElements {s s' : Store} {owner : Instance} {e : Elements} (h : s.writeElements owner e = .ok s') :
    R s s' := by
  unfold writeElements at h
  dsimp only at h
  split at h
  · rename_i inside
    cases h
    exact slotted s _ _ (Table.size_write? inside)
  · cases h

include written in
theorem rel_writeData {s s' : Store} {owner : Instance} {d : Data} (h : s.writeData owner d = .ok s') : R s s' := by
  unfold writeData at h
  dsimp only at h
  split at h
  · rename_i inside
    cases h
    exact written s _ _ (Memory.pages_write? inside)
  · cases h

variable [IsPreorder Store R]

/-- Segments are written in place, also those before one that does not fit. -/
theorem rel_writeEach {write : Store → α → Except Trap Store} (each : ∀ {s s' x}, write s x = .ok s' → R s s')
    (xs : List α) (s : Store) : R s (s.writeEach write xs).2 := by
  induction xs generalizing s with
  | nil => exact refl_of R s
  | cons x xs ih =>
    unfold writeEach
    cases fits : write s x with
    | ok next => exact trans_of R (each fits) (ih next)
    | error t => exact refl_of R s

include written slotted

theorem rel_writeSegments (s : Store) (m : Module) (owner : Instance) : R s (s.writeSegments m owner).2 := by
  have elements : R s (s.writeEach (·.writeElements owner ·) m.elements).2 :=
    rel_writeEach (R := R) (rel_writeElements slotted) m.elements s
  unfold writeSegments
  split
  · rename_i next fits
    rw [fits] at elements
    exact trans_of R elements (rel_writeEach (R := R) (rel_writeData written) m.data next)
  · exact elements

/-- A module joins the store: its objects are added, and its segments are written. -/
theorem rel_instantiate {s : Store} {d : Definitions} {m : Module}
    (allocated : ∀ {imports}, d.resolve s m.imports = .ok imports → R s (s.allocate m imports).2) :
    R s (s.instantiate d m).2 := by
  unfold instantiate
  cases resolved : d.resolve s m.imports with
  | error fault => exact refl_of R s
  | ok imports =>
    have joined := trans_of R (allocated resolved)
      (rel_writeSegments written slotted (s.allocate m imports).2 m (s.allocate m imports).1)
    dsimp only
    split
    · rename_i fits
      rw [fits] at joined
      exact joined
    · rename_i fits
      rw [fits] at joined
      exact joined

end Instantiation

end Store

/-- No memory and no table is smaller than before. -/
structure Store.Grows (s s' : Store) : Prop where
  pages : ∀ address, (s.memory address).pages ≤ (s'.memory address).pages
  slots : ∀ address, (s.table address).size ≤ (s'.table address).size

namespace Store

variable {s s' s'' : Store}

theorem Grows.refl (s : Store) : s.Grows s := ⟨fun _ => Nat.le_refl _, fun _ => Nat.le_refl _⟩

theorem Grows.trans (h : s.Grows s') (h' : s'.Grows s'') : s.Grows s'' :=
  ⟨fun a => Nat.le_trans (h.pages a) (h'.pages a), fun a => Nat.le_trans (h.slots a) (h'.slots a)⟩

instance : IsPreorder Store Grows where
  refl := Grows.refl
  trans _ _ _ := Grows.trans

theorem grows_setMemory {address : Nat} {m : Memory} (le : (s.memory address).pages ≤ m.pages) :
    s.Grows (s.setMemory address m) :=
  ⟨le_getD_setIfInBounds Memory.pages le, fun _ => Nat.le_refl _⟩

theorem grows_setTable {address : Nat} {t : Table} (le : (s.table address).size ≤ t.size) :
    s.Grows (s.setTable address t) :=
  ⟨fun _ => Nat.le_refl _, le_getD_setIfInBounds Table.size le⟩

/-- The objects of a module come behind those that are there. -/
theorem grows_allocate (s : Store) (m : Module) (imports : List Extern) : s.Grows (s.allocate m imports).2 :=
  ⟨le_getD_append Memory.pages rfl, le_getD_append Table.size rfl⟩

theorem grows_instantiate (s : Store) (d : Definitions) (m : Module) : s.Grows (s.instantiate d m).2 :=
  rel_instantiate (fun _ _ _ same => grows_setMemory (Nat.le_of_eq same.symm))
    (fun _ _ _ same => grows_setTable (Nat.le_of_eq same.symm)) fun _ => s.grows_allocate m _

end Store

/-! Worlds. -/

/-- No memory and no table of a world is smaller than before. -/
def World.Grows (w w' : World) : Prop := w.store.Grows w'.store

namespace World

instance : IsPreorder World Grows where
  refl w := Store.Grows.refl w.store
  trans _ _ _ h h' := Store.Grows.trans h h'

end World

namespace Action

open World (Grows)

theorem grows_growForImport (p : Program) (i : Import) : Respects Grows (growForImport p i) :=
  respects_growing (fun _ _ _ more => Store.grows_setMemory (Nat.le_of_lt more))
    (fun _ _ _ more => Store.grows_setTable (Nat.le_of_lt more)) (fun w _ => Store.Grows.refl w.store) p i

theorem grows_constant (n : Nat) : Respects Grows (constant n) :=
  fun _ => ⟨fun _ => Nat.le_refl _, fun _ => Nat.le_refl _⟩

theorem grows_instantiate (d : Definitions) (m : Module) : Respects Grows (instantiate d m) := by
  intro w
  rw [run_instantiate]
  exact w.store.grows_instantiate d m

theorem grows_prepare (r : LinkRequest) : Respects Grows (prepare r) :=
  respects_prepare grows_growForImport grows_constant grows_instantiate r

end Action

/-! Steps and runs. -/

namespace Machine

variable {m m' : Machine}

theorem Local.grows (h : m.Local m') : World.Grows m.world m'.world := by
  cases h with
  | go c => exact Store.Grows.refl _
  | memory address memory a le => exact Store.grows_setMemory le
  | table address table a le => exact Store.grows_setTable le
  | global address v a => exact ⟨fun _ => Nat.le_refl _, fun _ => Nat.le_refl _⟩
  | invoke a callee type => exact Store.Grows.refl _

theorem step_grows (h : m.step = .inl m') : World.Grows m.world m'.world := by
  cases step_store h with
  | code a hc own => exact own.grows
  | same store =>
    unfold World.Grows
    rw [store]
    exact .refl _
  | linked r store =>
    have prepared := Action.grows_prepare r m.world
    unfold World.Grows at *
    rwa [store]

theorem run_grows {fuel : Nat} {w : World} {outcome : Outcome} (run : m.run fuel = some (w, outcome)) :
    World.Grows m.world w :=
  run_kept (P := World.Grows m.world) (fun grown step => trans_of World.Grows grown (step_grows step)) run
    (refl_of World.Grows m.world)

/-- A step changes no unit. It appends one at most. -/
theorem step_units (h : m.step = .inl m') : m.world.units <+: m'.world.units := by
  have same {w : World} (h : World.SameProgram m.world w) : m.world.units <+: w.units := h.units ▸ List.prefix_rfl
  cases step_change h with
  | still quiet still => exact same still.kept.same
  | posted r posted world =>
    rw [world]
    exact same (World.same_post m.world r)
  | began r p l quiet prepared kept => exact same kept.same
  | dropped l quiet kept => exact same kept.same
  | appended l state quiet unfinished kept =>
    rw [kept.same.units]
    exact m.world.units_append l state
  | executed l value quiet kept =>
    have listed := (m.world.publish l.owner.symbols).units_append l (.executed value)
    rw [World.units_publish] at listed
    rw [kept.same.units]
    exact listed

theorem run_units {fuel : Nat} {w : World} {outcome : Outcome} (run : m.run fuel = some (w, outcome)) :
    m.world.units <+: w.units :=
  run_kept (P := fun v => m.world.units <+: v.units) (fun listed step => listed.trans (step_units step)) run
    List.prefix_rfl

end Machine

/-! Submissions. -/

namespace Session

variable {s s' s'' : Session} {fuel : Nat} {text : String}

/-- The owner of a session sees all that was there before: the same units first, and a memory and a table that are
not smaller. -/
structure Advances (s s' : Session) : Prop where
  units : s.units <+: s'.units
  pages : s.memoryPages ≤ s'.memoryPages
  slots : s.tableSize ≤ s'.tableSize

theorem Advances.trans (h : s.Advances s') (h' : s'.Advances s'') : s.Advances s'' :=
  ⟨h.units.trans h'.units, Nat.le_trans h.pages h'.pages, Nat.le_trans h.slots h'.slots⟩

theorem advances_of_world (memory : s'.memory = s.memory) (table : s'.table = s.table)
    (grows : s.world.Grows s'.world) (units : s.world.units <+: s'.world.units) : s.Advances s' where
  units := units.map _
  pages := by
    unfold memoryPages
    rw [memory]
    exact grows.pages s.memory
  slots := by
    unfold tableSize
    rw [table]
    exact grows.slots s.table

/-- A text is written into memory as it is. -/
theorem evaluation_written {m : Machine} (fits : s.evaluation text = .ok m) :
    ∃ memory : Memory, memory.pages = (s.world.store.memory s.memory).pages ∧
      m.world.store = s.world.store.setMemory s.memory memory := by
  unfold evaluation at fits
  dsimp only at fits
  cases written : (s.world.store.memory s.memory).writeText text with
  | error f => rw [written] at fits; cases fits
  | ok result =>
    obtain ⟨length, memory⟩ := result
    rw [written] at fits
    cases fits
    unfold Memory.writeText at written
    split at written
    · rename_i inside
      cases written
      exact ⟨(s.world.store.memory s.memory).put text inside, rfl, rfl⟩
    · cases written

theorem evaluation_grows {m : Machine} (fits : s.evaluation text = .ok m) : s.world.Grows m.world := by
  obtain ⟨memory, same, store⟩ := evaluation_written fits
  unfold World.Grows
  rw [store]
  exact Store.grows_setMemory (Nat.le_of_eq same.symm)

theorem store_settled (w : World) (outcome : Outcome) : (settled w outcome).store = w.store := by
  cases outcome with
  | ok results => rfl
  | error raised =>
    unfold settled clean
    dsimp only
    split <;> rfl

theorem settled_grows (w : World) (outcome : Outcome) : w.Grows (settled w outcome) := by
  unfold World.Grows
  rw [store_settled]
  exact .refl _

/-- A submission that a ready session takes is answered, and the session only adds to what its owner sees. -/
theorem submit_answered {answer : Except Failure Response} (ready : s.state = .ready)
    (h : s.submit fuel text = some (answer, s')) :
    ∃ r, answer = .ok r ∧ s'.state = .ready ∧ s'.history = s.history ++ [⟨text, r⟩] ∧ s.Advances s' := by
  rcases submit_cases ready h with ⟨f, misfit, rfl⟩ | ⟨m, w, outcome, fits, run, rfl⟩
  · rw [submit_of_misfit ready misfit] at h
    cases h
    exact ⟨_, rfl, rfl, rfl, advances_of_world rfl rfl (Store.Grows.refl _) List.prefix_rfl⟩
  · rw [submit_of_run ready fits run] at h
    cases h
    have listed : s.world.units <+: w.units := (evaluation_ok fits).1.same.units ▸ Machine.run_units run
    have units : (settled w outcome).units = w.units := (same_settled w outcome).1.units
    refine ⟨_, rfl, rfl, rfl, advances_of_world rfl rfl ?_ (units ▸ listed)⟩
    exact (evaluation_grows fits).trans ((Machine.run_grows run).trans (settled_grows w outcome))

/-- The evaluation of a text, if there is one, ends. -/
def Ends (fuel : Nat) (s : Session) (text : String) : Prop :=
  ∀ m, s.evaluation text = .ok m → (m.run fuel).isSome

instance (fuel : Nat) (s : Session) (text : String) : Decidable (s.Ends fuel text) :=
  match fits : s.evaluation text with
  | .ok m =>
    decidable_of_iff ((m.run fuel).isSome = true)
      ⟨fun ended n other => by rw [fits] at other; cases other; exact ended, fun ends => ends m fits⟩
  | .error _ => .isTrue fun m other => by rw [fits] at other; cases other

theorem submit_of_ends (ready : s.state = .ready) (ends : s.Ends fuel text) :
    ∃ answer s', s.submit fuel text = some (answer, s') := by
  cases fits : s.evaluation text with
  | error f => exact ⟨_, _, submit_of_misfit ready fits⟩
  | ok m =>
    obtain ⟨⟨w, outcome⟩, run⟩ := Option.isSome_iff_exists.1 (ends m fits)
    exact ⟨_, _, submit_of_run ready fits run⟩

/-- What the owner of a session does with it. -/
inductive Request where
  | submit (text : String)
  | drainConsole
  | takeLog
  | wait (nanos : Nat)

/-- Does what the owner asks for; a submission gives its text and its answer. -/
def serve (fuel : Nat) (s : Session) : Request → Option (List (String × Except Failure Response) × Session)
  | .submit text => (s.submit fuel text).map fun (answer, s') => ([(text, answer)], s')
  | .drainConsole => some ([], s.drainConsole.2)
  | .takeLog => some ([], s.takeLog.2)
  | .wait nanos => some ([], s.atTime nanos)

/-- Does one thing after the other. -/
def serveAll (fuel : Nat) (s : Session) : List Request → Option (List (String × Except Failure Response) × Session)
  | [] => some ([], s)
  | request :: rest => do
    let (answers, s) ← s.serve fuel request
    let (more, s) ← s.serveAll fuel rest
    some (answers ++ more, s)

/-- The submissions of a session and their answers. -/
def answers (s : Session) : List (String × Except Failure Response) := s.history.map fun e => (e.input, .ok e.response)

/-- A session after it has done what its owner asked for. -/
structure Served (s : Session) (answers : List (String × Except Failure Response)) (s' : Session) : Prop where
  ready : s'.state = .ready
  answers : s'.answers = s.answers ++ answers
  advances : s.Advances s'

theorem serve_ok {request : Request} {answers : List (String × Except Failure Response)} (ready : s.state = .ready)
    (h : s.serve fuel request = some (answers, s')) : Served s answers s' := by
  have looked {w : World} (h : some ([], { s with world := w }) = some (answers, s')) (grows : s.world.Grows w)
      (units : s.world.units <+: w.units) : Served s answers s' := by
    cases h
    exact ⟨ready, by simp [Session.answers], advances_of_world rfl rfl grows units⟩
  cases request with
  | submit text =>
    obtain ⟨⟨answer, _⟩, submitted, h⟩ := Option.map_eq_some_iff.1 h
    cases h
    obtain ⟨r, rfl, ready, history, advances⟩ := submit_answered ready submitted
    exact ⟨ready, by simp [Session.answers, history], advances⟩
  | drainConsole => exact looked h (Store.Grows.refl _) List.prefix_rfl
  | takeLog => exact looked h (Store.Grows.refl _) List.prefix_rfl
  | wait nanos => exact looked h (Store.Grows.refl _) List.prefix_rfl

theorem serveAll_ok {requests : List Request} {answers : List (String × Except Failure Response)}
    (ready : s.state = .ready) (h : s.serveAll fuel requests = some (answers, s')) : Served s answers s' := by
  induction requests generalizing s answers with
  | nil =>
    cases h
    exact ⟨ready, by simp, advances_of_world rfl rfl (Store.Grows.refl _) List.prefix_rfl⟩
  | cons request rest ih =>
    obtain ⟨⟨first, next⟩, served, h⟩ := Option.bind_eq_some_iff.1 h
    obtain ⟨⟨more, last⟩, rest, h⟩ := Option.bind_eq_some_iff.1 h
    cases h
    have one := serve_ok ready served
    have all := ih one.ready rest
    exact ⟨all.ready, by rw [all.answers, one.answers, List.append_assoc], one.advances.trans all.advances⟩

end Session

/-- A base without memory whose evaluator adds a page and traps. -/
def Sample.growingBase : Module :=
  { Wasm.Module.ofEvaluator [] [] [.i32 1, .memoryGrow 0, .drop, .unreachable] with memories := [{ min := 0 }] }

/-- Whatever the owner of a loaded session has done with it, it is ready, its history has all submissions with their
answers in order, and its memory has whole pages. A further submission whose evaluation ends is answered; it leaves
the session ready, adds one entry to the history, changes no unit, and makes neither memory nor table smaller. -/
theorem submissions_only_add {loading fuel : Nat} {engine : Engine} {base : Module} {config : Config}
    {log : Array Notice} {s s' : Session} {requests : List Session.Request}
    {answers : List (String × Except Failure Response)}
    (loaded : Session.load loading engine base config log = some (.ok s))
    (served : s.serveAll fuel requests = some (answers, s')) :
    s'.state = .ready ∧ s'.answers = answers ∧ s'.snapshot.memory.size = 65536 * s'.memoryPages ∧
      ∀ (more : Nat) (text : String), s'.Ends more text → ∃ r s'', s'.submit more text = some (.ok r, s'') ∧
        s''.state = .ready ∧ s''.history = s'.history ++ [⟨text, r⟩] ∧ s'.units <+: s''.units ∧
        s'.memoryPages ≤ s''.memoryPages ∧ s'.tableSize ≤ s''.tableSize ∧
        s''.snapshot.memory.size = 65536 * s''.memoryPages := by
  have whole (s : Session) : s.snapshot.memory.size = 65536 * s.memoryPages := Nat.mul_comm _ _
  obtain ⟨ready, new, -⟩ := Session.load_ok loaded
  have reached := Session.serveAll_ok ready served
  refine ⟨reached.ready, by simpa [Session.answers, new] using reached.answers, whole s', fun more text ends => ?_⟩
  obtain ⟨answer, s'', submitted⟩ := Session.submit_of_ends reached.ready ends
  obtain ⟨r, rfl, ready, history, advances⟩ := Session.submit_answered reached.ready submitted
  exact ⟨r, s'', submitted, ready, history, advances.units, advances.pages, advances.slots, whole s''⟩

/-- A text that does not fit is answered, and so are one whose evaluation adds a page and traps and one that fits then. -/
theorem submissions_while_growing : ∃ s answers s',
    Session.load 100 {} Sample.growingBase {} = some (.ok s) ∧ s.memoryPages = 0 ∧
    s.serveAll 100 [.submit "x", .wait 5, .submit ""] = some (answers, s') ∧ answers.map (·.1) = ["x", ""] ∧
    s'.memoryPages = 1 ∧ s'.Ends 100 "x" ∧ s'.state = .ready ∧ s'.answers = answers ∧
    ∃ r s'', s'.submit 100 "x" = some (.ok r, s'') ∧ s''.history = s'.history ++ [⟨"x", r⟩] ∧
      s'.units <+: s''.units ∧ s'.memoryPages ≤ s''.memoryPages ∧ s'.tableSize ≤ s''.tableSize := by
  have evaluated : ((Session.load 100 {} Sample.growingBase {}).bind fun loaded => loaded.toOption.bind fun s =>
      (s.serveAll 100 [.submit "x", .wait 5, .submit ""]).map fun served =>
        (s.memoryPages, served.1.map (·.1), served.2.memoryPages, decide (served.2.Ends 100 "x"))) =
      some (0, ["x", ""], 1, true) := by decide +kernel
  obtain ⟨loaded, begun, evaluated⟩ := Option.bind_eq_some_iff.1 evaluated
  obtain ⟨s, ok, evaluated⟩ := Option.bind_eq_some_iff.1 evaluated
  obtain ⟨⟨answers, s'⟩, served, found⟩ := Option.map_eq_some_iff.1 evaluated
  simp only [Prod.mk.injEq, decide_eq_true_eq] at found
  obtain ⟨empty, texts, pages, ends⟩ := found
  rw [ok_of_toOption ok] at begun
  obtain ⟨ready, history, -, next⟩ := submissions_only_add begun served
  obtain ⟨r, s'', submitted, -, entry, units, grown, slots, -⟩ := next 100 "x" ends
  exact ⟨s, answers, s', begun, empty, served, texts, pages, ends, ready, history,
    r, s'', submitted, entry, units, grown, slots⟩

end UnitHost
