import UnitHost.Proofs.Instances

/-!
# Globals that never change

A global that its type says is constant keeps its value for as long as a session lives. The store does not check this when
a global is set; it holds because modules are checked before they join the store. Valid code sets only globals that its
module declares mutable (`sets_of_checkAll?`), and an instance has each global with the type that its module declares, so
all code there ever is sets only mutable globals: `Store.Lawful`, and `Machine.Lawful` for code that is running.

`Store.Fixes` relates a store to a later one: globals keep their types, constants their values, and lawful stores stay
lawful. `step_advances` says that every step does this, and `Life.remains` that a life does.
-/

namespace UnitHost

open Wasm

/-! What code sets. -/

namespace Wasm

mutual

/-- The globals that an instruction sets, also in the blocks inside it. -/
def Instr.sets : Instr → List Nat
  | .globalSet i => [i]
  | .block _ body => setsAll body
  | .loop _ body => setsAll body
  | .branch _ yes no => setsAll yes ++ setsAll no
  | _ => []

/-- The globals that code sets. -/
def setsAll : List Instr → List Nat
  | [] => []
  | instr :: rest => instr.sets ++ setsAll rest

end

/-- A scope has a global at an index, and it is mutable. -/
def Scope.Mutable (s : Scope) (i : Nat) : Prop := ∃ g, s.globals[i]? = some g ∧ g.mutable = true

theorem mutable_of_globalSet {s : Scope} {o o' : Operands} {i : Nat} (h : (Instr.globalSet i).check? s o = some o') :
    s.Mutable i := by
  unfold Instr.check? at h
  obtain ⟨g, found, h⟩ := Option.bind_eq_some_iff.1 h
  obtain ⟨mutable, -⟩ := Option.ite_none_right_eq_some.1 h
  exact ⟨g, found, mutable⟩

mutual

/-- An instruction that is well typed sets only globals that are mutable. -/
theorem sets_of_check? {s : Scope} {o o' : Operands} (instr : Instr) (h : instr.check? s o = some o') :
    ∀ i ∈ instr.sets, s.Mutable i := by
  match instr with
  | .globalSet j =>
    intro i mem
    rw [List.mem_singleton.1 mem]
    exact mutable_of_globalSet h
  | .block type body | .loop type body =>
    unfold Instr.check? at h
    obtain ⟨-, h⟩ := Option.ite_none_right_eq_some.1 h
    obtain ⟨rest, -, h⟩ := Option.bind_eq_some_iff.1 h
    obtain ⟨_, typed, -⟩ := Option.bind_eq_some_iff.1 h
    obtain ⟨left, typed, -⟩ := Option.bind_eq_some_iff.1 typed
    have inner := sets_of_checkAll? body typed
    exact inner
  | .branch type yes no =>
    unfold Instr.check? at h
    obtain ⟨-, h⟩ := Option.ite_none_right_eq_some.1 h
    obtain ⟨condition, -, h⟩ := Option.bind_eq_some_iff.1 h
    obtain ⟨rest, -, h⟩ := Option.bind_eq_some_iff.1 h
    obtain ⟨_, first, h⟩ := Option.bind_eq_some_iff.1 h
    obtain ⟨_, second, -⟩ := Option.bind_eq_some_iff.1 h
    obtain ⟨left, first, -⟩ := Option.bind_eq_some_iff.1 first
    obtain ⟨left', second, -⟩ := Option.bind_eq_some_iff.1 second
    intro i mem
    rcases List.mem_append.1 mem with inFirst | inSecond
    · exact sets_of_checkAll? yes first i inFirst
    · exact sets_of_checkAll? no second i inSecond
  | .i32 _ | .i64 _ | .null _ | .unary _ | .binary _ | .load _ | .store _ | .localGet _ | .localSet _ | .globalGet _
  | .br _ | .brIf _ | .brTable _ _ | .ret | .call _ | .callIndirect _ _ | .drop | .select _ | .unreachable
  | .memorySize _ | .memoryGrow _ | .memoryFill _ | .tableSize _ | .tableGrow _ =>
    intro i mem
    cases mem

/-- So does code. -/
theorem sets_of_checkAll? {s : Scope} {o o' : Operands} (code : List Instr) (h : checkAll? s o code = some o') :
    ∀ i ∈ setsAll code, s.Mutable i := by
  match code with
  | [] =>
    intro i mem
    cases mem
  | instr :: rest =>
    unfold checkAll? at h
    obtain ⟨left, first, later⟩ := Option.bind_eq_some_iff.1 h
    intro i mem
    rcases List.mem_append.1 mem with here | behind
    · exact sets_of_check? instr first i here
    · exact sets_of_checkAll? rest later i behind

end

/-- The code of a valid module sets only globals that the module declares mutable. -/
theorem Module.sets_of_isValid {m : Module} {referenceTypes : Bool} (valid : m.isValid referenceTypes = true) {f : Func}
    (mem : f ∈ m.funcs) {i : Nat} (set : i ∈ setsAll f.body) : ∃ g, m.globalTypes[i]? = some g ∧ g.mutable = true := by
  have each : m.funcs.all (m.funcOk referenceTypes) = true := by
    simp only [isValid, Bool.and_eq_true] at valid
    exact valid.2
  have typed := List.all_eq_true.1 each f mem
  simp only [funcOk, Bool.and_eq_true] at typed
  obtain ⟨_, typed⟩ := Option.isSome_iff_exists.1 typed.2
  obtain ⟨left, typed, -⟩ := Option.bind_eq_some_iff.1 typed
  exact sets_of_checkAll? f.body typed i set

end Wasm

/-! Lawful stores. -/

/-- The global at an index of an instance is mutable. -/
def Instance.Mutable (owner : Instance) (s : Store) (i : Nat) : Prop :=
  ∃ g, s.globals[owner.globals.getD i 0]? = some g ∧ g.type.mutable = true

/-- Code sets only globals that are mutable. -/
def Instance.Obeys (owner : Instance) (s : Store) (code : List Instr) : Prop := ∀ i ∈ setsAll code, owner.Mutable s i

namespace Store

/-- All code in a store sets only globals that are mutable. -/
def Lawful (s : Store) : Prop := ∀ c ∈ s.funcs, c.owner.Obeys s c.func.body

/-- Globals have the types that they had, and those that are constant have the values that they had. -/
def Retains (s s' : Store) : Prop :=
  ∀ (a : Nat) (g : Global), s.globals[a]? = some g →
    ∃ g', s'.globals[a]? = some g' ∧ g'.type = g.type ∧ (g.type.mutable = false → g'.value = g.value)

/-- Globals are retained, and if the code there was is lawful, so is the code there is. -/
structure Fixes (s s' : Store) : Prop where
  globals : s.Retains s'
  lawful : s.Lawful → s'.Lawful

end Store

namespace Instance

variable {s s' : Store} {owner : Instance}

theorem Mutable.mono {i : Nat} (h : owner.Mutable s i) (retains : s.Retains s') : owner.Mutable s' i := by
  obtain ⟨g, found, mutable⟩ := h
  obtain ⟨g', found', type, -⟩ := retains _ g found
  exact ⟨g', found', by rw [type, mutable]⟩

/-- The code of a valid module obeys where each global has the type that the module declares. -/
theorem Typed.obeys {m : Module} {referenceTypes : Bool} (h : owner.Typed m s) (valid : m.isValid referenceTypes = true)
    {f : Func} (mem : f ∈ m.funcs) : owner.Obeys s f.body := by
  intro i set
  obtain ⟨type, declared, mutable⟩ := Module.sets_of_isValid valid mem set
  obtain ⟨inside, rfl⟩ := List.getElem?_eq_some_iff.1 declared
  have there := h.globals.length_eq ▸ inside
  obtain ⟨g, found, type⟩ := Option.map_eq_some_iff.1 (h.globals.get inside there)
  refine ⟨g, ?_, by rw [type]; exact mutable⟩
  rw [List.getD_eq_getElem?_getD, List.getElem?_eq_getElem there]
  exact found

theorem Obeys.mono {code : List Instr} (h : owner.Obeys s code) (retains : s.Retains s') : owner.Obeys s' code :=
  fun i mem => (h i mem).mono retains

end Instance

namespace Store

variable {s s' : Store}

theorem retains_of_eq (same : s'.globals = s.globals) : s.Retains s' := by
  intro a g found
  exact ⟨g, by rw [same, found], rfl, fun _ => rfl⟩

instance : IsPreorder Store Fixes where
  refl _ := ⟨retains_of_eq rfl, id⟩
  trans _ _ _ h h' := by
    refine ⟨fun a g found => ?_, fun lawful => h'.lawful (h.lawful lawful)⟩
    obtain ⟨g₁, found, type, value⟩ := h.globals a g found
    obtain ⟨g₂, found, type', value'⟩ := h'.globals a g₁ found
    refine ⟨g₂, found, type'.trans type, fun constant => ?_⟩
    rw [value' (type ▸ constant), value constant]

theorem fixes_of_funcs (funcs : s'.funcs = s.funcs) (retains : s.Retains s') : s.Fixes s' := by
  refine ⟨retains, fun lawful c mem => ?_⟩
  rw [funcs] at mem
  exact (lawful c mem).mono retains

theorem fixes_setMemory (s : Store) (address : Nat) (m : Memory) : s.Fixes (s.setMemory address m) :=
  fixes_of_funcs rfl (retains_of_eq rfl)

theorem fixes_setTable (s : Store) (address : Nat) (t : Table) : s.Fixes (s.setTable address t) :=
  fixes_of_funcs rfl (retains_of_eq rfl)

theorem fixes_constant (s : Store) (n : UInt32) : s.Fixes (s.constant n).2 := by
  refine fixes_of_funcs rfl fun a g found => ⟨g, ?_, rfl, fun _ => rfl⟩
  have inside := (Array.getElem?_eq_some_iff.1 found).1
  simp only [constant, Array.getElem?_push, if_neg (Nat.ne_of_lt inside)]
  exact found

/-- A mutable global may be set. -/
theorem fixes_setGlobal {owner : Instance} {i : Nat} (mutable : owner.Mutable s i) (v : Value) :
    s.Fixes (s.setGlobal (owner.globals.getD i 0) v) := by
  refine fixes_of_funcs rfl fun a g found => ?_
  obtain ⟨g₀, found₀, mutable⟩ := mutable
  simp only [setGlobal, Array.getElem?_modify]
  by_cases here : owner.globals.getD i 0 = a
  · subst here
    rw [found] at found₀
    cases found₀
    refine ⟨{ g with value := v }, by rw [if_pos rfl, found]; rfl, rfl, fun constant => ?_⟩
    rw [mutable] at constant
    cases constant
  · exact ⟨g, by rw [if_neg here, found], rfl, fun _ => rfl⟩

/-- A valid module brings lawful code. -/
theorem fixes_allocate {d : Definitions} {m : Module} {objects : List Extern} {referenceTypes : Bool}
    (valid : m.isValid referenceTypes = true) (resolved : d.resolve s m.imports = .ok objects) :
    s.Fixes (s.allocate m objects).2 := by
  have typed := typed_allocate ((Definitions.resolve_ok resolved).imp fun _ _ found => found.2)
  have retains : s.Retains (s.allocate m objects).2 := by
    intro a g found
    refine ⟨g, ?_, rfl, fun _ => rfl⟩
    have inside := (Array.getElem?_eq_some_iff.1 found).1
    simp only [allocate]
    rw [Array.getElem?_append_left inside, found]
  refine ⟨retains, fun lawful c mem => ?_⟩
  rcases Array.mem_append.1 mem with old | new
  · exact (lawful c old).mono retains
  · obtain ⟨f, listed, rfl⟩ := List.mem_map.1 (List.mem_toArray.1 new)
    exact typed.obeys valid listed

theorem fixes_instantiate {d : Definitions} {m : Module} {referenceTypes : Bool}
    (valid : m.isValid referenceTypes = true) : s.Fixes (s.instantiate d m).2 :=
  rel_instantiate (fun s address m _ => s.fixes_setMemory address m) (fun s address t _ => s.fixes_setTable address t)
    fun resolved => fixes_allocate valid resolved

end Store

/-- The objects are fixed. -/
def World.Fixes (w w' : World) : Prop := w.store.Fixes w'.store

instance : IsPreorder World World.Fixes where
  refl w := refl_of Store.Fixes w.store
  trans _ _ _ h h' := trans_of Store.Fixes h h'

namespace Action

open World (Fixes)

theorem fixes_constant (n : Nat) : Respects Fixes (constant n) := fun w => w.store.fixes_constant (UInt32.ofNat n)

theorem fixes_surface : Respects Fixes surface :=
  respects_get.bind fun _ => (respects_foldlM (fun _ _ => respects_define _ _ _ _) _ _).bind fun _ =>
    (fixes_constant _).bind fun _ => respects_define _ _ _ _

theorem fixes_instantiate {m : Module} {referenceTypes : Bool} (valid : m.isValid referenceTypes = true)
    (d : Definitions) : Respects Fixes (instantiate d m) := by
  intro w
  rw [run_instantiate]
  exact Store.fixes_instantiate valid

/-- A unit is compiled before it joins the store. -/
theorem fixes_prepare (r : LinkRequest) : Respects Fixes (prepare r) :=
  respects_prepare_compiled
    (respects_growing (fun w p m _ => w.store.fixes_setMemory p.memory m)
      (fun w p t _ => w.store.fixes_setTable p.table t)
      fun w _ => refl_of Store.Fixes w.store)
    fixes_constant (fun _ _ d _ compiled => fixes_instantiate (Engine.compile?_valid compiled) d) r

end Action

/-! Lawful machines. -/

/-- A function being executed is lawful, with all that a branch may go on with. -/
structure Activation.Lawful (a : Activation) (s : Store) : Prop where
  code : a.owner.Obeys s a.code
  labels : ∀ l ∈ a.labels, a.owner.Obeys s l.target ∧ a.owner.Obeys s l.after

/-- The code that is executed next is lawful. -/
def Control.Lawful (s : Store) : Control → Prop
  | .run a => a.Lawful s
  | _ => True

/-- The code that a frame goes on with is lawful. -/
def Frame.Lawful (s : Store) : Frame → Prop
  | .caller a => a.Lawful s
  | _ => True

/-- All code there is, running or not, sets only globals that are mutable. -/
structure Machine.Lawful (m : Machine) : Prop where
  store : m.world.store.Lawful
  control : m.control.Lawful m.world.store
  frames : ∀ f ∈ m.frames, f.Lawful m.world.store

section Mono

variable {s s' : Store} (retains : s.Retains s')

include retains

theorem Activation.Lawful.mono {a : Activation} (h : a.Lawful s) : a.Lawful s' :=
  ⟨h.code.mono retains, fun l mem => ⟨(h.labels l mem).1.mono retains, (h.labels l mem).2.mono retains⟩⟩

theorem Control.Lawful.mono {c : Control} (h : c.Lawful s) : c.Lawful s' := by
  cases c with
  | run a => exact Activation.Lawful.mono retains h
  | call callee args => trivial
  | give results => trivial
  | raise r => trivial

theorem Frame.Lawful.mono {f : Frame} (h : f.Lawful s) : f.Lawful s' := by
  cases f with
  | caller a => exact Activation.Lawful.mono retains h
  | start l => trivial
  | staticInit l main next depth => trivial
  | main l depth => trivial
  | report index => trivial

end Mono

theorem Instance.obeys_cons {owner : Instance} {s : Store} {instr : Instr} {code : List Instr} :
    owner.Obeys s (instr :: code) ↔ (∀ i ∈ instr.sets, owner.Mutable s i) ∧ owner.Obeys s code := by
  unfold Obeys
  rw [setsAll]
  exact List.forall_mem_append

theorem Activation.Lawful.put {a : Activation} {s : Store} (h : a.Lawful s) (operands : List Value) :
    (a.put operands).Lawful s := ⟨h.code, h.labels⟩

/-- Entering a block that is lawful. -/
theorem Activation.Lawful.enter {a : Activation} {s : Store} (h : a.Lawful s) (type : FuncType) (arity : Nat)
    {body target : List Instr} (inner : a.owner.Obeys s body) (back : a.owner.Obeys s target) :
    (a.enter type arity body target).Lawful s :=
  ⟨inner, List.forall_mem_cons.2 ⟨⟨back, h.code⟩, h.labels⟩⟩

namespace Machine

/-- A machine goes on with all objects fixed and all code lawful. -/
structure Advances (m m' : Machine) : Prop where
  fixes : m.world.Fixes m'.world
  lawful : m'.Lawful

variable {m m' : Machine} {a : Activation} {instr : Instr}

theorem Lawful.of_fixes (h : m.Lawful) {w : World} (fixes : m.world.Fixes w) : { m with world := w }.Lawful where
  store := fixes.lawful h.store
  control := h.control.mono fixes.globals
  frames f mem := (h.frames f mem).mono fixes.globals

theorem Lawful.pop (h : m.Lawful) {f : Frame} {frames : List Frame} (hf : m.frames = f :: frames) :
    m.pop.Lawful ∧ f.Lawful m.world.store := by
  have each := h.frames
  rw [hf] at each
  obtain ⟨first, rest⟩ := List.forall_mem_cons.1 each
  refine ⟨⟨h.store, h.control, ?_⟩, first⟩
  rw [Machine.pop, hf]
  exact rest

/-- The store is as it was, and no code comes in. -/
theorem advances_of_store (h : m.Lawful) (store : m'.world.store = m.world.store)
    (control : m'.control.Lawful m.world.store) (frames : ∀ f ∈ m'.frames, f ∈ m.frames ∨ f.Lawful m.world.store) :
    m.Advances m' := by
  refine ⟨?_, ?_, ?_, ?_⟩
  · unfold World.Fixes
    rw [store]
    exact refl_of Store.Fixes _
  · rw [store]
    exact h.store
  · rw [store]
    exact control
  · intro f mem
    rw [store]
    rcases frames f mem with old | new
    · exact h.frames f old
    · exact new

theorem advances_go (h : m.Lawful) {c : Control} (control : c.Lawful m.world.store) : m.Advances (m.go c) :=
  advances_of_store h rfl control fun _ => .inl

theorem advances_update (h : m.Lawful) (own : a.Lawful m.world.store) {s : Store} (fixes : m.world.store.Fixes s) :
    m.Advances (m.update s a) where
  fixes := fixes
  lawful := ⟨fixes.lawful h.store, own.mono fixes.globals, fun f mem => (h.frames f mem).mono fixes.globals⟩

theorem advances_invoke (h : m.Lawful) (own : a.Lawful m.world.store) (callee : Callee) (type : FuncType) :
    m.Advances (m.invoke a callee type) :=
  advances_of_store h rfl trivial (List.forall_mem_cons.2 ⟨.inr ⟨own.code, own.labels⟩, fun _ => .inl⟩)

theorem advances_branch (h : m.Lawful) (own : a.Lawful m.world.store) (label : Nat) : m.Advances (m.branch a label) := by
  unfold branch
  split
  · rename_i l found
    refine advances_go h ⟨(own.labels l (List.mem_of_getElem? found)).1, fun k mem => ?_⟩
    exact own.labels k (List.mem_of_mem_drop mem)
  · exact advances_go h trivial

theorem advances_fallOff (h : m.Lawful) (own : a.Lawful m.world.store) : m.Advances (m.fallOff a) := by
  unfold fallOff
  split
  · exact advances_go h trivial
  · rename_i l labels found
    have inside := own.labels
    rw [found] at inside
    obtain ⟨first, rest⟩ := List.forall_mem_cons.1 inside
    exact advances_go h ⟨first.2, rest⟩

/-- Whatever an instruction does, it sets no constant, and goes on with code that is part of what it is given. -/
theorem advances_exec (h : m.Lawful) (own : a.Lawful m.world.store)
    (sets : ∀ i ∈ instr.sets, a.owner.Mutable m.world.store i) : m.Advances (m.exec a instr) := by
  unfold exec
  dsimp only
  repeat' split
  all_goals first
    | exact advances_go h trivial
    | exact advances_go h ⟨own.code, own.labels⟩
    | exact advances_branch h own _
    | exact advances_branch h (own.put _) _
    | exact advances_invoke h own _ _
    | exact advances_invoke h (own.put _) _ _
    | exact advances_update h (own.put _) (Store.fixes_setMemory _ _ _)
    | exact advances_update h (own.put _) (Store.fixes_setTable _ _ _)
    | exact advances_update h (own.put _) (Store.fixes_setGlobal (sets _ (List.mem_singleton_self _)) _)
    -- What is left enters a block, whose code is part of the instruction.
    | exact advances_go h (own.enter _ _ sets own.code)
    | exact advances_go h (own.enter _ _ sets (Instance.obeys_cons.2 ⟨sets, own.code⟩))
    | exact advances_go h ((own.put _).enter _ _ (fun i mem => sets i (List.mem_append_left _ mem)) own.code)
    | exact advances_go h ((own.put _).enter _ _ (fun i mem => sets i (List.mem_append_right _ mem)) own.code)

theorem advances_enterUnit (h : m.Lawful) (l : Linking) : m.Advances (m.enterUnit l) := by
  refine advances_of_store h (store_enterUnit m l) ?_ ?_
  · unfold enterUnit
    dsimp only
    repeat' split
    all_goals trivial
  · unfold enterUnit
    dsimp only
    repeat' split
    · exact fun _ => .inl
    · exact fun _ => .inl
    · exact List.forall_mem_cons.2 ⟨.inr trivial, fun _ => .inl⟩

theorem advances_link (h : m.Lawful) (r : LinkRequest) : m.Advances (m.link r) := by
  have fixes := Action.fixes_prepare r m.world
  unfold link
  rcases run : (Action.prepare r).run.run m.world with ⟨f | l, w⟩
  · rw [run] at fixes
    have joined := h.of_fixes fixes
    exact ⟨fixes, joined.store, trivial, joined.frames⟩
  · rw [run] at fixes
    have joined := h.of_fixes fixes
    dsimp only
    split
    · exact ⟨fixes, joined.store, trivial, List.forall_mem_cons.2 ⟨trivial, joined.frames⟩⟩
    · have entered := advances_enterUnit joined l
      exact ⟨trans_of World.Fixes fixes entered.fixes, entered.lawful⟩

theorem advances_call (h : m.Lawful) (callee : Callee) (args : List Value) : m.Advances (m.call callee args) := by
  unfold call
  split
  · split
    · exact advances_go h trivial
    · rename_i closure found
      split
      · exact advances_go h trivial
      · exact advances_go h ⟨h.store closure (Array.mem_of_getElem? found), List.forall_mem_nil _⟩
  · exact advances_link h _
  · split
    · rename_i run
      exact advances_of_store h ((Action.respects_hostCall_store _ _ _).of_run run) trivial fun _ => .inl
    · rename_i run
      exact advances_of_store h ((Action.respects_hostCall_store _ _ _).of_run run) trivial fun _ => .inl

theorem advances_resume (h : m.Lawful) {f : Frame} (own : f.Lawful m.world.store) (results : List Value) :
    m.Advances (m.resume f results) := by
  have store := store_resume m f results
  cases f with
  | caller a => exact advances_go h (own.put _)
  | start l => exact advances_enterUnit h l
  | report index => exact advances_of_store h store trivial fun _ => .inl
  | staticInit l main next depth =>
    refine advances_of_store h store ?_ ?_
    · unfold resume initialized
      dsimp only
      split <;> trivial
    · unfold resume initialized
      dsimp only
      split
      · exact List.forall_mem_cons.2 ⟨.inr trivial, fun _ => .inl⟩
      · exact fun _ => .inl
  | main l depth =>
    refine advances_of_store h store ?_ ?_
    · unfold resume executed
      dsimp only
      repeat' split
      all_goals trivial
    · unfold resume executed
      dsimp only
      repeat' split
      · exact fun _ => .inl
      · exact fun _ => .inl
      · exact List.forall_mem_cons.2 ⟨.inr trivial, fun _ => .inl⟩

theorem advances_abandon (h : m.Lawful) (f : Frame) (r : Raised) : m.Advances (m.abandon f r) := by
  cases f <;> exact advances_of_store h rfl trivial fun _ => .inl

/-- A step of lawful code fixes all objects and leaves lawful code. -/
theorem step_advances (h : m.Lawful) (step : m.step = .inl m') : m.Advances m' := by
  cases hc : m.control with
  | run a =>
    have own : a.Lawful m.world.store := by
      have control := h.control
      rwa [hc] at control
    cases code : a.code with
    | nil =>
      simp only [Machine.step, hc, code] at step
      cases step
      exact advances_fallOff h own
    | cons instr rest =>
      simp only [Machine.step, hc, code] at step
      cases step
      have obeys := own.code
      rw [code] at obeys
      obtain ⟨sets, behind⟩ := Instance.obeys_cons.1 obeys
      exact advances_exec h ⟨behind, own.labels⟩ sets
  | call callee args =>
    rw [step_call hc] at step
    cases step
    exact advances_call h callee args
  | give results =>
    cases hf : m.frames with
    | nil => simp [Machine.step, hc, hf] at step
    | cons f frames =>
      rw [step_give hc hf] at step
      cases step
      obtain ⟨popped, own⟩ := h.pop hf
      have advanced := advances_resume popped own results
      exact ⟨advanced.fixes, advanced.lawful⟩
  | raise r =>
    cases hf : m.frames with
    | nil => simp [Machine.step, hc, hf] at step
    | cons f frames =>
      rw [step_raise hc hf] at step
      cases step
      have advanced := advances_abandon (h.pop hf).1 f r
      exact ⟨advanced.fixes, advanced.lawful⟩

end Machine

/-! Whole lives. -/

/-- Constants and units of a world are still there in a later one. -/
structure World.Remains (w w' : World) : Prop where
  fixes : w.Fixes w'
  units : w.units <+: w'.units

instance : IsPreorder World World.Remains where
  refl w := ⟨refl_of World.Fixes w, List.prefix_rfl⟩
  trans _ _ _ h h' := ⟨trans_of World.Fixes h.fixes h'.fixes, h.units.trans h'.units⟩

/-- What the states of a life show remains in the states after them and in the world reached. -/
structure World.Remained (life : List Machine) (w : World) : Prop where
  among : life.Pairwise fun n n' => n.world.Remains n'.world
  since : ∀ n ∈ life, n.world.Remains w

namespace World

variable {life : List Machine} {w w' : World} {m m' : Machine}

theorem remained_nil (w : World) : Remained [] w := ⟨.nil, List.forall_mem_nil _⟩

theorem remains_of_same (store : w'.store = w.store) (same : SameProgram w w') : w.Remains w' := by
  refine ⟨?_, same.units ▸ List.prefix_rfl⟩
  unfold Fixes
  rw [store]
  exact refl_of Store.Fixes _

theorem Remained.later (h : Remained life w) (remains : w.Remains w') : Remained life w' :=
  ⟨h.among, fun n mem => trans_of Remains (h.since n mem) remains⟩

theorem Remained.concat (h : Remained life m.world) (remains : m.world.Remains w) : Remained (life ++ [m]) w := by
  constructor
  · refine List.pairwise_append.2 ⟨h.among, List.pairwise_singleton _ _, fun n mem n' here => ?_⟩
    rw [List.mem_singleton.1 here]
    exact h.since n mem
  · intro n mem
    rcases List.mem_append.1 mem with earlier | here
    · exact trans_of Remains (h.since n earlier) remains
    · rw [List.mem_singleton.1 here]
      exact remains

end World

namespace Machine

variable {m m' : Machine} {fuel : Nat} {w : World} {outcome : Outcome} {life : List Machine}

theorem lawful_of_store {w : World} (lawful : w.store.Lawful) (callee : Callee) (args : List Value) :
    Machine.Lawful { world := w, control := .call callee args } := ⟨lawful, trivial, List.forall_mem_nil _⟩

/-- What remains of one step to the next remains of a whole run. -/
theorem run_remained (lawful : m.Lawful) (h : World.Remained life m.world) (run : m.run fuel = some (w, outcome)) :
    w.store.Lawful ∧ World.Remained (life ++ m.visited fuel) w := by
  obtain ⟨left, last, trace, ⟨lawful, remained⟩, -, rfl⟩ :=
    run_invariant (I := fun life n => n.Lawful ∧ World.Remained life n.world)
      (fun ⟨lawful, remained⟩ step =>
        have advanced := step_advances lawful step
        ⟨advanced.lawful, remained.concat ⟨advanced.fixes, step_units step⟩⟩)
      run ⟨lawful, h⟩
  refine ⟨lawful.store, ?_⟩
  rw [trace, ← List.append_assoc]
  exact remained.concat (refl_of World.Remains _)

end Machine

theorem Store.lawful_empty : ({} : Store).Lawful := by
  intro c mem
  simp at mem

namespace Run

variable {fuel : Nat} {base : Module} {e : BaseExports} {w w' : World} {referenceTypes : Bool}

/-- A valid base that is put in place is lawful, whatever its start function did. -/
theorem place_lawful (valid : base.isValid referenceTypes = true) (lawful : w.store.Lawful)
    (h : (place fuel base).run.run w = some (.ok e, w')) : w'.store.Lawful := by
  obtain ⟨d, v, owner, v₁, surfaced, instantiated, -, installed⟩ := place_cases h
  obtain ⟨u, joined, started⟩ := instantiate_cases instantiated
  have joined : u.store.Lawful := by
    have surfaced := Action.fixes_surface.of_run surfaced
    exact ((Action.fixes_instantiate valid d).of_run joined).lawful (surfaced.lawful lawful)
  have started : v₁.store.Lawful := by
    rcases started with ⟨callee, results, -, run⟩ | ⟨-, rfl⟩
    · exact (Machine.run_remained (Machine.lawful_of_store joined callee []) (World.remained_nil u) run).1
    · exact joined
  obtain ⟨surface, -, rfl⟩ := Action.install_ok installed
  rw [World.store_publish]
  exact started

end Run

/-- All code at a stage is lawful. -/
def Stage.Lawful : Stage → Prop
  | running m => m.Lawful
  | idle s => s.world.store.Lawful

theorem Session.evaluation_lawful {s : Session} {text : String} {m : Machine} (lawful : s.world.store.Lawful)
    (fits : s.evaluation text = .ok m) : m.Lawful ∧ s.world.Remains m.world := by
  obtain ⟨memory, -, store⟩ := evaluation_written fits
  obtain ⟨kept, frames⟩ := evaluation_ok fits
  obtain ⟨args, control⟩ := evaluation_called fits
  have fixes : s.world.Fixes m.world := by
    unfold World.Fixes
    rw [store]
    exact Store.fixes_setMemory _ _ _
  refine ⟨⟨fixes.lawful lawful, ?_, ?_⟩, fixes, kept.same.units ▸ List.prefix_rfl⟩
  · rw [control]
    trivial
  · rw [frames]
    exact List.forall_mem_nil _

/-- In every life all code is lawful, and what its states show remains. -/
theorem Life.remains {life : List Machine} {stage : Stage} (h : Life life stage) :
    stage.Lawful ∧ World.Remained life stage.world := by
  induction h with
  | @starting engine base config log d owner v w callee valid surface joined start =>
    have surfaced := Action.fixes_surface.of_run surface
    have lawful := ((Action.fixes_instantiate valid d).of_run joined).lawful (surfaced.lawful Store.lawful_empty)
    exact ⟨Machine.lawful_of_store lawful callee [], World.remained_nil _⟩
  | initializing valid placed =>
    have lawful := Run.place_lawful valid Store.lawful_empty placed
    exact ⟨Machine.lawful_of_store lawful _ [], World.remained_nil _⟩
  | @loaded engine base config log fuel s valid loaded =>
    obtain ⟨e, w, load, rfl⟩ := Session.load_cases loaded
    obtain ⟨v, v', results, ns, placed, run, rfl⟩ := Run.load_cases load
    have lawful := Run.place_lawful valid Store.lawful_empty placed
    obtain ⟨lawful, remained⟩ :=
      Machine.run_remained (Machine.lawful_of_store lawful e.initializer []) (World.remained_nil v) run
    have noted := World.kept_noteAll { v' with pending := none } ns
    have store : ({ v' with pending := none }.noteAll ns).store = v'.store := World.store_noteAll _ ns
    have trace : Run.initialization fuel base (.fresh engine config log) =
        Machine.visited fuel { world := v, control := .call e.initializer [] } := by
      unfold Run.initialization World.fresh
      rw [placed]
    rw [trace]
    refine ⟨?_, remained.later (World.remains_of_same store ⟨noted.engine, noted.config, noted.program⟩)⟩
    show Store.Lawful (World.noteAll _ ns).store
    rw [store]
    exact lawful
  | evaluating before fits ih =>
    obtain ⟨lawful, remains⟩ := Session.evaluation_lawful ih.1 fits
    exact ⟨lawful, ih.2.later remains⟩
  | step before step ih =>
    have advanced := Machine.step_advances ih.1 step
    exact ⟨advanced.lawful, ih.2.concat ⟨advanced.fixes, Machine.step_units step⟩⟩
  | @submitted life s s' fuel text answer before answered ih =>
    unfold Session.visited
    rcases Session.submit_cases before.waiting.ready answered with
      ⟨f, misfit, rfl⟩ | ⟨m, w, outcome, fits, run, rfl⟩
    · rw [misfit, List.append_nil]
      exact ⟨ih.1, ih.2.later (World.remains_of_same rfl ⟨rfl, rfl, rfl⟩)⟩
    · obtain ⟨lawful, remains⟩ := Session.evaluation_lawful ih.1 fits
      obtain ⟨lawful, remained⟩ := Machine.run_remained lawful (ih.2.later remains) run
      have store := Session.store_settled w outcome
      rw [fits]
      refine ⟨?_, remained.later (World.remains_of_same store ?_)⟩
      · show (Session.settled w outcome).store.Lawful
        rw [store]
        exact lawful
      · exact (Session.same_settled w outcome).1.trans ⟨rfl, rfl, rfl⟩
  | drained before ih => exact ⟨ih.1, ih.2.later (World.remains_of_same rfl ⟨rfl, rfl, rfl⟩)⟩
  | logTaken before ih => exact ⟨ih.1, ih.2.later (World.remains_of_same rfl ⟨rfl, rfl, rfl⟩)⟩
  | timePassed nanos before ih => exact ⟨ih.1, ih.2.later (World.remains_of_same rfl ⟨rfl, rfl, rfl⟩)⟩

end UnitHost
