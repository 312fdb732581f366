import UnitHost.Proofs.ImportOrder
import UnitHost.Proofs.LinkGrowth

/-!
# Links that fail before any code of their unit runs

A link looks for five causes of failure, one after the other, and the fourth comes with growth that is not taken back.
`LinkRequest.Faces` says of the world before the link which causes are present, and `Failure.cause?` which one a failure
reports. The checks are passed through once, in `LinkRequest.prepares`: the first cause present is the one reported,
and by then nothing is lost.
-/

namespace UnitHost

open Wasm

/-- Why a link fails before any code of its unit runs. -/
inductive LinkRequest.Cause where
  /-- The bytes do not lie in memory. -/
  | range
  /-- They are not a valid module. -/
  | code
  /-- A base is below that of the latest unit. -/
  | bases
  /-- Memory or table cannot grow to what the module imports. -/
  | growth
  /-- The import object cannot be built, or does not serve an import. -/
  | imports
  deriving DecidableEq, Repr

namespace LinkRequest.Cause

/-- The order in which causes are looked for. -/
def rank : Cause → Nat
  | range => 0
  | code => 1
  | bases => 2
  | growth => 3
  | imports => 4

theorem rank_lt (c : Cause) : c.rank < 5 := by cases c <;> decide

theorem eq_of_rank_eq {c c' : Cause} (h : c.rank = c'.rank) : c = c' := by
  cases c <;> cases c' <;> first | rfl | cases h

end LinkRequest.Cause

/-- The cause that a failure reports. -/
def Failure.cause? : Failure → Option LinkRequest.Cause
  | .outOfBounds .. => some .range
  | .instantiation .invalid => some .code
  | .offsetRegression .. => some .bases
  | .resourceLimit _ => some .growth
  | .instantiation (.definedTwice ..) => some .imports
  | .instantiation (.unknownImport ..) => some .imports
  | .instantiation (.incompatible ..) => some .imports
  | _ => none

/-- The type with any size allowed for. -/
def Wasm.ExternType.ofAnySize : ExternType → ExternType
  | .memory limits => .memory { limits with min := 0 }
  | .table type => .table { type with limits := { type.limits with min := 0 } }
  | type => type

/-- What an import is offered: the host's items, with the bases in globals that are new, and the symbols. -/
def World.Offered (w : World) (p : Program) (i : Import) (object : Extern) : Prop :=
  ((i.module, i.name), object) ∈ w.config.abi.hostItems p w.store.globals.size ∨
    i.module = w.config.abi.exportsModule ∧ p.symbols.find? i.name = some object

/-- An import is offered something of the type it asks for. Sizes are left to growth, and the values of the bases, which
may be anything here, do not matter for a type. -/
def World.Serves (w : World) (p : Program) (i : Import) : Prop :=
  ∃ object, w.Offered p i object ∧ (w.withBases 0 0).store.fits object i.type.ofAnySize = true

namespace LinkRequest

variable {r : LinkRequest} {w : World} {p : Program}

/-- The module that a request asks for, if there is one. -/
def module? (r : LinkRequest) (w : World) (p : Program) : Option Module :=
  w.engine.compile? ((w.memory p).slice r.address r.count)

/-- The world with the bases of the unit, which it can import. -/
def based (r : LinkRequest) (w : World) : World := w.withBases r.memoryBase.toInt.toNat r.tableBase.toInt.toNat

/-- A cause is present, given the program. -/
def FacesIn (r : LinkRequest) (w : World) (p : Program) : Cause → Prop
  | .range => (w.memory p).size < r.address + r.count
  | .code => r.module? w p = none
  | .bases => r.memoryBase.toInt < p.floor.1 ∨ r.tableBase.toInt < p.floor.2
  | .growth => ∃ module, r.module? w p = some module ∧ ∃ i ∈ module.imports, w.Refuses p i
  | .imports => w.config.abi.BasesCollide ∨
      ∃ module, r.module? w p = some module ∧ ∃ i ∈ module.imports, ¬ w.Serves p i

/-- A cause is present. There is none before the program is in place. -/
def Faces (r : LinkRequest) (w : World) (c : Cause) : Prop := ∃ p, w.program = some p ∧ r.FacesIn w p c

theorem faces_iff (hp : w.program = some p) (c : Cause) : r.Faces w c ↔ r.FacesIn w p c := by
  constructor
  · rintro ⟨q, hq, faces⟩
    rw [hp] at hq
    cases hq
    exact faces
  · exact fun faces => ⟨p, hp, faces⟩

/-- A cause is present and none that is looked for earlier. -/
def First (r : LinkRequest) (w : World) (c : Cause) : Prop := r.Faces w c ∧ ∀ e : Cause, e.rank < c.rank → ¬ r.Faces w e

theorem First.unique {c c' : Cause} (h : r.First w c) (h' : r.First w c') : c = c' := by
  rcases Nat.lt_trichotomy c.rank c'.rank with before | same | after
  · exact absurd h.1 (h'.2 c before)
  · exact Cause.eq_of_rank_eq same
  · exact absurd h'.1 (h.2 c' after)

/-- No cause up to a rank is present. -/
def Clear (r : LinkRequest) (w : World) (n : Nat) : Prop := ∀ e : Cause, e.rank < n → ¬ r.Faces w e

theorem Clear.next {c : Cause} (h : r.Clear w c.rank) (absent : ¬ r.Faces w c) : r.Clear w (c.rank + 1) := by
  intro e below
  rcases Nat.lt_succ_iff_lt_or_eq.1 below with earlier | same
  · exact h e earlier
  · rw [Cause.eq_of_rank_eq same]
    exact absent

end LinkRequest

/-! Bases. -/

theorem checkBase_cases (region : Region) (requested : Int32) (previous : Nat) :
    checkBase region requested previous = .ok requested.toInt.toNat ∧ ¬ requested.toInt < previous ∨
      checkBase region requested previous = .error (.offsetRegression region requested.toInt previous) ∧
        requested.toInt < previous := by
  unfold checkBase
  split
  · exact .inl ⟨rfl, by omega⟩
  · exact .inr ⟨rfl, by omega⟩

theorem LinkRequest.checkBases_cases (r : LinkRequest) (previous : Nat × Nat) :
    r.checkBases previous = .ok (r.memoryBase.toInt.toNat, r.tableBase.toInt.toNat) ∧
        ¬ (r.memoryBase.toInt < previous.1 ∨ r.tableBase.toInt < previous.2) ∨
      ∃ region requested base, r.checkBases previous = .error (.offsetRegression region requested base) ∧
        (r.memoryBase.toInt < previous.1 ∨ r.tableBase.toInt < previous.2) := by
  unfold checkBases
  rcases checkBase_cases .memory r.memoryBase previous.1 with ⟨memory, above⟩ | ⟨memory, below⟩
  · rw [memory]
    rcases checkBase_cases .table r.tableBase previous.2 with ⟨table, higher⟩ | ⟨table, below⟩
    · exact .inl ⟨by simp only [bind, Except.bind, table], by omega⟩
    · exact .inr ⟨_, _, _, by simp only [bind, Except.bind, table]; rfl, .inr below⟩
  · rw [memory]
    exact .inr ⟨_, _, _, rfl, .inl below⟩

/-! Imports. -/

theorem error_of_mapM {f : α → Except ε β} {xs : List α} {e : ε} (h : xs.mapM f = .error e) :
    ∃ x ∈ xs, f x = .error e := by
  induction xs with
  | nil => cases h
  | cons x xs ih =>
    rw [List.mapM_cons] at h
    cases hx : f x with
    | error e' =>
      rw [hx] at h
      cases h
      exact ⟨x, List.mem_cons_self, hx⟩
    | ok y =>
      rw [hx] at h
      cases hxs : xs.mapM f with
      | error e' =>
        rw [hxs] at h
        cases h
        obtain ⟨x', mem, failed⟩ := ih hxs
        exact ⟨x', List.mem_cons_of_mem x mem, failed⟩
      | ok ys => rw [hxs] at h; cases h

theorem bind_eq_error {e : Except ε α} {f : α → Except ε β} {fault : ε} (h : e >>= f = .error fault) :
    e = .error fault ∨ ∃ x, e = .ok x ∧ f x = .error fault := by
  cases e with
  | error fault' => cases h; exact .inl rfl
  | ok x => exact .inr ⟨x, rfl, h⟩

/-- Something is found for an import, and it fits. -/
def Definitions.Binds (d : Definitions) (s : Store) (i : Import) : Prop :=
  ∃ object, d.find? i.module i.name = some object ∧ s.fits object i.type = true

namespace Definitions

variable {d : Definitions} {s : Store} {imports : List Import}

theorem binds_of_resolve {objects : List Extern} (h : d.resolve s imports = .ok objects) {i : Import}
    (mem : i ∈ imports) : d.Binds s i := by
  have bound := resolve_ok h
  obtain ⟨n, inside, rfl⟩ := List.mem_iff_getElem.1 mem
  exact ⟨_, bound.get inside (bound.length_eq ▸ inside)⟩

/-- If imports are not resolved, one of them is not bound. -/
theorem unbound_of_resolve {fault : InstantiationFault} (h : d.resolve s imports = .error fault) :
    (Failure.instantiation fault).cause? = some .imports ∧ ∃ i ∈ imports, ¬ d.Binds s i := by
  rcases bind_eq_error h with unknown | ⟨objects, looked, misfit⟩
  · obtain ⟨i, mem, missing⟩ := error_of_mapM unknown
    cases found : d.find? i.module i.name with
    | some object => rw [found] at missing; cases missing
    | none =>
      rw [found] at missing
      cases missing
      refine ⟨rfl, i, mem, fun ⟨object, known, _⟩ => ?_⟩
      rw [found] at known
      cases known
  · have pairs := List.forall₂_iff_zip.1 (forall₂_of_mapM_ok looked)
    split at misfit
    · rename_i i object first
      cases misfit
      have member := List.mem_of_find?_eq_some first
      have unfit : s.fits object i.type = false := by simpa using List.find?_some first
      have bound := pairs.2 member
      refine ⟨rfl, i, (List.of_mem_zip member).1, fun ⟨other, known, fits⟩ => ?_⟩
      rw [known] at bound
      cases bound
      rw [unfit] at fits
      cases fits
    · cases misfit

end Definitions

/-- A module joins the store, or a segment of it does not fit, exactly if its imports are bound. Until then the store is
as it was. -/
theorem Store.instantiate_cases (s : Store) (d : Definitions) (m : Module) :
    (∀ i ∈ m.imports, d.Binds s i) ∧
        ((∃ owner s', s.instantiate d m = (.ok owner, s')) ∨ ∃ text s', s.instantiate d m = (.error (.raised text), s')) ∨
      ∃ fault, s.instantiate d m = (.error fault, s) ∧ (Failure.instantiation fault).cause? = some .imports ∧
        ∃ i ∈ m.imports, ¬ d.Binds s i := by
  unfold instantiate
  cases resolved : d.resolve s m.imports with
  | error fault => exact .inr ⟨fault, rfl, Definitions.unbound_of_resolve resolved⟩
  | ok objects =>
    refine .inl ⟨fun i mem => Definitions.binds_of_resolve resolved mem, ?_⟩
    dsimp only
    rcases (s.allocate m objects).2.writeSegments m (s.allocate m objects).1 with ⟨trap | ⟨⟩, s'⟩
    · exact .inr ⟨_, s', rfl⟩
    · exact .inl ⟨_, s', rfl⟩

/-! What is offered. -/

theorem Abi.memory_of_mem_hostItems {abi : Abi} {p : Program} {address a : Nat} {module name : String}
    (h : ((module, name), .memory a) ∈ abi.hostItems p address) :
    module = abi.systemModule ∧ name = abi.importMemory ∧ a = p.memory := by
  simpa [hostItems, surfaceItems, callItems, baseItems, and_assoc] using h

theorem Abi.table_of_mem_hostItems {abi : Abi} {p : Program} {address a : Nat} {module name : String}
    (h : ((module, name), .table a) ∈ abi.hostItems p address) :
    module = abi.systemModule ∧ name = abi.importTable ∧ a = p.table := by
  simpa [hostItems, surfaceItems, callItems, baseItems, and_assoc] using h

/-- Memories and tables are not published. -/
theorem Program.Published.kind_of_symbol {p : Program} {abi : Abi} (h : p.Published abi) {name : String} {object : Extern}
    (found : p.symbols.find? name = some object) : object.kind = .func ∨ object.kind = .global := by
  have symbol {owner : Instance} (mem : (name, object) ∈ owner.symbols) : object.kind = .func ∨ object.kind = .global := by
    have published := (List.mem_filter.1 mem).2
    cases object with
    | func callee => exact .inl rfl
    | global address => exact .inr rfl
    | memory address => cases published
    | table address => cases published
  rcases h.exported found with based | ⟨v, -, -, exported⟩
  · exact symbol based
  · exact symbol exported

section Served

variable {r : LinkRequest} {w w' : World} {p : Program} {i : Import} {object : Extern}

theorem withinLimits_of_any {size size' : Nat} {maximum : Option Nat} {l : Limits} (enough : l.min ≤ size) :
    Store.withinLimits size maximum l = Store.withinLimits size' maximum { l with min := 0 } := by
  simp [Store.withinLimits, enough]

theorem World.fits_withBases (w : World) (memoryBase tableBase : Nat) (object : Extern) (type : ExternType) :
    (w.withBases memoryBase tableBase).store.fits object type = (w.withBases 0 0).store.fits object type := by
  cases object with
  | global address =>
    cases type with
    | global wanted =>
      have typed (globals : Array Global) : (globals[address]?).any (·.type == wanted) =
          ((globals.map (·.type))[address]?).any (· == wanted) := by
        rw [Array.getElem?_map, Option.any_map]
      have types : (w.withBases memoryBase tableBase).store.globals.map (·.type) =
          (w.withBases 0 0).store.globals.map (·.type) := by simp [World.withBases, Store.constant]
      change ((w.withBases memoryBase tableBase).store.globals[address]?).any _ =
        ((w.withBases 0 0).store.globals[address]?).any _
      rw [typed, typed, types]
    | func _ => rfl
    | memory _ => rfl
    | table _ => rfl
  | func callee => cases type <;> rfl
  | memory address => cases type <;> rfl
  | table address => cases type <;> rfl

/-- A memory that is large enough now fits if it fitted before, whatever its size. -/
theorem World.Spares.fits_memory (spares : w.Spares w') {address : Nat} {limits : Limits}
    (enough : address < w'.store.memories.size → limits.min ≤ (w'.store.memory address).pages) :
    w'.store.fits (.memory address) (.memory limits) = w.store.fits (.memory address) (.memory { limits with min := 0 }) := by
  unfold Store.fits
  dsimp only
  cases found : w.store.memories[address]? with
  | none =>
    have outside := Array.getElem?_eq_none_iff.1 found
    rw [Array.getElem?_eq_none (spares.memoryCount.symm ▸ outside)]
    rfl
  | some m =>
    obtain ⟨m', found', widens⟩ := spares.memory? found
    have large := enough (Array.getElem?_eq_some_iff.1 found').1
    rw [Store.memory, found'] at large
    rw [found', Option.any_some, Option.any_some, widens.maximum]
    exact withinLimits_of_any large

/-- A table that is large enough now fits if it fitted before, whatever its size. -/
theorem World.Spares.fits_table (spares : w.Spares w') {address : Nat} {wanted : TableType}
    (enough : address < w'.store.tables.size → wanted.limits.min ≤ (w'.store.table address).size) :
    w'.store.fits (.table address) (.table wanted) =
      w.store.fits (.table address) (.table { wanted with limits := { wanted.limits with min := 0 } }) := by
  unfold Store.fits
  dsimp only
  cases found : w.store.tables[address]? with
  | none =>
    have outside := Array.getElem?_eq_none_iff.1 found
    rw [Array.getElem?_eq_none (spares.tableCount.symm ▸ outside)]
    rfl
  | some t =>
    obtain ⟨t', found', widens⟩ := spares.table? found
    have large := enough (Array.getElem?_eq_some_iff.1 found').1
    rw [Store.table, found'] at large
    rw [found', Option.any_some, Option.any_some, widens.kind, widens.maximum]
    exact congrArg _ (withinLimits_of_any large)

/-- Once memory and table have grown, sizes do not matter for whether an object fits. -/
theorem World.Grown.fits_eq (grown : w.Grown w' p) (sized : w'.Sized p i) (published : p.Published w.config.abi)
    (offered : w.Offered p i object) :
    (r.based w').store.fits object i.type = (r.based w).store.fits object i.type.ofAnySize := by
  have spares := grown.spares
  obtain ⟨pages, slots, sized, memory, table⟩ := sized
  rw [spares.kept.config] at sized
  cases object with
  | func callee =>
    cases type : i.type with
    | func wanted =>
      have same : (r.based w').store.calleeType callee = (r.based w).store.calleeType callee := by
        have funcs : (r.based w').store.funcs = (r.based w).store.funcs := spares.funcs
        unfold Store.calleeType
        rw [funcs]
      exact congrArg (· == wanted) same
    | memory _ => rfl
    | table _ => rfl
    | global _ => rfl
  | memory address =>
    cases type : i.type with
    | memory limits =>
      rcases offered with host | ⟨-, symbol⟩
      · obtain ⟨system, name, rfl⟩ := Abi.memory_of_mem_hostItems host
        have enough : limits.min ≤ pages := by
          have asked := sized system
          rw [type] at asked
          exact asked name
        exact spares.fits_memory fun inside => Nat.le_trans enough (memory inside)
      · rcases published.kind_of_symbol symbol with kind | kind <;> cases kind
    | func _ => rfl
    | table _ => rfl
    | global _ => rfl
  | table address =>
    cases type : i.type with
    | table wanted =>
      rcases offered with host | ⟨-, symbol⟩
      · obtain ⟨system, name, rfl⟩ := Abi.table_of_mem_hostItems host
        have enough : wanted.limits.min ≤ slots := by
          have asked := sized system
          rw [type] at asked
          exact asked name
        exact spares.fits_table fun inside => Nat.le_trans enough (table inside)
      · rcases published.kind_of_symbol symbol with kind | kind <;> cases kind
    | func _ => rfl
    | memory _ => rfl
    | global _ => rfl
  | global address =>
    cases type : i.type with
    | global wanted =>
      have globals : (r.based w').store.globals = (r.based w).store.globals := by
        simp only [LinkRequest.based, World.withBases, Store.constant, grown.globals]
      exact congrArg (fun globals : Array Global => (globals[address]?).any (·.type == wanted)) globals
    | func _ => rfl
    | memory _ => rfl
    | table _ => rfl

/-- An import is bound after growth exactly if it was served before it. -/
theorem World.Grown.binds_iff (grown : w.Grown w' p) (sized : w'.Sized p i) (published : p.Published w.config.abi)
    {d : Definitions} (offers : d.Offers w.config.abi p w'.store.globals.size) :
    d.Binds (r.based w').store i ↔ w.Serves p i := by
  rw [grown.globals] at offers
  constructor
  · rintro ⟨object, found, fits⟩
    have offered := (offers i.module i.name object).1 found
    rw [grown.fits_eq sized published offered, LinkRequest.based, World.fits_withBases] at fits
    exact ⟨object, offered, fits⟩
  · rintro ⟨object, offered, fits⟩
    rw [← w.fits_withBases r.memoryBase.toInt.toNat r.tableBase.toInt.toNat] at fits
    have fits : (r.based w').store.fits object i.type = true := (grown.fits_eq sized published offered).trans fits
    exact ⟨object, (offers i.module i.name object).2 offered, fits⟩

end Served

/-! One pass through the checks. -/

/-- How a link goes up to the first code of its unit: the first cause present is reported and nothing is lost by then, or
there is none. -/
inductive LinkRequest.Prepares (r : LinkRequest) (w : World) : Except Failure Linking × World → Prop where
  | refused {c : Cause} {f : Failure} {w' : World} (reported : f.cause? = some c) (first : r.First w c)
      (spares : w.Spares w') (early : c.rank < Cause.growth.rank → w' = w) : Prepares r w (.error f, w')
  | failed {f : Failure} {w' : World} (unreported : f.cause? = none) (absent : ∀ c, ¬ r.Faces w c) :
      Prepares r w (.error f, w')
  | prepared {l : Linking} {w' : World} (absent : ∀ c, ¬ r.Faces w c) : Prepares r w (.ok l, w')

namespace LinkRequest

variable {r : LinkRequest} {w w' : World} {p : Program}

/-- The last of the checks, made once memory and table have grown. -/
theorem prepares_of_grown {bytes : List UInt8} {module : Module} (hp : w.program = some p)
    (linkable : p.Linkable w.config.abi) (published : p.Published w.config.abi) (compiled : r.module? w p = some module)
    (grown : w.Grown w' p) (sized : ∀ i ∈ module.imports, w'.Sized p i) (clear : r.Clear w Cause.imports.rank) :
    r.Prepares w ((Action.importObject p r.memoryBase.toInt.toNat r.tableBase.toInt.toNat >>= fun d =>
      Action.instantiate d module >>= fun owner => pure
        { bytes, module, owner, memoryBase := r.memoryBase.toInt.toNat, tableBase := r.tableBase.toInt.toNat : Linking
          }).run.run w') := by
  have names : w'.config.abi = w.config.abi := congrArg Config.abi grown.spares.kept.config
  have spares : w.Spares (r.based w') :=
    grown.spares.trans ⟨⟨rfl, rfl, rfl, rfl⟩, rfl, rfl, rfl, rfl, fun _ => .refl _, fun _ => .refl _⟩
  have refused {f : Failure} (reported : f.cause? = some .imports) (faced : r.FacesIn w p .imports) :
      r.Prepares w (.error f, r.based w') :=
    .refused reported ⟨(faces_iff hp _).2 faced, clear⟩ spares fun early => absurd early (by decide)
  rw [Action.run_bind]
  by_cases collide : w.config.abi.BasesCollide
  · obtain ⟨pair, -, failed⟩ : ∃ pair ∈ w.config.abi.basePairs,
        (Action.importObject p r.memoryBase.toInt.toNat r.tableBase.toInt.toNat).run.run w' =
          (.error (.instantiation (.definedTwice pair.1 pair.2)), r.based w') :=
      linkable.importObject_of_collide collide w' names _ _
    rw [failed]
    exact refused rfl (.inl collide)
  obtain ⟨d, offers, built⟩ : ∃ d : Definitions, d.Offers w.config.abi p w'.store.globals.size ∧
      (Action.importObject p r.memoryBase.toInt.toNat r.tableBase.toInt.toNat).run.run w' = (.ok d, r.based w') :=
    linkable.importObject_of_apart (.refl p.symbols.entries) collide w' names _ _
  rw [built]
  dsimp only
  have binds {i : Import} (mem : i ∈ module.imports) : d.Binds (r.based w').store i ↔ w.Serves p i :=
    grown.binds_iff (sized i mem) published offers
  rw [Action.run_bind]
  rcases (r.based w').store.instantiate_cases d module with ⟨bound, joined⟩ | ⟨fault, unbound, reported, i, mem, missing⟩
  · have served : ¬ r.Faces w .imports := by
      rw [faces_iff hp]
      rintro (faced | ⟨other, found, i, mem, unserved⟩)
      · exact collide faced
      · rw [compiled] at found
        cases found
        exact unserved ((binds mem).1 (bound i mem))
    have absent (c : Cause) : ¬ r.Faces w c := clear.next served c c.rank_lt
    rcases joined with ⟨owner, s, joined⟩ | ⟨text, s, raised⟩
    · have run : (Action.instantiate d module).run.run (r.based w') = (.ok owner, { r.based w' with store := s }) := by
        unfold Action.instantiate
        rw [Action.run_bind, Action.run_get]
        dsimp only
        rw [joined]
        rfl
      rw [run]
      exact .prepared absent
    · rw [Action.run_instantiate_error raised]
      exact .failed rfl absent
  · rw [Action.run_instantiate_error unbound]
    exact refused reported (.inr ⟨module, compiled, i, mem, fun served => missing ((binds mem).2 served)⟩)

/-- The checks from the growth of memory and table on. -/
theorem prepares_of_based {bytes : List UInt8} {module : Module} (hp : w.program = some p)
    (linkable : p.Linkable w.config.abi) (published : p.Published w.config.abi) (compiled : r.module? w p = some module)
    (clear : r.Clear w Cause.growth.rank) :
    r.Prepares w ((Action.growToFit p module.imports >>= fun _ =>
      Action.importObject p r.memoryBase.toInt.toNat r.tableBase.toInt.toNat >>= fun d =>
      Action.instantiate d module >>= fun owner => pure
        { bytes, module, owner, memoryBase := r.memoryBase.toInt.toNat, tableBase := r.tableBase.toInt.toNat : Linking
          }).run.run w) := by
  rw [Action.run_bind]
  obtain ⟨w', grown, ⟨run, fit⟩ | ⟨fault, run, refused⟩⟩ := Action.growToFit_cases p module.imports w
  · have roomy : ¬ r.Faces w .growth := by
      rw [faces_iff hp]
      rintro ⟨other, known, i, mem, refused⟩
      rw [compiled] at known
      cases known
      exact (fit i mem).2 refused
    rw [run]
    exact prepares_of_grown hp linkable published compiled grown (fun i mem => (fit i mem).1) (clear.next roomy)
  · rw [run]
    exact .refused rfl ⟨(faces_iff hp .growth).2 ⟨module, compiled, refused⟩, clear⟩ grown.spares
      fun earlier => absurd earlier (Nat.lt_irrefl _)

/-- A link reports the first cause that is present. -/
theorem prepares (r : LinkRequest) (w : World) (linkable : ∀ p, w.program = some p → p.Linkable w.config.abi)
    (published : ∀ p, w.program = some p → p.Published w.config.abi) :
    r.Prepares w ((Action.prepare r).run.run w) := by
  unfold Action.prepare
  rw [Action.run_bind, Action.run_program]
  cases hp : w.program with
  | none =>
    refine .failed rfl fun c ⟨p, found, _⟩ => ?_
    rw [hp] at found
    cases found
  | some p =>
    have early {c : Cause} {f : Failure} (reported : f.cause? = some c) (faced : r.FacesIn w p c)
        (clear : r.Clear w c.rank) : r.Prepares w (.error f, w) :=
      .refused reported ⟨(faces_iff hp c).2 faced, clear⟩ (.refl w) fun _ => rfl
    have absent {c : Cause} (not : ¬ r.FacesIn w p c) : ¬ r.Faces w c := fun faced => not ((faces_iff hp c).1 faced)
    dsimp only
    rw [Action.run_bind, Action.run_get]
    dsimp only
    rw [Action.run_bind, Action.run_ofExcept]
    have start : r.Clear w Cause.range.rank := fun e below => absurd below (Nat.not_lt_zero _)
    unfold Memory.readBytes
    by_cases inside : r.address + r.count ≤ (w.memory p).size
    · rw [if_pos inside]
      have ranged : r.Clear w Cause.code.rank := start.next (absent (Nat.not_lt.2 inside))
      dsimp only
      rw [Action.run_bind]
      unfold Action.compile
      rw [Action.run_bind, Action.run_get]
      dsimp only
      cases compiled : r.module? w p with
      | none =>
        unfold module? at compiled
        rw [compiled]
        exact early rfl compiled ranged
      | some module =>
        have coded : r.Clear w Cause.bases.rank := ranged.next (absent (c := .code) (by simp [FacesIn, compiled]))
        have found := compiled
        unfold module? at found
        rw [found]
        change r.Prepares w ((Action.ofExcept (r.checkBases p.floor) >>= _ : Action Linking).run.run w)
        rw [Action.run_bind, Action.run_ofExcept]
        rcases r.checkBases_cases p.floor with ⟨based, above⟩ | ⟨region, requested, base, regressed, below⟩
        · have placed : r.Clear w Cause.growth.rank := coded.next (absent (c := .bases) above)
          rw [based]
          exact prepares_of_based hp (linkable p hp) (published p hp) compiled placed
        · rw [regressed]
          exact early rfl below coded
    · rw [if_neg inside]
      exact early rfl (Nat.not_le.1 inside) start

end LinkRequest

/-! Links. -/

/-- Nothing that was there is lost: the program, the response and the console are the same, and so is what memories and
tables hold. What they have more is zero or empty. -/
structure World.Intact (w w' : World) : Prop where
  units : w'.units = w.units
  symbols : w'.program.map (·.symbols) = w.program.map (·.symbols)
  pending : w'.pending = w.pending
  console : w'.journal.console = w.journal.console
  pages : ∀ memory, (w.store.memory memory).pages ≤ (w'.store.memory memory).pages
  bytes : ∀ memory, ∀ address < (w.store.memory memory).size,
    (w'.store.memory memory).byte address = (w.store.memory memory).byte address
  zeroed : ∀ memory address, (w.store.memory memory).size ≤ address → (w'.store.memory memory).byte address = 0
  sizes : ∀ table, (w.store.table table).size ≤ (w'.store.table table).size
  slots : ∀ table, ∀ slot < (w.store.table table).size,
    (w'.store.table table).get? slot = (w.store.table table).get? slot
  empty : ∀ table slot, (w.store.table table).size ≤ slot → (w'.store.table table).get? slot = none

theorem World.Spares.intact {w w' : World} (h : w.Spares w') : w.Intact w' where
  units := h.kept.same.units
  symbols := by rw [h.kept.program]
  pending := h.kept.pending
  console := h.console
  pages memory := (h.memories memory).pages
  bytes memory address _ := (h.memories memory).byte_eq address
  zeroed memory address behind := by
    rw [(h.memories memory).byte_eq]
    exact Memory.byte_of_size_le behind
  sizes table := (h.tables table).size
  slots table slot _ := (h.tables table).get?_eq slot
  empty table slot behind := by
    rw [(h.tables table).get?_eq]
    exact Table.get?_of_size_le behind

/-- An export that cannot be used is reported as such. -/
theorem cause?_of_typedExport {s : Store} {owner : Instance} {name : String} {type : FuncType} {f : Failure}
    (h : typedExport s owner name type = .error f) : f.cause? = none := by
  unfold typedExport at h
  dsimp only at h
  split at h
  · split at h
    all_goals cases h
    all_goals rfl
  · cases h
    rfl

namespace Machine

/-- The cause that is being reported. -/
def reported? (m : Machine) : Option LinkRequest.Cause :=
  match m.control with
  | .raise (.failure f) => f.cause?
  | _ => none

/-- A unit that has been linked up to its own code fails for other reasons. -/
theorem reported?_enterUnit (m : Machine) (l : Linking) : (m.enterUnit l).reported? = none := by
  unfold enterUnit
  dsimp only
  split
  · rename_i f missing
    exact cause?_of_typedExport missing
  · split
    · rename_i f missing
      exact cause?_of_typedExport missing
    · rfl

/-- A link that is refused reports the first cause, spares what there is and goes no further; any other reports none. -/
theorem link_cases {life : List Machine} {m : Machine} (h : Life life (.running m)) (r : LinkRequest) :
    (∃ c, r.First m.world c ∧ (m.link r).reported? = some c ∧ (m.link r).frames = m.frames ∧
        m.world.Spares (m.link r).world ∧
        (c.rank < LinkRequest.Cause.growth.rank → (m.link r).world.store = m.world.store)) ∨
      (∀ c, ¬ r.Faces m.world c) ∧ (m.link r).reported? = none := by
  have prepares := r.prepares m.world (fun p hp => h.linkable hp) (invariant_published.holds h).1
  unfold link
  rcases run : (Action.prepare r).run.run m.world with ⟨f | l, w'⟩
  · rw [run] at prepares
    cases prepares with
    | refused reported first spares early =>
      refine .inl ⟨_, first, reported, rfl, spares.trans ⟨w'.kept_note _, rfl, rfl, rfl, rfl, fun _ => .refl _,
        fun _ => .refl _⟩, fun below => ?_⟩
      rw [early below]
      rfl
    | failed unreported absent => exact .inr ⟨absent, unreported⟩
  · rw [run] at prepares
    cases prepares with
    | prepared absent =>
      refine .inr ⟨absent, ?_⟩
      dsimp only
      split
      · rfl
      · exact reported?_enterUnit _ l

end Machine

/-- A base that nests the link of a unit which wants a second page and then imports a name that nobody defines. -/
def Sample.greedyBase : Module := nesting "(import \"env\" \"memory\"(memory 2))(import \"env\" \"ghost\"(func))"

/-- From every state of every life, a link reports one of the five causes exactly if it is present and none before it is.
Then the link is over, and nothing that was there is lost; where growth has not begun, the objects are the same. -/
theorem failed_links_lose_nothing {life : List Machine} {m : Machine} (h : Life life (.running m)) (r : LinkRequest)
    (c : LinkRequest.Cause) :
    ((m.link r).reported? = some c ↔ r.Faces m.world c ∧ ∀ e : LinkRequest.Cause, e.rank < c.rank → ¬ r.Faces m.world e) ∧
    ((m.link r).reported? = some c →
      (m.link r).frames = m.frames ∧ m.world.Intact (m.link r).world ∧
      (c.rank < LinkRequest.Cause.growth.rank → (m.link r).world.store = m.world.store)) := by
  rcases Machine.link_cases h r with ⟨first, faced, reported, frames, spares, early⟩ | ⟨absent, silent⟩
  · rw [reported]
    refine ⟨⟨?_, fun present => congrArg some (faced.unique present)⟩, ?_⟩
    · rintro ⟨⟩
      exact faced
    · rintro ⟨⟩
      exact ⟨frames, spares.intact, early⟩
  · rw [silent]
    exact ⟨⟨nofun, fun present => absurd present.1 (absent c)⟩, nofun⟩

/-- The inner link of a session grows memory before it fails. With a negative base it has two causes; it reports that, and
memory keeps its size. -/
theorem greedy_link_fails_twice :
    ∃ life m r, Life life (.running m) ∧ m.link? = some r ∧
      (r.Faces m.world .imports ∧ (m.link r).reported? = some .imports ∧ m.world.Intact (m.link r).world ∧
        ((m.world.store.memory 0).pages, ((m.link r).world.store.memory 0).pages) = (1, 2)) ∧
      ({ r with memoryBase := -1 }).Faces m.world .bases ∧ ({ r with memoryBase := -1 }).Faces m.world .imports ∧
      (m.link { r with memoryBase := -1 }).reported? = some .bases ∧
      (m.link { r with memoryBase := -1 }).world.store = m.world.store := by
  have evaluated : ((Session.load 100 {} Sample.greedyBase {}).bind fun loaded => loaded.toOption.bind fun s =>
      ((s.visited 100 "").find? fun m => m.link?.any (·.memoryBase == 2048)).bind fun m => m.link?.map fun r =>
        ((m.link r).reported?, (m.world.store.memory 0).pages, ((m.link r).world.store.memory 0).pages,
          (m.link { r with memoryBase := -1 }).reported?)) = some (some .imports, 1, 2, some .bases) := by decide +kernel
  obtain ⟨loaded, begun, evaluated⟩ := Option.bind_eq_some_iff.1 evaluated
  obtain ⟨s, ok, evaluated⟩ := Option.bind_eq_some_iff.1 evaluated
  rw [ok_of_toOption ok] at begun
  obtain ⟨m, reached, evaluated⟩ := Option.bind_eq_some_iff.1 evaluated
  obtain ⟨r, link, found⟩ := Option.map_eq_some_iff.1 evaluated
  simp only [Prod.mk.injEq] at found
  obtain ⟨unknown, before, after, negative⟩ := found
  obtain ⟨life, h⟩ := (Life.loaded (by decide +kernel) begun).of_evaluated (List.mem_of_find?_eq_some reached)
  obtain ⟨first, lost⟩ := failed_links_lose_nothing h r .imports
  obtain ⟨faced, -⟩ := first.1 unknown
  obtain ⟨-, intact, -⟩ := lost unknown
  obtain ⟨first', lost'⟩ := failed_links_lose_nothing h { r with memoryBase := -1 } .bases
  obtain ⟨-, -, same⟩ := lost' negative
  exact ⟨life, m, r, h, link, ⟨faced, unknown, intact, by rw [before, after]⟩, (first'.1 negative).1, faced, negative,
    same (by decide)⟩

end UnitHost
