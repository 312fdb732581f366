import Mathlib.Data.List.Forall2
import Mathlib.Data.List.Nodup
import UnitHost.Proofs.Actions

/-!
# What a unit can import

Definitions are built in three places: the host calls and the version when a session begins, the shared
memory and table when the base is in place, and the two bases and the published symbols for each unit.
Each is `Definitions.extend` by a list of items, so one lemma, `extend_eq_ok_iff`, says when any of them
succeeds and what it holds then. `surface_ok`, `install_ok` and `run_importObject` tell the three in its
terms.
-/

namespace UnitHost

open Wasm

namespace Abi

/-- The pairs defined once for a session: the ten host calls, the version, the shared memory and the
shared table. -/
def surfacePairs (abi : Abi) : List (String × String) :=
  [HostCall.log, .warn, .error, .panicError, .group, .groupEnd, .mark, .compileInit, .postOutput, .postError].map
      (fun call => (abi.hostModule call, abi.hostName call)) ++
    [(abi.envModule, "__surface_version"), (abi.systemModule, abi.importMemory),
      (abi.systemModule, abi.importTable)]

/-- The pairs of the two bases, defined anew for each unit. -/
def basePairs (abi : Abi) : List (String × String) :=
  [(abi.systemModule, abi.memoryBase), (abi.systemModule, abi.tableBase)]

/-- Every pair of module and name the host itself defines for a unit. -/
def hostPairs (abi : Abi) : List (String × String) := abi.surfacePairs ++ abi.basePairs

/-- The pairs in the terms in which the host defines them. -/
theorem hostPairs_eq (abi : Abi) : abi.hostPairs =
    HostCall.all.map (fun call => (abi.hostModule call, abi.hostName call)) ++
      (abi.envModule, surfaceVersionName) :: abi.systemNames.map (abi.systemModule, ·) := rfl

/-- A name is reserved exactly if the host defines it in the module exports are published under. -/
theorem isReserved_iff (abi : Abi) (name : String) :
    abi.isReserved name = true ↔ (abi.exportsModule, name) ∈ abi.hostPairs := by
  simp only [isReserved, hostPairs_eq, Bool.or_eq_true, Bool.and_eq_true, List.any_eq_true, beq_iff_eq,
    List.contains_iff_mem, List.mem_append, List.mem_map, List.mem_cons, Prod.mk.injEq]
  constructor
  · rintro ((⟨call, mem, module, found⟩ | ⟨module, found⟩) | ⟨module, found⟩)
    · exact .inl ⟨call, mem, module, found⟩
    · exact .inr (.inl ⟨module.symm, found⟩)
    · exact .inr (.inr ⟨name, found, module, rfl⟩)
  · rintro (⟨call, mem, module, found⟩ | ⟨module, found⟩ | ⟨_, found, module, rfl⟩)
    · exact .inl (.inl ⟨call, mem, module, found⟩)
    · exact .inl (.inr ⟨module.symm, found⟩)
    · exact .inr ⟨module, found⟩

/-- The host calls under their pairs. -/
def callItems (abi : Abi) : List ((String × String) × Extern) :=
  HostCall.all.map fun call => ((abi.hostModule call, abi.hostName call), .func (.host call))

/-- What is defined once for a session, given where the version, the memory and the table live. -/
def surfaceItems (abi : Abi) (version memory table : Nat) : List ((String × String) × Extern) :=
  abi.callItems ++
    [((abi.envModule, surfaceVersionName), .global version),
      ((abi.systemModule, abi.importMemory), .memory memory),
      ((abi.systemModule, abi.importTable), .table table)]

/-- The two bases, in globals that lie next to each other. -/
def baseItems (abi : Abi) (address : Nat) : List ((String × String) × Extern) :=
  [((abi.systemModule, abi.memoryBase), .global address),
    ((abi.systemModule, abi.tableBase), .global (address + 1))]

/-- Published symbols under the module of exports. -/
def symbolItems (abi : Abi) (entries : List (String × Extern)) : List ((String × String) × Extern) :=
  entries.map fun e => ((abi.exportsModule, e.1), e.2)

theorem surfaceItems_pairs (abi : Abi) (version memory table : Nat) :
    (abi.surfaceItems version memory table).map (·.1) = abi.surfacePairs := rfl

theorem baseItems_pairs (abi : Abi) (address : Nat) : (abi.baseItems address).map (·.1) = abi.basePairs := rfl

end Abi

/-- Where no key occurs twice, the order of a list of entries does not matter. -/
theorem lookup_eq_some_iff_mem [BEq α] [LawfulBEq α] {entries : List (α × β)} {key : α} {value : β}
    (distinct : (entries.map (·.1)).Nodup) : entries.lookup key = some value ↔ (key, value) ∈ entries := by
  rw [List.lookup_eq_some_iff]
  constructor
  · rintro ⟨before, after, split, -⟩
    simp [split]
  · intro mem
    obtain ⟨before, after, split⟩ := List.append_of_mem mem
    refine ⟨before, after, split, fun e earlier => ?_⟩
    rw [split, List.map_append, List.map_cons, List.nodup_append] at distinct
    exact bne_iff_ne.2 fun same =>
      distinct.2.2 e.1 (List.mem_map.2 ⟨e, earlier, rfl⟩) key (by simp) same.symm

namespace Definitions

variable {d d' : Definitions} {module name : String} {object : Extern}
  {items : List ((String × String) × Extern)}

/-- The pairs that are defined, in order. -/
def pairs (d : Definitions) : List (String × String) := d.entries.map (·.1)

theorem find?_eq_none_iff : d.find? module name = none ↔ (module, name) ∉ d.pairs := by
  simp only [find?, List.lookup_eq_none_iff, pairs, List.mem_map, bne_iff_ne]
  exact ⟨fun absent ⟨e, mem, same⟩ => absent e mem same.symm, fun absent e mem same => absent ⟨e, mem, same.symm⟩⟩

theorem find?_eq_some_iff (distinct : d.pairs.Nodup) :
    d.find? module name = some object ↔ ((module, name), object) ∈ d.entries :=
  lookup_eq_some_iff_mem distinct

theorem define_of_not_mem (new : (module, name) ∉ d.pairs) :
    d.define module name object = .ok { entries := d.entries ++ [((module, name), object)] } := by
  rw [define, find?_eq_none_iff.2 new]

theorem define_of_mem (old : (module, name) ∈ d.pairs) :
    d.define module name object = .error (.definedTwice module name) := by
  unfold define
  cases found : d.find? module name with
  | none => exact absurd old (find?_eq_none_iff.1 found)
  | some _ => rfl

/-- Defines items in order. -/
def extend (d : Definitions) (items : List ((String × String) × Extern)) :
    Except InstantiationFault Definitions :=
  items.foldlM (fun d e => d.define e.1.1 e.1.2 e.2) d

theorem extend_cons (d : Definitions) (e : (String × String) × Extern)
    (items : List ((String × String) × Extern)) :
    d.extend (e :: items) = (d.define e.1.1 e.1.2 e.2).bind (·.extend items) := rfl

theorem extend_append (d : Definitions) (items more : List ((String × String) × Extern)) :
    d.extend (items ++ more) = (d.extend items).bind (·.extend more) := by
  unfold extend
  rw [List.foldlM_append]
  rfl

/-- Items can be defined exactly if no pair is thereby defined twice. -/
theorem extend_eq_ok_iff (distinct : d.pairs.Nodup) :
    d.extend items = .ok d' ↔
      d' = { entries := d.entries ++ items } ∧ (d.pairs ++ items.map (·.1)).Nodup := by
  induction items generalizing d with
  | nil =>
    have nothing : d.extend [] = .ok d := rfl
    simp [nothing, distinct, eq_comm]
  | cons e rest ih =>
    rw [extend_cons]
    by_cases old : e.1 ∈ d.pairs
    · rw [define_of_mem old]
      constructor
      · intro h; cases h
      · intro ⟨_, nodup⟩
        exact absurd rfl ((List.nodup_append.1 nodup).2.2 e.1 old e.1 (by simp))
    · rw [define_of_not_mem old]
      have pairs : ({ entries := d.entries ++ [(e.1, e.2)] } : Definitions).pairs = d.pairs ++ [e.1] := by
        simp [Definitions.pairs]
      have nodup : (d.pairs ++ [e.1]).Nodup :=
        List.nodup_append.2 ⟨distinct, List.nodup_singleton _,
          fun x mem y last same => old (by rw [← List.mem_singleton.1 last, ← same]; exact mem)⟩
      change extend _ rest = _ ↔ _
      rw [ih (by rw [pairs]; exact nodup), pairs]
      simp

/-- Only a pair among the items can be what stops them. -/
theorem mem_of_extend_error {fault : InstantiationFault} (h : d.extend items = .error fault) :
    ∃ pair ∈ items.map (·.1), fault = .definedTwice pair.1 pair.2 := by
  induction items generalizing d with
  | nil => cases h
  | cons e rest ih =>
    rw [extend_cons] at h
    by_cases old : e.1 ∈ d.pairs
    · rw [define_of_mem old] at h
      cases h
      exact ⟨e.1, by simp, rfl⟩
    · rw [define_of_not_mem old] at h
      obtain ⟨pair, mem, same⟩ := ih h
      exact ⟨pair, by simp [mem], same⟩

end Definitions

/-! Looking imports up. -/

theorem bind_eq_ok {e : Except ε α} {f : α → Except ε β} {y : β} (h : e >>= f = .ok y) :
    ∃ x, e = .ok x ∧ f x = .ok y := by
  cases e with
  | error fault => cases h
  | ok x => exact ⟨x, rfl, h⟩

theorem ok_of_mapError {e : Except ε α} {f : ε → ε'} {x : α} (h : e.mapError f = .ok x) : e = .ok x := by
  cases e with
  | error fault => cases h
  | ok y => cases h; rfl

theorem forall₂_of_mapM_ok {f : α → Except ε β} {xs : List α} {ys : List β} (h : xs.mapM f = .ok ys) :
    List.Forall₂ (fun x y => f x = .ok y) xs ys := by
  induction xs generalizing ys with
  | nil => cases h; exact .nil
  | cons x xs ih =>
    rw [List.mapM_cons] at h
    cases hx : f x with
    | error e => rw [hx] at h; cases h
    | ok y =>
      rw [hx] at h
      cases hxs : xs.mapM f with
      | error e => rw [hxs] at h; cases h
      | ok rest =>
        rw [hxs] at h
        cases h
        exact .cons hx (ih hxs)

namespace Definitions

variable {d : Definitions} {s : Store} {imports : List Import} {objects : List Extern}

/-- Each import gets what is found under its pair, and that fits. -/
theorem resolve_ok (h : d.resolve s imports = .ok objects) :
    List.Forall₂ (fun i object => d.find? i.module i.name = some object ∧ s.fits object i.type = true)
      imports objects := by
  unfold resolve at h
  obtain ⟨found, looked, h⟩ := bind_eq_ok h
  split at h
  · cases h
  · rename_i fitting
    cases h
    have pairwise := List.forall₂_iff_zip.1 (forall₂_of_mapM_ok looked)
    refine List.forall₂_iff_zip.2 ⟨pairwise.1, fun {i object} mem => ⟨?_, ?_⟩⟩
    · have bound := pairwise.2 mem
      split at bound
      · rename_i known
        cases bound
        exact known
      · cases bound
    · have fits := List.find?_eq_none.1 fitting (i, object) mem
      simpa using fits

end Definitions

/-! Definitions as actions build them. -/

/-- The world with two more globals, which hold the bases of a unit and never change. -/
def World.withBases (w : World) (memoryBase tableBase : Nat) : World :=
  { w with store :=
    ((w.store.constant (UInt32.ofNat memoryBase)).2.constant (UInt32.ofNat tableBase)).2 }

namespace Action

theorem run_constant (n : Nat) (w : World) : (constant n).run.run w =
    (.ok (.global w.store.globals.size), { w with store := (w.store.constant (UInt32.ofNat n)).2 }) := rfl

theorem run_define (d : Definitions) (module name : String) (object : Extern) (w : World) :
    (define d module name object).run.run w = ((d.define module name object).mapError .instantiation, w) := by
  unfold define
  cases d.define module name object <;> rfl

theorem run_foldlM_define (items : List ((String × String) × Extern)) (d : Definitions) (w : World) :
    (items.foldlM (fun d e => define d e.1.1 e.1.2 e.2) d : Action Definitions).run.run w =
      ((d.extend items).mapError .instantiation, w) := by
  induction items generalizing d with
  | nil => rfl
  | cons e rest ih =>
    rw [List.foldlM_cons, run_bind, run_define, Definitions.extend_cons]
    cases d.define e.1.1 e.1.2 e.2 with
    | error fault => rfl
    | ok d' => exact ih d'

theorem run_foldlM_define_map (item : α → (String × String) × Extern) (xs : List α) (d : Definitions) (w : World) :
    (xs.foldlM (fun d x => define d (item x).1.1 (item x).1.2 (item x).2) d : Action Definitions).run.run w =
      ((d.extend (xs.map item)).mapError .instantiation, w) := by
  rw [← run_foldlM_define, List.foldlM_map]

/-- The surface holds the host calls and the version. -/
theorem surface_ok {d : Definitions} {w w' : World} (h : surface.run.run w = (.ok d, w')) :
    ({} : Definitions).extend (w.config.abi.callItems ++
      [((w.config.abi.envModule, surfaceVersionName), .global w.store.globals.size)]) = .ok d := by
  unfold surface at h
  obtain ⟨_, _, hget, h⟩ := run_bind_ok h
  cases hget
  obtain ⟨calls, v, hcalls, h⟩ := run_bind_ok h
  have built := (run_foldlM_define_map
    (fun call => ((w.config.abi.hostModule call, w.config.abi.hostName call), .func (.host call))) _ _ w).symm.trans
      hcalls
  obtain ⟨called, rfl⟩ := Prod.mk.inj built
  rw [run_bind, run_constant] at h
  dsimp only at h
  rw [run_define] at h
  have versioned := ok_of_mapError (Prod.mk.inj h).1
  rw [Definitions.extend_append, Abi.callItems, ok_of_mapError called]
  change (Definitions.define _ _ _ _).bind _ = _
  rw [versioned]
  rfl

/-- A program in place has the shared memory and table in its surface, and its base's exports published. -/
theorem install_ok {surface : Definitions} {owner : Instance} {e : BaseExports} {w w' : World}
    (h : (install surface owner e).run.run w = (.ok (), w')) :
    ∃ d, surface.extend [((w.config.abi.systemModule, w.config.abi.importMemory), .memory e.memory),
        ((w.config.abi.systemModule, w.config.abi.importTable), .table e.table)] = .ok d ∧
      w' = { w with program := some { base := owner, memory := e.memory, table := e.table, surface := d } }.publish
        owner.symbols := by
  unfold install at h
  obtain ⟨_, _, hget, h⟩ := run_bind_ok h
  cases hget
  obtain ⟨withMemory, _, hmemory, h⟩ := run_bind_ok h
  rw [run_define] at hmemory
  obtain ⟨memory, rfl⟩ := Prod.mk.inj hmemory
  obtain ⟨withTable, _, htable, h⟩ := run_bind_ok h
  rw [run_define] at htable
  obtain ⟨table, rfl⟩ := Prod.mk.inj htable
  refine ⟨withTable, ?_, (Prod.mk.inj h).2.symm⟩
  rw [Definitions.extend_cons, ok_of_mapError memory]
  change (Definitions.define _ _ _ _).bind _ = _
  rw [ok_of_mapError table]
  rfl

/-- The import object is the surface with the unit's two bases and the published symbols. -/
theorem run_importObject (p : Program) (memoryBase tableBase : Nat) (w : World) :
    (importObject p memoryBase tableBase).run.run w =
      ((p.surface.extend (w.config.abi.baseItems w.store.globals.size ++
          w.config.abi.symbolItems p.symbols.entries)).mapError .instantiation,
        w.withBases memoryBase tableBase) := by
  have second : (w.store.constant (UInt32.ofNat memoryBase)).2.globals.size = w.store.globals.size + 1 :=
    Array.size_push _
  unfold importObject
  rw [run_bind, run_get]
  dsimp only
  rw [run_bind, run_constant]
  dsimp only
  rw [run_bind, run_constant]
  dsimp only
  rw [run_bind, run_define, second, Definitions.extend_append, Abi.baseItems, Definitions.extend_cons]
  cases p.surface.define w.config.abi.systemModule w.config.abi.memoryBase (.global w.store.globals.size) with
  | error fault => rfl
  | ok d =>
    change (define d _ _ _ >>= _ : Action Definitions).run.run _ = _
    rw [run_bind, run_define]
    change _ = (((d.define _ _ _).bind _).bind _ |>.mapError _, _)
    cases d.define w.config.abi.systemModule w.config.abi.tableBase (.global (w.store.globals.size + 1)) with
    | error fault => rfl
    | ok d' => exact run_foldlM_define_map (fun e : String × Extern => ((w.config.abi.exportsModule, e.1), e.2)) _ d' _

end Action

end UnitHost
