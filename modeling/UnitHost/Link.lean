import UnitHost.World

/-!
# Linking

How a unit joins a running program, up to the point where its own code runs: copy its bytes out of
memory, compile them, check its bases, grow memory and table to what it imports, build the objects
it can import, and instantiate it. The causes of failure are met in this order. Growth is kept when
a later step fails.
-/

namespace UnitHost

open Wasm

/-- What a unit asks to be linked with: where its bytes lie and where its regions begin. -/
structure LinkRequest where
  address : Nat
  count : Nat
  memoryBase : Int32
  tableBase : Int32
  deriving DecidableEq, Repr

/-- The request four words make. -/
def LinkRequest.ofWords (address count memoryBase tableBase : UInt32) : LinkRequest :=
  let (address, count) := wordRange address count
  { address, count, memoryBase := signed memoryBase, tableBase := signed tableBase }

/-- A base is neither negative nor below the previous unit's. -/
def checkBase (region : Region) (requested : Int32) (previous : Nat) : Except Failure Nat :=
  if 0 ≤ requested.toInt ∧ previous ≤ requested.toInt.toNat then .ok requested.toInt.toNat
  else .error (.offsetRegression region requested.toInt previous)

/-- Both bases, memory first. -/
def LinkRequest.checkBases (r : LinkRequest) (previous : Nat × Nat) : Except Failure (Nat × Nat) := do
  let memoryBase ← checkBase .memory r.memoryBase previous.1
  let tableBase ← checkBase .table r.tableBase previous.2
  .ok (memoryBase, tableBase)

/-- Memory with at least `wanted` pages, if that is within the limit and the memory can grow. -/
def Memory.growTo (m : Memory) (wanted limit : Nat) : Except GrowthFault Memory :=
  if wanted ≤ m.pages then .ok m
  else if limit < wanted then .error (.pages wanted limit)
  else
    match m.grow? (wanted - m.pages) with
    | some m => .ok m
    | none => .error (.memoryRefused (wanted - m.pages))

/-- A table with at least `wanted` slots, if that is within the limit and the table can grow. Only a
table of functions can be grown from outside. -/
def Table.growTo (t : Table) (wanted limit : Nat) : Except GrowthFault Table :=
  if wanted ≤ t.size then .ok t
  else if limit < wanted then .error (.slots wanted limit)
  else if t.kind ≠ .func then .error .tableKind
  else
    match t.grow? (wanted - t.size) with
    | some t => .ok t
    | none => .error (.tableRefused (wanted - t.size))

/-- What one import makes memory and table grow to. -/
def growFor (abi : Abi) (config : Config) (i : Import) (m : Memory) (t : Table) :
    Except GrowthFault (Memory × Table) :=
  if i.module ≠ abi.systemModule then .ok (m, t)
  else
    match i.type with
    | .memory limits =>
      if i.name = abi.importMemory then (·, t) <$> m.growTo limits.min config.maxMemoryPages
      else .ok (m, t)
    | .table type =>
      if i.name = abi.importTable then (m, ·) <$> t.growTo type.limits.min config.maxTableSize
      else .ok (m, t)
    | _ => .ok (m, t)

namespace Action

/-- Grows memory and table for one import. -/
def growForImport (p : Program) (i : Import) : Action Unit := do
  let w ← get
  let m := w.memory p
  let t := w.table p
  match growFor w.config.abi w.config i m t with
  | .error fault => throw (.resourceLimit fault)
  | .ok (m', t') =>
    if m.pages < m'.pages then
      modify fun w => { w with store := w.store.setMemory p.memory m' }
      note (.memoryGrown m.pages m'.pages)
    if t.size < t'.size then
      modify fun w => { w with store := w.store.setTable p.table t' }
      note (.tableGrown t.size t'.size)

/-- Grows memory and table to what a module imports, one import after the other. -/
def growToFit (p : Program) (imports : List Import) : Action Unit :=
  imports.forM (growForImport p)

/-- Defines a pair. -/
def define (d : Definitions) (module name : String) (object : Extern) : Action Definitions :=
  match d.define module name object with
  | .ok d => pure d
  | .error fault => throw (.instantiation fault)

/-- Allocates a global that never changes. -/
def constant (n : Nat) : Action Extern := do
  let (address, store) := (← get).store.constant (UInt32.ofNat n)
  modify fun w => { w with store }
  pure (.global address)

/-- Everything a unit can import: the host's surface, its two bases and the published symbols. -/
def importObject (p : Program) (memoryBase tableBase : Nat) : Action Definitions := do
  let abi := (← get).config.abi
  let memoryBase ← constant memoryBase
  let tableBase ← constant tableBase
  let d ← define p.surface abi.systemModule abi.memoryBase memoryBase
  let d ← define d abi.systemModule abi.tableBase tableBase
  p.symbols.entries.foldlM (fun d (name, object) => define d abi.exportsModule name object) d

/-- A module joins the store, up to its start function. -/
def instantiate (d : Definitions) (m : Module) : Action Instance := do
  let (result, store) := (← get).store.instantiate d m
  modify fun w => { w with store }
  match result with
  | .ok owner => pure owner
  | .error fault => throw (.instantiation fault)

/-- Compiles a unit. -/
def compile (bytes : List UInt8) : Action Module := do
  match (← get).engine.compile? bytes with
  | some m => pure m
  | none => throw (.instantiation .invalid)

/-- Links a unit up to its start function. -/
def prepare (r : LinkRequest) : Action Linking := do
  let p ← program
  let w ← get
  let bytes ← ofExcept ((w.memory p).readBytes r.address r.count)
  let module ← compile bytes
  let (memoryBase, tableBase) ← ofExcept (r.checkBases p.floor)
  growToFit p module.imports
  let definitions ← importObject p memoryBase tableBase
  let owner ← instantiate definitions module
  pure { bytes, module, owner, memoryBase, tableBase }

end Action

/-- The function exported under a name, with exactly the given type. Parameters are compared before
results, numbers before types. -/
def typedExport (s : Store) (i : Instance) (name : String) (type : FuncType) : Except Failure Callee :=
  let mismatch (side : Side) (expected found : List ValType) : Option ExportFault :=
    if expected.length ≠ found.length then some (.count name side expected.length found.length)
    else ((expected.zip found).find? fun (a, b) => a ≠ b).map fun (a, b) =>
      .type name side a.name b.name
  match i.export? name with
  | some (.func callee) =>
    let found := s.calleeType callee
    match mismatch .parameters type.params found.params, mismatch .results type.results found.results with
    | none, none => .ok callee
    | some fault, _ => .error (.missingExport name fault)
    | none, some fault => .error (.missingExport name fault)
  | _ => .error (.missingExport name (.noFunction name))

/-- The type of a unit's entry points. -/
def entryType : FuncType := { results := [.i32] }

/-- The type of the base's renderer of results. -/
def reportType : FuncType := { params := [.i32] }

end UnitHost
