import UnitHost.Abi
import UnitHost.Toml.Value

/-!
# Configuration

Limits a session observes, features the engine is built with, and the names host and programs
share. Every field has a default; a document may give any of them, and unknown keys say nothing. A
table of fields may also be given as an array of its fields in order.
-/

namespace UnitHost

open Toml (Value Table)

/-- How sessions are run. -/
structure Config where
  /-- Most pages a unit may make memory grow to. -/
  maxMemoryPages : Nat := 256
  /-- Most slots a unit may make the table grow to. -/
  maxTableSize : Nat := 10000
  enableSimd : Bool := true
  enableReferenceTypes : Bool := true
  enableBulkMemory : Bool := true
  /-- Bytes of stack for running code. -/
  stackSize : Nat := 1048576
  abi : Abi := {}
  deriving DecidableEq, Repr

/-- What a date or time turns into where a table is expected: one entry under this key. -/
def datetimeKey : String := "$__toml_private_datetime"

namespace Toml.Value

/-- A text. -/
def asString? : Value → Option String
  | .string text => some text
  | _ => none

/-- A truth value. -/
def asBool? : Value → Option Bool
  | .boolean b => some b
  | _ => none

/-- A number from zero up to below `2 ^ bits`. -/
def asNat? (bits : Nat) : Value → Option Nat
  | .integer n => if 0 ≤ n ∧ n < (Nat.pow 2 bits : Nat) then some n.toNat else none
  | _ => none

/-- A table of texts. -/
def asTexts? : Value → Option (List (String × String))
  | .table entries => entries.mapM fun (key, v) => v.asString?.map (key, ·)
  | .datetime text => some [(datetimeKey, text)]
  | _ => none

end Toml.Value

/-- The value of a field: what is found there, read by `read`, or the default. -/
def fieldOr (found : Option Value) (read : Value → Option α) (default : α) : Option α :=
  match found with
  | some v => read v
  | none => some default

/-- The names in an array of fields, by position, or in a table, by key. -/
def fieldsOf? (names : List String) : Value → Option (String → Option Value)
  | .table entries => some fun key => entries.lookup key
  | .array items => some fun key => (names.zip items).lookup key
  | .datetime _ => some fun _ => none
  | _ => none

namespace Abi

/-- The keys of a document, in order. -/
def keys : List String :=
  ["console_module", "performance_module", "env_module", "system_module", "exports_module",
    "import_memory", "import_table", "memory_base", "table_base", "host_calls", "memory", "table",
    "initialize", "evaluate", "report_result", "static_init", "main"]

/-- The names a document gives. -/
def ofFields? (find : String → Option Value) : Option Abi := do
  let d : Abi := {}
  let name (key default : String) : Option String := fieldOr (find key) Value.asString? default
  some {
    consoleModule := ← name "console_module" d.consoleModule
    performanceModule := ← name "performance_module" d.performanceModule
    envModule := ← name "env_module" d.envModule
    systemModule := ← name "system_module" d.systemModule
    exportsModule := ← name "exports_module" d.exportsModule
    importMemory := ← name "import_memory" d.importMemory
    importTable := ← name "import_table" d.importTable
    memoryBase := ← name "memory_base" d.memoryBase
    tableBase := ← name "table_base" d.tableBase
    hostCalls := ← fieldOr (find "host_calls") Value.asTexts? d.hostCalls
    memory := ← name "memory" d.memory
    table := ← name "table" d.table
    initializer := ← name "initialize" d.initializer
    evaluate := ← name "evaluate" d.evaluate
    reportResult := ← name "report_result" d.reportResult
    staticInit := ← name "static_init" d.staticInit
    main := ← name "main" d.main }

/-- The names a value gives. -/
def ofValue? (v : Value) : Option Abi := do ofFields? (← fieldsOf? keys v)

end Abi

namespace Config

/-- The configuration a document gives. -/
def ofTable? (t : Table) : Option Config := do
  let d : Config := {}
  let flag (key : String) (default : Bool) : Option Bool :=
    fieldOr (t.lookup key) Value.asBool? default
  let number (key : String) (bits default : Nat) : Option Nat :=
    fieldOr (t.lookup key) (Value.asNat? bits) default
  some {
    maxMemoryPages := ← number "max_memory_pages" 64 d.maxMemoryPages
    maxTableSize := ← number "max_table_size" 32 d.maxTableSize
    enableSimd := ← flag "enable_simd" d.enableSimd
    enableReferenceTypes := ← flag "enable_reference_types" d.enableReferenceTypes
    enableBulkMemory := ← flag "enable_bulk_memory" d.enableBulkMemory
    stackSize := ← number "stack_size" 64 d.stackSize
    abi := ← fieldOr (t.lookup "abi") Abi.ofValue? d.abi }

end Config

end UnitHost
