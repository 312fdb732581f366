import UnitHost.Wasm.Type

/-!
# Names shared by host, base and units

The host calls a program may import, the modules and names they and the shared objects are found
under, and which names are therefore never taken by a published export.
-/

namespace UnitHost

open Wasm

/-- The calls the host offers. -/
inductive HostCall where
  | log
  | warn
  | error
  | panicError
  | group
  | groupEnd
  | mark
  | compileInit
  | postOutput
  | postError
  deriving DecidableEq, Repr

/-- What a host call is about; each area is imported from a module of its own. -/
inductive Area where
  | console
  | performance
  | env
  deriving DecidableEq, Repr

namespace HostCall

/-- Every host call, in the order in which they are defined. -/
def all : List HostCall :=
  [log, warn, error, panicError, group, groupEnd, mark, compileInit, postOutput, postError]

/-- The name a host call has unless it is renamed. -/
def name : HostCall → String
  | log => "log"
  | warn => "warn"
  | error => "error"
  | panicError => "panic_error"
  | group => "group"
  | groupEnd => "group_end"
  | mark => "mark"
  | compileInit => "compile_init"
  | postOutput => "post_output"
  | postError => "post_error"

/-- The host call of that name. -/
def ofName? (name : String) : Option HostCall :=
  all.find? (·.name == name)

/-- What the call is about. -/
def area : HostCall → Area
  | mark => .performance
  | compileInit | postOutput | postError => .env
  | _ => .console

/-- Every call but two takes an address and a count. -/
def type : HostCall → FuncType
  | groupEnd => {}
  | compileInit => { params := [.i32, .i32, .i32, .i32] }
  | _ => { params := [.i32, .i32] }

end HostCall

/-- The version of the set of host calls. -/
def surfaceVersion : Nat := 1

/-- The global that holds the version. -/
def surfaceVersionName : String := "__surface_version"

/-- Modules and names that host, base and units agree on. -/
structure Abi where
  /-- Module of the console calls. -/
  consoleModule : String := "env"
  /-- Module of `mark`. -/
  performanceModule : String := "env"
  /-- Module of the remaining calls and of the version global. -/
  envModule : String := "env"
  /-- Module of the shared memory, the shared table and the two base globals. -/
  systemModule : String := "env"
  /-- Module under which exports are published. -/
  exportsModule : String := "env"
  /-- Import name of the shared memory. -/
  importMemory : String := "memory"
  /-- Import name of the shared table. -/
  importTable : String := "__indirect_function_table"
  /-- Import name of the unit's memory base. -/
  memoryBase : String := "__memory_base"
  /-- Import name of the unit's table base. -/
  tableBase : String := "__table_base"
  /-- New names for host calls, by their usual name. -/
  hostCalls : List (String × String) := []
  /-- The base's memory export. -/
  memory : String := "memory"
  /-- The base's table export. -/
  table : String := "__indirect_function_table"
  /-- The base's initializer, without parameters or results. -/
  initializer : String := "initialize"
  /-- The base's evaluator, which takes an address and a count. -/
  evaluate : String := "evaluate"
  /-- The base's renderer of results, which takes a value. -/
  reportResult : String := "report_result"
  /-- A unit's static initializer, which returns zero on success. -/
  staticInit : String := "static_init"
  /-- A unit's main entry point, which returns its value. -/
  main : String := "main"
  deriving DecidableEq, Repr

namespace Abi

/-- The module a call is imported from. -/
def hostModule (abi : Abi) (call : HostCall) : String :=
  match call.area with
  | .console => abi.consoleModule
  | .performance => abi.performanceModule
  | .env => abi.envModule

/-- The name a call is imported under. -/
def hostName (abi : Abi) (call : HostCall) : String :=
  (abi.hostCalls.lookup call.name).getD call.name

/-- The names of the shared objects and the base globals. -/
def systemNames (abi : Abi) : List String :=
  [abi.importMemory, abi.importTable, abi.memoryBase, abi.tableBase]

/-- Whether the host itself defines `name` in the module exports are published under. -/
def isReserved (abi : Abi) (name : String) : Bool :=
  HostCall.all.any (fun call => abi.hostModule call == abi.exportsModule && abi.hostName call == name) ||
    (abi.envModule == abi.exportsModule && name == surfaceVersionName) ||
    (abi.systemModule == abi.exportsModule && abi.systemNames.contains name)

end Abi

end UnitHost
