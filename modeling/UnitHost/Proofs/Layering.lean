import UnitHost.Proofs.Definitions
import UnitHost.Proofs.DistinctKeys
import UnitHost.Shell.Loop

/-!
# Where settings come from

A configuration is settled in layers: the command line, then the document, then the defaults. `Config.settings` lists all
settings but the new names of host calls, each with the path of its keys, its kind and the field that holds it; these
names are settled one by one. `Config.Says` is what a document says under a path, wherever the entries stand in it. No
key stands twice in a table, so what is said can be looked up (`said_iff`), and a configuration that is read takes what
is found, or else the default, setting by setting (`takes_of_ofTable?`).
-/

namespace UnitHost

open Toml (Value)

namespace Config

/-! Settings and their kinds. -/

/-- The kinds of values that a document gives. -/
inductive Kind where
  /-- A number from zero up to below `2 ^ bits`. -/
  | number (bits : Nat)
  | flag
  | text
  | table
  /-- A table of fields, or an array of its fields in order. -/
  | fields
  deriving DecidableEq

/-- Whether a value is of a kind. -/
def Kind.fits : Kind → Value → Bool
  | .number bits, .integer n => 0 ≤ n && n < (Nat.pow 2 bits : Nat)
  | .flag, .boolean _ => true
  | .text, .string _ => true
  | .table, .table _ => true
  | .fields, .table _ => true
  | .fields, .array _ => true
  | _, _ => false

/-- A setting: the keys it is found under, its kind, and the field of a configuration that holds it. -/
structure Setting where
  path : List String
  kind : Kind
  value : Config → Value

namespace Setting

def number (key : String) (bits : Nat) (field : Config → Nat) : Setting :=
  ⟨[key], .number bits, fun c => .integer (field c)⟩

def flag (key : String) (field : Config → Bool) : Setting := ⟨[key], .flag, fun c => .boolean (field c)⟩

def name (key : String) (field : Abi → String) : Setting := ⟨["abi", key], .text, fun c => .string (field c.abi)⟩

end Setting

/-- The settings outside the names. -/
def limits : List Setting :=
  [.number "max_memory_pages" 64 maxMemoryPages, .number "max_table_size" 32 maxTableSize,
    .flag "enable_simd" enableSimd, .flag "enable_reference_types" enableReferenceTypes,
    .flag "enable_bulk_memory" enableBulkMemory, .number "stack_size" 64 stackSize]

/-- The names, but for the new names of host calls: their keys and fields. -/
def nameFields : List (String × (Abi → String)) :=
  [("console_module", Abi.consoleModule), ("performance_module", Abi.performanceModule), ("env_module", Abi.envModule),
    ("system_module", Abi.systemModule), ("exports_module", Abi.exportsModule), ("import_memory", Abi.importMemory),
    ("import_table", Abi.importTable), ("memory_base", Abi.memoryBase), ("table_base", Abi.tableBase),
    ("memory", Abi.memory), ("table", Abi.table), ("initialize", Abi.initializer), ("evaluate", Abi.evaluate),
    ("report_result", Abi.reportResult), ("static_init", Abi.staticInit), ("main", Abi.main)]

/-- All settings, but for the new names of host calls. -/
def settings : List Setting := limits ++ nameFields.map fun n => .name n.1 n.2

theorem name_mem_settings {n : String × (Abi → String)} (mem : n ∈ nameFields) : .name n.1 n.2 ∈ settings :=
  List.mem_append.2 (.inr (List.mem_map.2 ⟨n, mem, rfl⟩))

theorem path_of_mem_limits : ∀ s ∈ limits, ∃ key, s.path = [key] := by
  simp [limits, Setting.number, Setting.flag]

/-- The paths that mean something, and what may stand under them. -/
inductive Known : List String → Kind → Prop where
  | setting {s : Setting} (mem : s ∈ settings) : Known s.path s.kind
  | abi : Known ["abi"] .fields
  | hostCalls : Known ["abi", "host_calls"] .table
  | hostCall (call : String) : Known ["abi", "host_calls", call] .text

/-! What a document says. -/

/-- The keys of the names, in the order in which an array gives them. -/
def itemKeys : List String :=
  ["console_module", "performance_module", "env_module", "system_module", "exports_module", "import_memory",
    "import_table", "memory_base", "table_base", "host_calls", "memory", "table", "initialize", "evaluate",
    "report_result", "static_init", "main"]

/-- A document has a value under a path. The names may be given as an array, in order. -/
inductive Says (t : Toml.Table) : List String → Value → Prop where
  | key {key : String} {v : Value} (mem : (key, v) ∈ t) : Says t [key] v
  | field {fields : Toml.Table} {key : String} {v : Value} (abi : ("abi", .table fields) ∈ t) (mem : (key, v) ∈ fields) :
      Says t ["abi", key] v
  | item {items : List Value} {key : String} {v : Value} (abi : ("abi", .array items) ∈ t)
      (mem : (key, v) ∈ itemKeys.zip items) : Says t ["abi", key] v
  | hostCall {calls : Toml.Table} {call : String} {v : Value} (table : Says t ["abi", "host_calls"] (.table calls))
      (mem : (call, v) ∈ calls) : Says t ["abi", "host_calls", call] v

/-- Everything said under a known path is of its kind. -/
def Fitting (t : Toml.Table) : Prop := ∀ path kind v, Known path kind → Says t path v → kind.fits v = true

/-- Something is said under a known path that is not of its kind; a date or time in place of a table does not count. -/
def Misfit (t : Toml.Table) : Prop :=
  ∃ path kind v, Known path kind ∧ Says t path v ∧ kind.fits v = false ∧
    (kind = .table ∨ kind = .fields → ∀ text, v ≠ .datetime text)

/-- The fields that a document gives for the names. -/
def abiFields (t : Toml.Table) : Toml.Table :=
  match t.lookup "abi" with
  | some (.table fields) => fields
  | some (.array items) => itemKeys.zip items
  | _ => []

/-- The new names that a document gives for host calls. -/
def callsIn (t : Toml.Table) : Toml.Table :=
  match (abiFields t).lookup "host_calls" with
  | some (.table calls) => calls
  | _ => []

/-- What a document says of a setting. -/
def said? (t : Toml.Table) : List String → Option Value
  | [key] => t.lookup key
  | ["abi", key] => (abiFields t).lookup key
  | _ => none

theorem nodup_zip_keys {keys : List String} (nodup : keys.Nodup) (items : List Value) :
    ((keys.zip items).map Prod.fst).Nodup := by
  induction keys generalizing items with
  | nil => exact List.nodup_nil
  | cons key keys ih =>
    cases items with
    | nil => exact List.nodup_nil
    | cons item items =>
      obtain ⟨new, rest⟩ := List.nodup_cons.1 nodup
      refine List.nodup_cons.2 ⟨fun mem => ?_, ih rest items⟩
      obtain ⟨e, among, rfl⟩ := List.mem_map.1 mem
      exact new (List.of_mem_zip among).1

/-- Whether all settings and new names that are said are of their kinds. -/
def isFitting (t : Toml.Table) : Bool :=
  settings.all (fun s => (said? t s.path).all s.kind.fits) && (t.lookup "abi").all Kind.fields.fits &&
    ((abiFields t).lookup "host_calls").all Kind.table.fits && (callsIn t).all fun e => Kind.text.fits e.2

theorem isFitting_iff {t : Toml.Table} : isFitting t = true ↔
    (∀ s ∈ settings, ∀ v, said? t s.path = some v → s.kind.fits v = true) ∧
    (∀ v, t.lookup "abi" = some v → Kind.fields.fits v = true) ∧
    (∀ v, (abiFields t).lookup "host_calls" = some v → Kind.table.fits v = true) ∧
    ∀ e ∈ callsIn t, Kind.text.fits e.2 = true := by
  simp only [isFitting, Bool.and_eq_true, List.all_eq_true, Option.all_eq_true, and_assoc]

section Lookups

variable {t : Toml.Table} (distinct : (Value.table t).Distinct)
include distinct

theorem lookup_iff {key : String} {v : Value} : t.lookup key = some v ↔ (key, v) ∈ t := by
  cases distinct with
  | table keys each => exact lookup_eq_some_iff_mem keys

theorem distinct_abiFields : (Value.table (abiFields t)).Distinct := by
  have each : ∀ e ∈ t, e.2.Distinct := by
    cases distinct with
    | table keys each => exact each
  unfold abiFields
  split
  · rename_i fields found
    exact each _ ((lookup_iff distinct).1 found)
  · rename_i items found
    -- The items take the keys in order, so their keys are some of the first ones.
    have keys : itemKeys.Nodup := by decide
    have inner := each _ ((lookup_iff distinct).1 found)
    cases inner with
    | array each =>
      exact .table (nodup_zip_keys keys items) fun e mem => each e.2 (List.of_mem_zip mem).2
  · exact .table List.nodup_nil nofun

theorem abi_said_iff {key : String} {v : Value} : Says t ["abi", key] v ↔ (abiFields t).lookup key = some v := by
  rw [lookup_iff (distinct_abiFields distinct)]
  unfold abiFields
  constructor
  · rintro (_ | ⟨abi, mem⟩ | ⟨abi, mem⟩)
    · rw [(lookup_iff distinct).2 abi]
      exact mem
    · rw [(lookup_iff distinct).2 abi]
      exact mem
  · intro mem
    split at mem
    · rename_i found
      exact .field ((lookup_iff distinct).1 found) mem
    · rename_i found
      exact .item ((lookup_iff distinct).1 found) mem
    · cases mem

theorem abi_unsaid {key : String} (absent : ((abiFields t).lookup key).isNone = true) (v : Value) :
    ¬ Says t ["abi", key] v := by
  intro said
  rw [(abi_said_iff distinct).1 said] at absent
  cases absent

theorem said_iff {s : Setting} (mem : s ∈ settings) {v : Value} : Says t s.path v ↔ said? t s.path = some v := by
  rcases List.mem_append.1 mem with limit | name
  · obtain ⟨key, path⟩ := path_of_mem_limits s limit
    rw [path]
    constructor
    · rintro ⟨mem⟩
      exact (lookup_iff distinct).2 mem
    · intro found
      exact .key ((lookup_iff distinct).1 found)
  · obtain ⟨n, -, rfl⟩ := List.mem_map.1 name
    exact abi_said_iff distinct

theorem hostCall_said_iff {call : String} {v : Value} :
    Says t ["abi", "host_calls", call] v ↔ (call, v) ∈ callsIn t := by
  unfold callsIn
  constructor
  · rintro (_ | _ | _ | ⟨table, mem⟩)
    rw [(abi_said_iff distinct).1 table]
    exact mem
  · intro mem
    split at mem
    · rename_i found
      exact .hostCall ((abi_said_iff distinct).2 found) mem
    · cases mem

theorem nodup_callsIn : ((callsIn t).map Prod.fst).Nodup := by
  unfold callsIn
  split
  · rename_i calls found
    have outer := distinct_abiFields distinct
    have mem := (lookup_iff outer).1 found
    cases outer with
    | table keys each =>
      cases each _ mem with
      | table keys each => exact keys
  · exact List.nodup_nil

end Lookups

/-! Reading settings. -/

/-- Values of a kind are read by `read`, and what was read is put back by `put`. -/
structure Kind.ReadBy (kind : Kind) (read : Value → Option α) (put : α → Value) : Prop where
  fits : ∀ {v x}, read v = some x → kind.fits v = true ∧ v = put x
  reads : ∀ {v}, kind.fits v = true → ∃ x, read v = some x

/-- A setting takes the value that is found, which is of its kind, or else the default. -/
def Kind.Takes (kind : Kind) (found : Option Value) (default new : Value) : Prop :=
  (∀ v, found = some v → kind.fits v = true) ∧ new = found.getD default

section Readers

variable {kind : Kind} {read : Value → Option α} {put : α → Value} {found : Option Value} {default new : α}

theorem Kind.ReadBy.takes (by_ : kind.ReadBy read put) (h : fieldOr found read default = some new) :
    kind.Takes found (put default) (put new) := by
  cases found with
  | none =>
    cases h
    exact ⟨nofun, rfl⟩
  | some v =>
    obtain ⟨fits, same⟩ := by_.fits h
    refine ⟨?_, same.symm⟩
    rintro _ ⟨⟩
    exact fits

theorem Kind.ReadBy.exists (by_ : kind.ReadBy read put) (fits : ∀ v, found = some v → kind.fits v = true) :
    ∃ new, fieldOr found read default = some new := by
  cases found with
  | none => exact ⟨default, rfl⟩
  | some v => exact by_.reads (fits v rfl)

theorem text_readBy : Kind.text.ReadBy Value.asString? .string where
  fits {v x} h := by
    cases v <;> cases h
    exact ⟨rfl, rfl⟩
  reads {v} h := by
    cases v <;> cases h
    exact ⟨_, rfl⟩

theorem abi_said_of_asString? {t : Toml.Table} (distinct : (Value.table t).Distinct) {key text : String}
    (found : ((abiFields t).lookup key).bind Value.asString? = some text) : Says t ["abi", key] (.string text) := by
  obtain ⟨v, found, read⟩ := Option.bind_eq_some_iff.1 found
  rw [(text_readBy.fits read).2] at found
  exact (abi_said_iff distinct).2 found

theorem flag_readBy : Kind.flag.ReadBy Value.asBool? .boolean where
  fits {v x} h := by
    cases v <;> cases h
    exact ⟨rfl, rfl⟩
  reads {v} h := by
    cases v <;> cases h
    exact ⟨_, rfl⟩

theorem number_readBy (bits : Nat) : (Kind.number bits).ReadBy (Value.asNat? bits) fun n => .integer n where
  fits {v x} h := by
    cases v with
    | integer n =>
      obtain ⟨range, same⟩ := Option.ite_none_right_eq_some.1 h
      refine ⟨by simpa [Kind.fits] using range, ?_⟩
      rw [← Option.some.inj same, Int.toNat_of_nonneg range.1]
    | _ => cases h
  reads {v} h := by
    cases v with
    | integer n =>
      have range : 0 ≤ n ∧ n < (Nat.pow 2 bits : Nat) := by simpa [Kind.fits] using h
      exact ⟨n.toNat, if_pos range⟩
    | _ => cases h

end Readers

end Config

namespace Abi

variable (find : String → Option Value)

/-- The names that are read: each is found, or else the default. -/
theorem ofFields?_eq_some_iff {abi : Abi} : ofFields? find = some abi ↔
    (∀ n ∈ Config.nameFields, fieldOr (find n.1) Value.asString? (n.2 {}) = some (n.2 abi)) ∧
      fieldOr (find "host_calls") Value.asTexts? [] = some abi.hostCalls := by
  simp only [Config.nameFields, List.forall_mem_cons]
  constructor
  · intro h
    unfold ofFields? at h
    obtain ⟨_, h₁, h⟩ := Option.bind_eq_some_iff.1 h
    obtain ⟨_, h₂, h⟩ := Option.bind_eq_some_iff.1 h
    obtain ⟨_, h₃, h⟩ := Option.bind_eq_some_iff.1 h
    obtain ⟨_, h₄, h⟩ := Option.bind_eq_some_iff.1 h
    obtain ⟨_, h₅, h⟩ := Option.bind_eq_some_iff.1 h
    obtain ⟨_, h₆, h⟩ := Option.bind_eq_some_iff.1 h
    obtain ⟨_, h₇, h⟩ := Option.bind_eq_some_iff.1 h
    obtain ⟨_, h₈, h⟩ := Option.bind_eq_some_iff.1 h
    obtain ⟨_, h₉, h⟩ := Option.bind_eq_some_iff.1 h
    obtain ⟨_, calls, h⟩ := Option.bind_eq_some_iff.1 h
    obtain ⟨_, h₁₀, h⟩ := Option.bind_eq_some_iff.1 h
    obtain ⟨_, h₁₁, h⟩ := Option.bind_eq_some_iff.1 h
    obtain ⟨_, h₁₂, h⟩ := Option.bind_eq_some_iff.1 h
    obtain ⟨_, h₁₃, h⟩ := Option.bind_eq_some_iff.1 h
    obtain ⟨_, h₁₄, h⟩ := Option.bind_eq_some_iff.1 h
    obtain ⟨_, h₁₅, h⟩ := Option.bind_eq_some_iff.1 h
    obtain ⟨_, h₁₆, h⟩ := Option.bind_eq_some_iff.1 h
    cases h
    exact ⟨⟨h₁, h₂, h₃, h₄, h₅, h₆, h₇, h₈, h₉, h₁₀, h₁₁, h₁₂, h₁₃, h₁₄, h₁₅, h₁₆, nofun⟩, calls⟩
  · rintro ⟨⟨h₁, h₂, h₃, h₄, h₅, h₆, h₇, h₈, h₉, h₁₀, h₁₁, h₁₂, h₁₃, h₁₄, h₁₅, h₁₆, -⟩, calls⟩
    unfold ofFields?
    dsimp only
    rw [h₁, h₂, h₃, h₄, h₅, h₆, h₇, h₈, h₉, calls, h₁₀, h₁₁, h₁₂, h₁₃, h₁₄, h₁₅, h₁₆]
    rfl

/-- Names can be read if each that is found is a text, and the new names of host calls can be read. -/
theorem exists_ofFields? (texts : ∀ n ∈ Config.nameFields, ∀ v, find n.1 = some v → Config.Kind.text.fits v = true)
    {calls : List (String × String)} (found : fieldOr (find "host_calls") Value.asTexts? [] = some calls) :
    ∃ abi, ofFields? find = some abi := by
  have read : ∀ n ∈ Config.nameFields, ∃ new, fieldOr (find n.1) Value.asString? (n.2 {}) = some new :=
    fun n mem => Config.text_readBy.exists (texts n mem)
  simp only [Config.nameFields, List.forall_mem_cons] at read
  obtain ⟨⟨x₁, h₁⟩, ⟨x₂, h₂⟩, ⟨x₃, h₃⟩, ⟨x₄, h₄⟩, ⟨x₅, h₅⟩, ⟨x₆, h₆⟩, ⟨x₇, h₇⟩, ⟨x₈, h₈⟩, ⟨x₉, h₉⟩, ⟨x₁₀, h₁₀⟩, ⟨x₁₁, h₁₁⟩,
    ⟨x₁₂, h₁₂⟩, ⟨x₁₃, h₁₃⟩, ⟨x₁₄, h₁₄⟩, ⟨x₁₅, h₁₅⟩, ⟨x₁₆, h₁₆⟩, -⟩ := read
  refine ⟨⟨x₁, x₂, x₃, x₄, x₅, x₆, x₇, x₈, x₉, calls, x₁₀, x₁₁, x₁₂, x₁₃, x₁₄, x₁₅, x₁₆⟩,
    (ofFields?_eq_some_iff find).2 ⟨?_, found⟩⟩
  simp only [Config.nameFields, List.forall_mem_cons]
  exact ⟨h₁, h₂, h₃, h₄, h₅, h₆, h₇, h₈, h₉, h₁₀, h₁₁, h₁₂, h₁₃, h₁₄, h₁₅, h₁₆, nofun⟩

end Abi

namespace Config

variable {t : Toml.Table} {c : Config}

/-- Names are read if they are given as a table or an array of fields, or as a date or time, which gives none. -/
theorem abi_eq_some_iff {abi : Abi} : fieldOr (t.lookup "abi") Abi.ofValue? {} = some abi ↔
    (∀ v, t.lookup "abi" = some v → Kind.fields.fits v = true ∨ ∃ text, v = .datetime text) ∧
      Abi.ofFields? (fun key => (abiFields t).lookup key) = some abi := by
  unfold fieldOr abiFields
  cases t.lookup "abi" with
  | none =>
    -- Without the key, and with a date, the names are read from nothing, which leaves the defaults.
    have none : Abi.ofFields? (fun _ => Option.none) = some {} := rfl
    simp [none]
  | some v =>
    have keys : Abi.keys = itemKeys := rfl
    cases v <;> simp [Abi.ofValue?, fieldsOf?, Kind.fits, keys]

/-- The configuration that is read, field by field. -/
theorem ofTable?_eq_some_iff : ofTable? t = some c ↔
    fieldOr (t.lookup "max_memory_pages") (Value.asNat? 64) 256 = some c.maxMemoryPages ∧
    fieldOr (t.lookup "max_table_size") (Value.asNat? 32) 10000 = some c.maxTableSize ∧
    fieldOr (t.lookup "enable_simd") Value.asBool? true = some c.enableSimd ∧
    fieldOr (t.lookup "enable_reference_types") Value.asBool? true = some c.enableReferenceTypes ∧
    fieldOr (t.lookup "enable_bulk_memory") Value.asBool? true = some c.enableBulkMemory ∧
    fieldOr (t.lookup "stack_size") (Value.asNat? 64) 1048576 = some c.stackSize ∧
    fieldOr (t.lookup "abi") Abi.ofValue? {} = some c.abi := by
  constructor
  · intro h
    unfold ofTable? at h
    obtain ⟨_, pages, h⟩ := Option.bind_eq_some_iff.1 h
    obtain ⟨_, slots, h⟩ := Option.bind_eq_some_iff.1 h
    obtain ⟨_, simd, h⟩ := Option.bind_eq_some_iff.1 h
    obtain ⟨_, references, h⟩ := Option.bind_eq_some_iff.1 h
    obtain ⟨_, bulk, h⟩ := Option.bind_eq_some_iff.1 h
    obtain ⟨_, stack, h⟩ := Option.bind_eq_some_iff.1 h
    obtain ⟨_, names, h⟩ := Option.bind_eq_some_iff.1 h
    cases h
    exact ⟨pages, slots, simd, references, bulk, stack, names⟩
  · rintro ⟨pages, slots, simd, references, bulk, stack, names⟩
    unfold ofTable?
    dsimp only
    rw [pages, slots, simd, references, bulk, stack, names]
    rfl

/-- Each setting takes what the document says, or else the default. -/
theorem takes_of_ofTable? (h : ofTable? t = some c) :
    ∀ s ∈ settings, s.kind.Takes (said? t s.path) (s.value {}) (s.value c) := by
  obtain ⟨pages, slots, simd, references, bulk, stack, abi⟩ := ofTable?_eq_some_iff.1 h
  obtain ⟨names, -⟩ := (Abi.ofFields?_eq_some_iff _).1 (abi_eq_some_iff.1 abi).2
  rw [settings, List.forall_mem_append]
  constructor
  · simp only [limits, List.forall_mem_cons]
    exact ⟨(number_readBy 64).takes pages, (number_readBy 32).takes slots, flag_readBy.takes simd,
      flag_readBy.takes references, flag_readBy.takes bulk, (number_readBy 64).takes stack, nofun⟩
  · intro s name
    obtain ⟨n, among, rfl⟩ := List.mem_map.1 name
    exact text_readBy.takes (names n among)

/-! New names of host calls. -/

theorem asTexts?_table_iff {entries : Toml.Table} {calls : List (String × String)} :
    Value.asTexts? (.table entries) = some calls ↔ entries = calls.map fun e => (e.1, .string e.2) := by
  have open_ (entries : Toml.Table) : Value.asTexts? (.table entries) =
    entries.mapM fun e => e.2.asString?.map fun text => (e.1, text) := rfl
  rw [open_]
  induction entries generalizing calls with
  | nil => cases calls <;> simp
  | cons e rest ih =>
    obtain ⟨call, v⟩ := e
    rw [List.mapM_cons]
    cases calls with
    | nil => cases v <;> simp [Value.asString?, Option.bind_eq_some_iff]
    | cons first calls =>
      have later := @ih calls
      rw [List.map_cons, List.cons.injEq]
      refine Iff.trans ?_ (and_congr_right fun _ => later)
      cases v <;> simp [Value.asString?, Option.bind_eq_some_iff, Prod.ext_iff, and_comm]

theorem exists_texts {entries : Toml.Table} (fits : ∀ e ∈ entries, Kind.text.fits e.2 = true) :
    ∃ calls, Value.asTexts? (.table entries) = some calls := by
  simp only [asTexts?_table_iff]
  induction entries with
  | nil => exact ⟨[], rfl⟩
  | cons e rest ih =>
    obtain ⟨first, others⟩ := List.forall_mem_cons.1 fits
    obtain ⟨new, read⟩ := text_readBy.reads first
    obtain ⟨calls, rfl⟩ := ih others
    have same := (text_readBy.fits read).2
    exact ⟨(e.1, new) :: calls, by simp [← same]⟩

/-- The new names that are read are those of the document, unless it has a date or time in their place. -/
theorem callsIn_eq (h : ofTable? t = some c) : callsIn t = c.abi.hostCalls.map (fun e => (e.1, .string e.2)) ∨
    ∃ text, (abiFields t).lookup "host_calls" = some (.datetime text) := by
  obtain ⟨-, -, -, -, -, -, abi⟩ := ofTable?_eq_some_iff.1 h
  obtain ⟨-, read⟩ := (Abi.ofFields?_eq_some_iff _).1 (abi_eq_some_iff.1 abi).2
  unfold callsIn
  cases found : (abiFields t).lookup "host_calls" with
  | none =>
    rw [found] at read
    rw [← Option.some.inj read]
    exact .inl rfl
  | some v =>
    rw [found] at read
    cases v with
    | table entries => exact .inl (asTexts?_table_iff.1 read)
    | datetime text => exact .inr ⟨text, rfl⟩
    | _ => cases read

theorem exists_of_isFitting (fits : isFitting t = true) : ∃ c, ofTable? t = some c := by
  obtain ⟨fits, abi, table, calls⟩ := isFitting_iff.1 fits
  rw [settings, List.forall_mem_append] at fits
  obtain ⟨limits_fit, names_fit⟩ := fits
  have renamed : ∃ calls, fieldOr ((abiFields t).lookup "host_calls") Value.asTexts? [] = some calls := by
    unfold callsIn at calls
    cases found : (abiFields t).lookup "host_calls" with
    | none => exact ⟨[], rfl⟩
    | some v =>
      have fits := table v found
      rw [found] at calls
      cases v with
      | table entries => exact exists_texts calls
      | _ => cases fits
  obtain ⟨new, found⟩ := renamed
  obtain ⟨names, read⟩ := Abi.exists_ofFields? (fun key => (abiFields t).lookup key)
    (fun n mem v found => names_fit (.name n.1 n.2) (List.mem_map.2 ⟨n, mem, rfl⟩) v found) found
  have names := abi_eq_some_iff.2 ⟨fun v found => .inl (abi v found), read⟩
  simp only [limits, List.forall_mem_cons] at limits_fit
  obtain ⟨pages, slots, simd, references, bulk, stack, -⟩ := limits_fit
  obtain ⟨_, pages⟩ := (number_readBy 64).exists pages
  obtain ⟨_, slots⟩ := (number_readBy 32).exists slots
  obtain ⟨_, simd⟩ := flag_readBy.exists simd
  obtain ⟨_, references⟩ := flag_readBy.exists references
  obtain ⟨_, bulk⟩ := flag_readBy.exists bulk
  obtain ⟨_, stack⟩ := (number_readBy 64).exists stack
  exact ⟨⟨_, _, _, _, _, _, _⟩, ofTable?_eq_some_iff.2 ⟨pages, slots, simd, references, bulk, stack, names⟩⟩

/-! Documents that fit, and others. -/

section Documents

variable (distinct : (Value.table t).Distinct)
include distinct

/-- What can be read is of its kind, but for dates and times in place of tables. -/
theorem fits_of_ofTable? (h : ofTable? t = some c) {path : List String} {kind : Kind} {v : Value}
    (known : Known path kind) (said : Says t path v) :
    kind.fits v = true ∨ (kind = .table ∨ kind = .fields) ∧ ∃ text, v = .datetime text := by
  obtain ⟨-, -, -, -, -, -, abi⟩ := ofTable?_eq_some_iff.1 h
  obtain ⟨shape, fields⟩ := abi_eq_some_iff.1 abi
  cases known with
  | setting mem => exact .inl ((takes_of_ofTable? h _ mem).1 v ((said_iff distinct mem).1 said))
  | abi =>
    cases said with
    | key mem =>
      rcases shape v ((lookup_iff distinct).2 mem) with fits | datetime
      · exact .inl fits
      · exact .inr ⟨.inr rfl, datetime⟩
  | hostCalls =>
    have found := (abi_said_iff distinct).1 said
    have read := ((Abi.ofFields?_eq_some_iff _).1 fields).2
    rw [found] at read
    cases v with
    | table entries => exact .inl rfl
    | datetime text => exact .inr ⟨.inl rfl, text, rfl⟩
    | _ => cases read
  | hostCall call =>
    have mem := (hostCall_said_iff distinct).1 said
    rcases callsIn_eq h with same | ⟨text, found⟩
    · rw [same] at mem
      obtain ⟨e, -, same⟩ := List.mem_map.1 mem
      cases same
      exact .inl rfl
    · unfold callsIn at mem
      rw [found] at mem
      cases mem

theorem ofTable?_of_misfit (misfit : Misfit t) : ofTable? t = none := by
  obtain ⟨path, kind, v, known, said, wrong, table⟩ := misfit
  cases h : ofTable? t with
  | none => rfl
  | some c =>
    rcases fits_of_ofTable? distinct h known said with fits | ⟨kinds, text, datetime⟩
    · rw [wrong] at fits
      cases fits
    · exact absurd datetime (table kinds text)

theorem fitting_iff : Fitting t ↔ isFitting t = true := by
  rw [isFitting_iff]
  constructor
  · intro fitting
    refine ⟨fun s mem v found => ?_, fun v found => ?_, fun v found => ?_, fun e mem => ?_⟩
    · exact fitting _ _ v (.setting mem) ((said_iff distinct mem).2 found)
    · exact fitting _ _ v .abi (.key ((lookup_iff distinct).1 found))
    · exact fitting _ _ v .hostCalls ((abi_said_iff distinct).2 found)
    · exact fitting _ _ e.2 (.hostCall e.1) ((hostCall_said_iff distinct).2 mem)
  · rintro ⟨settings, abi, table, calls⟩ path kind v known said
    cases known with
    | setting mem => exact settings _ mem v ((said_iff distinct mem).1 said)
    | abi =>
      cases said with
      | key mem => exact abi v ((lookup_iff distinct).2 mem)
    | hostCalls => exact table v ((abi_said_iff distinct).1 said)
    | hostCall call => exact calls (call, v) ((hostCall_said_iff distinct).1 said)

end Documents

/-! All settings together. -/

/-- A configuration is its settings and the new names of host calls. -/
theorem eq_of_settings {c c' : Config} (same : ∀ s ∈ settings, s.value c = s.value c') :
    c' = { c with abi := { c.abi with hostCalls := c'.abi.hostCalls } } := by
  obtain ⟨pages, slots, simd, references, bulk, stack, abi⟩ := c
  obtain ⟨pages', slots', simd', references', bulk', stack', abi'⟩ := c'
  obtain ⟨⟩ := abi
  obtain ⟨⟩ := abi'
  simp only [settings, limits, nameFields, Setting.number, Setting.flag, Setting.name, List.map_cons, List.map_nil,
    List.forall_mem_append, List.forall_mem_cons, Value.integer.injEq, Value.boolean.injEq, Value.string.injEq,
    Int.ofNat_inj] at same
  simp [same]

end Config

namespace Shell

open Config

/-- What the command line gives for a setting. -/
def Arguments.given (a : Arguments) : List String → Option Value
  | ["max_memory_pages"] => a.maxMemoryPages.map fun n => .integer n
  | ["max_table_size"] => a.maxTableSize.map fun n => .integer n
  | _ => none

theorem Arguments.value_override (a : Arguments) (c : Config) :
    ∀ s ∈ settings, s.value (a.override c) = (a.given s.path).getD (s.value c) := by
  rw [settings, List.forall_mem_append]
  constructor
  · cases pages : a.maxMemoryPages <;> cases slots : a.maxTableSize <;>
      simp [limits, Setting.number, Setting.flag, override, given, pages, slots]
  · intro s name
    obtain ⟨n, -, rfl⟩ := List.mem_map.1 name
    rfl

/-- The value of a setting: what the command line gives, else what the document says, else the default. -/
inductive Settled (a : Arguments) (t : Toml.Table) (s : Setting) : Value → Prop where
  | given {v : Value} (given : a.given s.path = some v) : Settled a t s v
  | said {v : Value} (silent : a.given s.path = none) (said : Says t s.path v) : Settled a t s v
  | default (silent : a.given s.path = none) (unsaid : ∀ v, ¬ Says t s.path v) : Settled a t s (s.value {})

theorem settled_iff {t : Toml.Table} {c : Config} (distinct : (Value.table t).Distinct) (h : ofTable? t = some c)
    (a : Arguments) {s : Setting} (mem : s ∈ settings) (v : Value) : s.value (a.override c) = v ↔ Settled a t s v := by
  have iff : ∀ v, Says t s.path v ↔ said? t s.path = some v := fun v => said_iff distinct mem
  rw [a.value_override c s mem, (takes_of_ofTable? h s mem).2]
  constructor
  · rintro rfl
    cases given : a.given s.path with
    | some v => exact .given given
    | none =>
      cases found : said? t s.path with
      | some v => exact .said given ((iff v).2 found)
      | none =>
        refine .default given fun v said => ?_
        rw [iff, found] at said
        cases said
  · intro settled
    cases settled with
    | given given => rw [given, Option.getD_some]
    | said silent said => rw [silent, (iff v).1 said, Option.getD_none, Option.getD_some]
    | default silent unsaid =>
      have found : said? t s.path = none := Option.eq_none_iff_forall_ne_some.2 fun v found => unsaid v ((iff v).2 found)
      rw [silent, found, Option.getD_none, Option.getD_none]

/-- Two documents say the same of every setting and of the new name of every host call. -/
def SayAlike (t t' : Toml.Table) : Prop :=
  (∀ s ∈ settings, ∀ v, Says t s.path v ↔ Says t' s.path v) ∧
    ∀ call v, Says t ["abi", "host_calls", call] v ↔ Says t' ["abi", "host_calls", call] v

/-- The new names of host calls are those that a document gives. -/
theorem mem_hostCalls_iff {t : Toml.Table} {c : Config} (distinct : (Value.table t).Distinct) (fitting : Fitting t)
    (h : ofTable? t = some c) (call name : String) :
    (call, name) ∈ c.abi.hostCalls ↔ Says t ["abi", "host_calls", call] (.string name) := by
  rw [hostCall_said_iff distinct]
  rcases callsIn_eq h with same | ⟨text, found⟩
  · simp [same]
  · have fits := fitting _ _ _ .hostCalls ((abi_said_iff distinct).2 found)
    cases fits

theorem nodup_hostCalls {t : Toml.Table} {c : Config} (distinct : (Value.table t).Distinct) (fitting : Fitting t)
    (h : ofTable? t = some c) : c.abi.hostCalls.Nodup := by
  rcases callsIn_eq h with same | ⟨text, found⟩
  · have keys := nodup_callsIn distinct
    rw [same, List.map_map] at keys
    exact keys.of_map
  · have fits := fitting _ _ _ .hostCalls ((abi_said_iff distinct).2 found)
    cases fits

theorem loadConfig_eq {read : String → Except ReadFault (List UInt8)} {path text : String} {t : Toml.Table}
    (found : (read path).bind textOf = .ok text) (parsed : Toml.parse? text = some t) :
    loadConfig read (some path) = (ofTable? t).elim (.error .configInvalid) .ok := by
  unfold loadConfig
  dsimp only
  rw [found]
  dsimp only
  rw [parsed, Option.bind_some]
  cases ofTable? t <;> rfl

/-- A document with a limit, a name, a new name for a host call, and keys that mean nothing. -/
def Sample.document : String :=
  "x = 1\nmax_table_size = 7\n[abi]\nmain = \"m\"\ny = []\nhost_calls = \x7b log = \"l\" \x7d\n"

def Sample.arguments : Arguments := { base := "b", maxMemoryPages := some 3 }

/-- A document that gives the first two names as an array. -/
def Sample.itemsDocument : String := "abi = [\"u\", \"v\"]\n"

/-- Some documents, by their paths. -/
def Sample.documents (path : String) : Except ReadFault (List UInt8) :=
  let text := if path = "c" then Sample.document else if path = "i" then Sample.itemsDocument
    else if path = "n" then "max_table_size = -1\n" else "abi = []\n"
  .ok (text.toList.map fun c => UInt8.ofNat c.toNat)

/-- An array may stand where a table of names is expected; if it is empty, all names are the usual ones. -/
theorem array_stands_for_names : ∃ t v, (Sample.documents "a").bind textOf = .ok "abi = []\n" ∧
    Toml.parse? "abi = []\n" = some t ∧ Says t ["abi"] v ∧ Kind.table.fits v = false ∧
    loadConfig Sample.documents (some "a") = .ok {} := by
  have evaluated : (Toml.parse? "abi = []\n").bind (fun t => (t.lookup "abi").map Kind.table.fits) = some false := by
    decide +kernel
  obtain ⟨t, parsed, evaluated⟩ := Option.bind_eq_some_iff.1 evaluated
  obtain ⟨v, found, array⟩ := Option.map_eq_some_iff.1 evaluated
  have said : Says t ["abi"] v := .key ((lookup_iff (Toml.parse?_distinct parsed)).1 found)
  exact ⟨t, v, by decide +kernel, parsed, said, array, by decide +kernel⟩

/-- A document that can be read and whose known keys all have values of their kind gives a configuration. Under any
arguments, every setting then has the value of the command line, else that of the document, else the default, and
the new names of host calls are those of the document. Another such document that says the same gives the same, whatever
the order of its entries and whatever else it says; only the order of the new names may differ. If a known key has a
value that is not of its kind, no configuration is given. -/
theorem settings_layered {read : String → Except ReadFault (List UInt8)} {path text : String} {t : Toml.Table}
    (found : (read path).bind textOf = .ok text) (parsed : Toml.parse? text = some t) :
    (Fitting t → ∃ c, loadConfig read (some path) = .ok c ∧
      (∀ (a : Arguments), ∀ s ∈ settings, ∀ v, s.value (a.override c) = v ↔ Settled a t s v) ∧
      (∀ (a : Arguments) (call name : String),
        (call, name) ∈ (a.override c).abi.hostCalls ↔ Says t ["abi", "host_calls", call] (.string name)) ∧
      ∀ path' text' t', (read path').bind textOf = .ok text' → Toml.parse? text' = some t' → Fitting t' → SayAlike t t' →
        ∃ c', loadConfig read (some path') = .ok c' ∧ c'.abi.hostCalls.Perm c.abi.hostCalls ∧
          c' = { c with abi := { c.abi with hostCalls := c'.abi.hostCalls } }) ∧
    (Misfit t → loadConfig read (some path) = .error .configInvalid) := by
  have distinct := Toml.parse?_distinct parsed
  refine ⟨fun fitting => ?_, fun misfit => ?_⟩
  · obtain ⟨c, h⟩ := exists_of_isFitting ((fitting_iff distinct).1 fitting)
    have loaded : loadConfig read (some path) = .ok c := by rw [loadConfig_eq found parsed, h]; rfl
    have named := mem_hostCalls_iff distinct fitting h
    refine ⟨c, loaded, fun a s mem v => settled_iff distinct h a mem v, fun a => named, ?_⟩
    intro path' text' t' found' parsed' fitting' alike
    have distinct' := Toml.parse?_distinct parsed'
    obtain ⟨c', h'⟩ := exists_of_isFitting ((fitting_iff distinct').1 fitting')
    have loaded' : loadConfig read (some path') = .ok c' := by rw [loadConfig_eq found' parsed', h']; rfl
    refine ⟨c', loaded', ?_, eq_of_settings fun s mem => ?_⟩
    · have nodup := nodup_hostCalls distinct fitting h
      have nodup' := nodup_hostCalls distinct' fitting' h'
      refine (List.perm_ext_iff_of_nodup nodup' nodup).2 fun e => ?_
      rw [named, mem_hostCalls_iff distinct' fitting' h']
      exact (alike.2 e.1 _).symm
    · have same : said? t s.path = said? t' s.path := by
        apply Option.ext
        intro v
        rw [← said_iff distinct mem, ← said_iff distinct' mem]
        exact alike.1 s mem v
      rw [(takes_of_ofTable? h s mem).2, (takes_of_ofTable? h' s mem).2, same]
  · rw [loadConfig_eq found parsed, ofTable?_of_misfit distinct misfit]
    rfl

/-- The limit of the command line, the limit and the new name of the document, and a default. A document with an array
of two names gives the first two and leaves the third. A negative limit gives nothing. -/
theorem limits_from_both : ∃ t c t' c', Toml.parse? Sample.document = some t ∧ Fitting t ∧
    loadConfig Sample.documents (some "c") = .ok c ∧
    (Sample.arguments.override c).maxMemoryPages = 3 ∧ (Sample.arguments.override c).maxTableSize = 7 ∧
    (Sample.arguments.override c).abi.memory = "memory" ∧ ("log", "l") ∈ (Sample.arguments.override c).abi.hostCalls ∧
    Toml.parse? Sample.itemsDocument = some t' ∧ Fitting t' ∧ loadConfig Sample.documents (some "i") = .ok c' ∧
    (Sample.arguments.override c').abi.consoleModule = "u" ∧ (Sample.arguments.override c').abi.performanceModule = "v" ∧
    (Sample.arguments.override c').abi.envModule = "env" ∧
    loadConfig Sample.documents (some "n") = .error .configInvalid := by
  have evaluated : (Toml.parse? Sample.document).map (fun t =>
      (isFitting t, (t.lookup "max_table_size").bind (Value.asNat? 32), ((abiFields t).lookup "memory").isNone,
        ((callsIn t).lookup "log").bind Value.asString?)) = some (true, some 7, true, some "l") := by decide +kernel
  have listed : (Toml.parse? Sample.itemsDocument).map (fun t =>
      (isFitting t, ((abiFields t).lookup "console_module").bind Value.asString?,
        ((abiFields t).lookup "performance_module").bind Value.asString?, ((abiFields t).lookup "env_module").isNone)) =
      some (true, some "u", some "v", true) := by decide +kernel
  have refused : (Toml.parse? "max_table_size = -1\n").bind
      (fun t => (t.lookup "max_table_size").map (Kind.number 32).fits) = some false := by decide +kernel
  have slots : Setting.number "max_table_size" 32 maxTableSize ∈ settings := by simp [settings, limits]
  obtain ⟨t, parsed, evaluated⟩ := Option.map_eq_some_iff.1 evaluated
  obtain ⟨t', parsed', listed⟩ := Option.map_eq_some_iff.1 listed
  obtain ⟨t'', parsed'', refused⟩ := Option.bind_eq_some_iff.1 refused
  simp only [Prod.mk.injEq] at evaluated listed
  obtain ⟨fits, slotsFound, memoryFound, callFound⟩ := evaluated
  obtain ⟨fits', first, second, third⟩ := listed
  have distinct := Toml.parse?_distinct parsed
  have distinct' := Toml.parse?_distinct parsed'
  have fitting := (fitting_iff distinct).2 fits
  have fitting' := (fitting_iff distinct').2 fits'
  obtain ⟨v, found, read⟩ := Option.bind_eq_some_iff.1 slotsFound
  obtain ⟨w, renamed, text⟩ := Option.bind_eq_some_iff.1 callFound
  rw [((number_readBy 32).fits read).2] at found
  rw [(text_readBy.fits text).2] at renamed
  obtain ⟨negative, below, wrong⟩ := Option.map_eq_some_iff.1 refused
  have below : Says t'' ["max_table_size"] negative := .key ((lookup_iff (Toml.parse?_distinct parsed'')).1 below)
  have misfit : Misfit t'' :=
    ⟨_, _, negative, .setting slots, below, wrong, fun kinds => by rcases kinds with h | h <;> cases h⟩
  have text : (Sample.documents "c").bind textOf = .ok Sample.document := by decide +kernel
  have text' : (Sample.documents "i").bind textOf = .ok Sample.itemsDocument := by decide +kernel
  have text'' : (Sample.documents "n").bind textOf = .ok "max_table_size = -1\n" := by decide +kernel
  obtain ⟨c, loaded, layered, calls, -⟩ := (settings_layered text parsed).1 fitting
  obtain ⟨c', loaded', layered', -⟩ := (settings_layered text' parsed').1 fitting'
  have layered := layered Sample.arguments
  have layered' := layered' Sample.arguments
  refine ⟨t, c, t', c', parsed, fitting, loaded, ?_, ?_, ?_, ?_, parsed', fitting', loaded', ?_, ?_, ?_,
    (settings_layered text'' parsed'').2 misfit⟩
  · have pages : Setting.number "max_memory_pages" 64 maxMemoryPages ∈ settings := by simp [settings, limits]
    have given := (layered _ pages _).2 (.given rfl)
    exact Int.ofNat.inj (Value.integer.inj given)
  · have told := (layered _ slots _).2 (.said rfl (.key ((lookup_iff distinct).1 found)))
    exact Int.ofNat.inj (Value.integer.inj told)
  · have memory : ("memory", Abi.memory) ∈ nameFields := by simp [nameFields]
    exact Value.string.inj ((layered _ (name_mem_settings memory) _).2 (.default rfl (abi_unsaid distinct memoryFound)))
  · refine (calls _ "log" "l").2 ((hostCall_said_iff distinct).2 ?_)
    exact (lookup_eq_some_iff_mem (nodup_callsIn distinct)).1 renamed
  · have console : ("console_module", Abi.consoleModule) ∈ nameFields := by simp [nameFields]
    exact Value.string.inj ((layered' _ (name_mem_settings console) _).2 (.said rfl (abi_said_of_asString? distinct' first)))
  · have performance : ("performance_module", Abi.performanceModule) ∈ nameFields := by simp [nameFields]
    exact Value.string.inj ((layered' _ (name_mem_settings performance) _).2 (.said rfl (abi_said_of_asString? distinct' second)))
  · have env : ("env_module", Abi.envModule) ∈ nameFields := by simp [nameFields]
    exact Value.string.inj ((layered' _ (name_mem_settings env) _).2 (.default rfl (abi_unsaid distinct' third)))

end Shell

end UnitHost
