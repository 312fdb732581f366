import UnitHost.Config

/-!
# Command line

The arguments of the program: the base, an optional configuration file, two limits that override it,
and a flag. They are read from left to right and the first problem met is reported. The value of an
option that stands apart from it is checked only when the next argument is understood.
-/

namespace UnitHost.Shell

/-- What the arguments say. -/
structure Arguments where
  base : String
  config : Option String := none
  maxMemoryPages : Option Nat := none
  maxTableSize : Option Nat := none
  quiet : Bool := false
  deriving DecidableEq, Repr

/-- Why the program does not run with some arguments. -/
inductive ArgumentFault where
  | missingRequired
  | unknown
  /-- A value is missing, or a path is empty. -/
  | invalidValue
  /-- A value is no number in range. -/
  | badNumber
  /-- Something is given twice. -/
  | conflict
  /-- A value is given to a flag. -/
  | tooManyValues
  | help
  | version
  deriving DecidableEq, Repr

/-- What takes a value. -/
inductive Slot where
  | base
  | config
  | maxMemoryPages
  | maxTableSize
  deriving DecidableEq, Repr

/-- What takes none. -/
inductive Switch where
  | quiet
  | help
  | version
  deriving DecidableEq, Repr

/-- The option of a long name. -/
def optionOf? : String → Option (Slot ⊕ Switch)
  | "config" => some (.inl .config)
  | "max-memory-pages" => some (.inl .maxMemoryPages)
  | "max-table-size" => some (.inl .maxTableSize)
  | "quiet" => some (.inr .quiet)
  | "help" => some (.inr .help)
  | "version" => some (.inr .version)
  | _ => none

/-- The switch of a letter. -/
def switchOf? : Char → Option Switch
  | 'q' => some .quiet
  | 'h' => some .help
  | 'V' => some .version
  | _ => none

/-- Decimal digits, at least one. -/
def digits? (chars : List Char) : Option Nat :=
  if chars.isEmpty || !chars.all Char.isDigit then none
  else some (chars.foldl (fun n c => n * 10 + (c.toNat - '0'.toNat)) 0)

/-- A number of 64 bits; a plus sign may stand in front. -/
def pages? (text : String) : Option Nat := do
  let n ← match text.toList with
    | '+' :: rest => digits? rest
    | chars => digits? chars
  if n < Nat.pow 2 64 then some n else none

/-- A number of 32 bits; a plus sign may stand in front, and a minus sign in front of zero. -/
def slots? (text : String) : Option Nat := do
  let n ← match text.toList with
    | '+' :: rest => digits? rest
    | '-' :: rest => (digits? rest).filter (· == 0)
    | chars => digits? chars
  if n < Nat.pow 2 32 then some n else none

/-- Reading in progress. -/
structure Parse where
  base : Option String := none
  config : Option String := none
  maxMemoryPages : Option Nat := none
  maxTableSize : Option Nat := none
  quiet : Bool := false
  /-- What waits for a value, or has one that is not checked yet. -/
  pending : Option (Slot × Option String) := none
  /-- The base has been given. -/
  baseGiven : Bool := false
  /-- Only values follow. -/
  valuesOnly : Bool := false

namespace Parse

/-- A value that is not given yet. -/
def once (given : Option α) (value : Except ArgumentFault α) : Except ArgumentFault (Option α) :=
  match given with
  | some _ => .error .conflict
  | none => value.map some

/-- A path that is not empty. -/
def path (text : String) : Except ArgumentFault String :=
  if text.isEmpty then .error .invalidValue else .ok text

/-- A number that can be read. -/
def number (n : Option Nat) : Except ArgumentFault Nat :=
  match n with
  | some n => .ok n
  | none => .error .badNumber

/-- Stores a value. -/
def assign (p : Parse) (slot : Slot) (text : String) : Except ArgumentFault Parse := do
  match slot with
  | .base => .ok { p with base := ← once p.base (path text) }
  | .config => .ok { p with config := ← once p.config (path text) }
  | .maxMemoryPages => .ok { p with maxMemoryPages := ← once p.maxMemoryPages (number (pages? text)) }
  | .maxTableSize => .ok { p with maxTableSize := ← once p.maxTableSize (number (slots? text)) }

/-- Checks and stores what is pending. -/
def settle (p : Parse) : Except ArgumentFault Parse :=
  match p.pending with
  | none => .ok p
  | some (_, none) => .error .invalidValue
  | some (slot, some text) => { p with pending := none }.assign slot text

/-- A switch. -/
def turn (p : Parse) (s : Switch) : Except ArgumentFault Parse := do
  let p ← p.settle
  match s with
  | .quiet => if p.quiet then .error .conflict else .ok { p with quiet := true }
  | .help => .error .help
  | .version => .error .version

/-- An option by its long name, with the value attached to it. -/
def long (p : Parse) (name : String) (value : Option String) : Except ArgumentFault Parse :=
  match optionOf? name, value with
  | none, _ => .error .unknown
  | some (.inr _), some _ => .error .tooManyValues
  | some (.inr s), none => p.turn s
  | some (.inl slot), some text => do (← p.settle).assign slot text
  | some (.inl slot), none => do .ok { ← p.settle with pending := some (slot, none) }

/-- Switches by their letters. -/
def short (p : Parse) : List Char → Except ArgumentFault Parse
  | [] => .ok p
  | c :: rest =>
    match switchOf? c with
    | some s => do (← p.turn s).short rest
    | none => .error .unknown

/-- A value that belongs to no option. -/
def positional (p : Parse) (text : String) : Except ArgumentFault Parse :=
  if p.baseGiven then .error .unknown
  else do .ok { ← p.settle with pending := some (.base, some text), baseGiven := true }

/-- One argument. -/
def next (p : Parse) (arg : String) : Except ArgumentFault Parse :=
  if p.valuesOnly then p.positional arg
  else
    match arg.toList, p.pending with
    | ['-', '-'], _ => .ok { p with valuesOnly := true }
    | '-' :: '-' :: rest, _ =>
      let name := String.ofList (rest.takeWhile (· != '='))
      match rest.dropWhile (· != '=') with
      | [] => p.long name none
      | _ :: value => p.long name (some (String.ofList value))
    | '-' :: c :: rest, _ => p.short (c :: rest)
    | _, some (slot, none) => .ok { p with pending := some (slot, some arg) }
    | _, _ => p.positional arg

/-- The end of the arguments. -/
def finish (p : Parse) : Except ArgumentFault Arguments := do
  let p ← p.settle
  match p.base with
  | none => .error .missingRequired
  | some base =>
    let { config, maxMemoryPages, maxTableSize, quiet, .. } := p
    .ok { base, config, maxMemoryPages, maxTableSize, quiet }

end Parse

/-- Reads the arguments. -/
def Arguments.parse (args : List String) : Except ArgumentFault Arguments := do
  (← args.foldlM Parse.next {}).finish

/-- The limits given on the command line override the configuration's. -/
def Arguments.override (a : Arguments) (c : Config) : Config :=
  { c with
    maxMemoryPages := a.maxMemoryPages.getD c.maxMemoryPages
    maxTableSize := a.maxTableSize.getD c.maxTableSize }

end UnitHost.Shell
