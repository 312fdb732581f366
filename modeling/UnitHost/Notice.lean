import UnitHost.Console
import UnitHost.Response

/-!
# Notices

Log records, by what they report. `Notice.message` puts one into words, `Notice.level` and
`Notice.source` say how urgent it is and which part of the host speaks.
-/

namespace UnitHost

/-- How urgent a record is. -/
inductive Level where
  | debug
  | info
  | warn
  | error
  deriving DecidableEq, Repr

/-- The word for it. -/
def Level.name : Level → String
  | debug => "DEBUG"
  | info => "INFO"
  | warn => "WARN"
  | error => "ERROR"

/-- The part of the host a record comes from. -/
inductive Source where
  | console
  | host
  | linker
  | program
  | session
  | engine
  deriving DecidableEq, Repr

/-- The word for it. -/
def Source.name : Source → String
  | console => "console"
  | host => "host"
  | linker => "linker"
  | program => "program"
  | session => "session"
  | engine => "engine"

/-- What a record reports. -/
inductive Notice where
  | message (channel : Channel) (depth : Nat) (text : String)
  | opened (depth : Nat) (label : String)
  | unwound (groups : Nat)
  | mark (name : String) (elapsed : Nat)
  | markIgnored (failure : Failure)
  | compiledBase (imports exports : Nat)
  | linkDone (index : Nat)
  | linkFailed (failure : Failure)
  | memoryGrown (before after : Nat)
  | tableGrown (before after : Nat)
  | staticInitTrapped (index : Nat)
  | mainTrapped (index : Nat)
  | unitLinked (index memoryBase tableBase : Nat)
  | reservedExport (name : String)
  | shadowed (name : String)
  | extraResult (response : Response)
  | staleResult (response : Response)
  | ready (pages slots : Nat)
  | failedAfterPosting (failure : Failure)
  | submission (number : Nat) (response : Response)
  deriving DecidableEq, Repr

/-- Two blanks for each open group. -/
def indent (depth : Nat) : String :=
  String.ofList (List.replicate (2 * depth) ' ')

/-- A span of nanoseconds in the largest unit that it fills, with the digits it needs. -/
def duration (nanos : Nat) : String :=
  let written (unit digits : Nat) (name : String) : String :=
    let part := (Nat.toDigits 10 (nanos % unit)).leftpad digits '0'
    let kept := (part.reverse.dropWhile (· == '0')).reverse
    toString (nanos / unit) ++ (if kept.isEmpty then "" else "." ++ String.ofList kept) ++ name
  if 1000000000 ≤ nanos then written 1000000000 9 "s"
  else if 1000000 ≤ nanos then written 1000000 6 "ms"
  else if 1000 ≤ nanos then written 1000 3 "µs"
  else toString nanos ++ "ns"

namespace Notice

/-- How urgent the record is. -/
def level : Notice → Level
  | message .log .. | opened .. | ready .. => .info
  | message .warn .. | markIgnored .. | staticInitTrapped .. | mainTrapped .. | extraResult .. |
    staleResult .. | failedAfterPosting .. => .warn
  | message .error .. => .error
  | _ => .debug

/-- Which part of the host speaks. -/
def source : Notice → Source
  | message .. | opened .. | mark .. => .console
  | unwound .. | markIgnored .. | linkDone .. | linkFailed .. => .host
  | compiledBase .. => .engine
  | memoryGrown .. | tableGrown .. | staticInitTrapped .. | mainTrapped .. | unitLinked .. => .linker
  | reservedExport .. | shadowed .. | extraResult .. => .program
  | staleResult .. | ready .. | failedAfterPosting .. | submission .. => .session

/-- The record in words. -/
def text : Notice → String
  | message _ depth text => indent depth ++ text
  | opened depth label => indent depth ++ "▸ " ++ label
  | unwound groups => s!"unwound {groups} console groups"
  | mark name elapsed => s!"mark `{name}` at {duration elapsed}"
  | markIgnored failure => s!"mark ignored: {failure.message}"
  | compiledBase imports exports => s!"compiled base form: {imports} imports, {exports} exports"
  | linkDone index => s!"compile_init linked unit {index}"
  | linkFailed failure => s!"compile_init failed: {failure.message}"
  | memoryGrown before after => s!"memory grown {before} -> {after} pages"
  | tableGrown before after => s!"table grown {before} -> {after} slots"
  | staticInitTrapped index => s!"unit {index} trapped during static initialization"
  | mainTrapped index => s!"unit {index} trapped in main"
  | unitLinked index memoryBase tableBase =>
    s!"linked unit {index} at memory base {memoryBase} / table base {tableBase}"
  | reservedExport name => s!"not publishing reserved name `{name}`"
  | shadowed name => s!"`{name}` shadows an earlier definition"
  | extraResult response => s!"ignoring extra result for this submission: {response.quoted}"
  | staleResult response => s!"discarding result posted during initialization: {response.quoted}"
  | ready pages slots => s!"session ready: {pages} memory pages, {slots} table slots"
  | failedAfterPosting failure => s!"evaluation failed after posting a result: {failure.message}"
  | submission number response => s!"submission {number} -> {response.quoted}"

end Notice

/-- What observers of a session see: its console and its log. -/
structure Journal where
  console : Console := {}
  log : Array Notice := #[]

namespace Journal

/-- Adds a log record. -/
def note (j : Journal) (n : Notice) : Journal :=
  { j with log := j.log.push n }

/-- A message at the current depth. -/
def message (j : Journal) (channel : Channel) (text : String) : Journal :=
  { j.note (.message channel j.console.depth text) with console := j.console.message channel text }

/-- Opens a group. -/
def openGroup (j : Journal) (label : String) : Journal :=
  { j.note (.opened j.console.depth label) with console := j.console.openGroup label }

/-- Closes the innermost group. -/
def closeGroup (j : Journal) : Except Failure Journal :=
  j.console.closeGroup.map fun c => { j with console := c }

/-- Closes groups until at most `depth` are open. -/
def closeTo (j : Journal) (depth : Nat) : Journal :=
  { j with console := j.console.closeTo depth }

/-- Closes every group. -/
def unwind (j : Journal) : Journal :=
  match j.console.depth with
  | 0 => j
  | depth + 1 => (j.closeTo 0).note (.unwound (depth + 1))

/-- A timing mark. -/
def mark (j : Journal) (name : String) (elapsed : Nat) : Journal :=
  { j.note (.mark name elapsed) with console := j.console.mark name elapsed }

/-- The console entries since the last drain, and the journal without them. -/
def drain (j : Journal) : Array Event × Journal :=
  (j.console.events, { j with console := j.console.drain.2 })

/-- The log records since they were last taken, and the journal without them. -/
def takeLog (j : Journal) : Array Notice × Journal :=
  (j.log, { j with log := #[] })

end Journal

end UnitHost
