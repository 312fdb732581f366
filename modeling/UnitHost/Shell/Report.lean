import UnitHost.Session
import UnitHost.Text.Blank

/-!
# What the shell prints

The shell's output as items: console entries, responses, what commands list and what could not be
done. `Item.print?` puts an item into words and says which stream they go to.
-/

namespace UnitHost.Shell

/-- Text for one of the two streams; a line end follows it. -/
inductive Printed where
  | out (text : String)
  | err (text : String)
  deriving DecidableEq, Repr

/-- One thing the shell shows. -/
inductive Item where
  /-- A console entry. -/
  | event (e : Event)
  /-- The answer to a submission. -/
  | response (r : Response)
  /-- A line a command lists. -/
  | listed (text : String)
  /-- Something that could not be done. -/
  | refused (text : String)
  deriving DecidableEq, Repr

/-- What is printed for a console entry; the end of a group is not shown. -/
def printEvent? : Event → Option Printed
  | .message .log depth text => some (.out (indent depth ++ text))
  | .message .warn depth text => some (.err (indent depth ++ "warning: " ++ text))
  | .message .error depth text => some (.err (indent depth ++ "error: " ++ text))
  | .opened depth label => some (.out (indent depth ++ "▸ " ++ label))
  | .closed _ => none
  | .mark name elapsed => some (.out s!"; {name} at {duration elapsed}")

/-- What is printed for an item. -/
def Item.print? : Item → Option Printed
  | event e => printEvent? e
  | response (.output text) => some (.out text)
  | response (.error text) => some (.err ("; error: " ++ text))
  | listed text => some (.out text)
  | refused text => some (.err text)

/-- A unit in one line. -/
def unitLine (u : UnitSummary) : String :=
  let index := Text.padRight 3 (toString u.index)
  let bytes := Text.padLeft 6 (toString u.byteCount)
  let memoryBase := Text.padRight 8 (toString u.memoryBase)
  let tableBase := Text.padRight 5 (toString u.tableBase)
  let exports := " ".intercalate u.exports
  s!"#{index} {bytes} bytes  memory@{memoryBase} table@{tableBase} {u.state.text} {exports}"

/-- The units of a program. -/
def listUnits (units : List UnitSummary) : List Item :=
  if units.isEmpty then [.listed "; no units linked"] else units.map (.listed ∘ unitLine)

/-- The text up to the first line end. -/
def firstLine (text : String) : String :=
  let chars := text.toList
  let line := chars.takeWhile (· != '\n')
  if line.length < chars.length && line.getLast? == some '\r' then String.ofList line.dropLast
  else String.ofList line

/-- A submission, by its number, in one line. -/
def historyLine (entry : HistoryEntry) (number : Nat) : String :=
  let number := Text.padLeft 3 (toString number)
  let marker := if entry.response.isOutput then "=>" else "!!"
  s!"{number}  {firstLine entry.input}  {marker} {entry.response.text}"

/-- Past submissions. -/
def listHistory (history : List HistoryEntry) : List Item :=
  history.zipIdx.map fun (entry, number) => .listed (historyLine entry number)

/-- The sizes of a program. -/
def listMemory (s : Snapshot) : List Item :=
  [.listed (s!"; memory: {s.memory.pages} pages ({s.memory.size} bytes), " ++
    s!"table: {s.tableSize} slots, open groups: {s.groupDepth}")]

end UnitHost.Shell
