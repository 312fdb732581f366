import UnitHost.Replicator
import UnitHost.Shell.Arguments
import UnitHost.Shell.Balance
import UnitHost.Shell.Command
import UnitHost.Shell.Files
import UnitHost.Shell.Report
import UnitHost.Toml.Document

/-!
# The shell

Reads lines until an input is complete, hands it to one session, and prints what comes of it. The
shell knows files only through the `read` it is given, and the time only through its lines.
-/

namespace UnitHost.Shell

/-- Why the program ends early. -/
inductive ShellFault where
  | baseNotReadable (path : String) (fault : ReadFault)
  | configInvalid
  | configNotReadable (fault : ReadFault)
  | editor (text : String)
  | session (failure : Failure)
  deriving DecidableEq, Repr

namespace ShellFault

/-- The fault in words. -/
def message : ShellFault → String
  | baseNotReadable path fault => s!"Base form not readable: {path}: {fault.message}"
  | configInvalid => "Config parse error: " ++ unreadableText
  | configNotReadable fault => "IO error: " ++ fault.message
  | editor text => "Line editor error: " ++ text
  | session failure => failure.message

/-- The exit code: two if nothing could be set up, one if the session failed. -/
def exitCode : ShellFault → Nat
  | baseNotReadable .. | configInvalid | configNotReadable _ => 2
  | editor _ | session _ => 1

end ShellFault

/-- Reads a configuration file; without one the defaults hold. -/
def loadConfig (read : String → Except ReadFault (List UInt8)) (path : Option String) :
    Except ShellFault Config :=
  match path with
  | none => .ok {}
  | some path =>
    match (read path).bind textOf with
    | .error fault => .error (.configNotReadable fault)
    | .ok text =>
      match (Toml.parse? text).bind Config.ofTable? with
      | some config => .ok config
      | none => .error .configInvalid

/-- A complete input. -/
inductive Input where
  | blank
  | command (c : Command)
  | text (text : String)
  deriving DecidableEq, Repr

/-- The input of a balanced block of lines. -/
def Input.ofBlock (block : String) : Input :=
  let text := Text.trim block
  if text.isEmpty then .blank
  else match Command.ofInput? text with
    | some c => .command c
    | none => .text text

/-- Adds a line to the block begun; a balanced block is an input, and the next block begins. -/
def addLine (block line : String) : String × Option Input :=
  let block := block ++ line ++ "\n"
  if isBalanced block then ("", some (.ofBlock block)) else (block, none)

/-- The file that an input asks for. -/
def Input.path? : Input → Option String
  | .command (.load path) => some path
  | _ => none

/-- A line that was read, and when: nanoseconds since the session began. -/
structure Line where
  text : String
  time : Nat := 0
  deriving DecidableEq, Repr

/-- What becomes of the shell: it reads on after the block begun, or it ends. -/
inductive Turn where
  | continues (h : Handle) (block : String := "")
  | ends (fault : Option ShellFault := none)

section Turns

variable (fuel : Nat) (read : String → Except ReadFault (List UInt8)) (quiet : Bool)

/-- Submits a text and shows the console entries, unless quiet, and then the response. -/
def submit (time : Nat) (h : Handle) (text : String) : Option (List Item × Turn) := do
  match ← (h.atTime time).submit fuel text with
  | (.error failure, _) => some ([], .ends (some (.session failure)))
  | (.ok response, h) =>
    if quiet then some ([.response response], .continues h)
    else
      match h.drainConsole with
      | (.ok events, h) =>
        some (events.toList.map .event ++ [.response response], .continues h)
      | (.error failure, _) => some ([], .ends (some (.session failure)))

/-- Shows what a command asks for. -/
def list (h : Handle) (c : Command) : Except Failure (List Item) :=
  match c with
  | .units => h.snapshot.map fun s => listUnits s.units
  | .history => h.history.map listHistory
  | .memory => h.snapshot.map listMemory
  | .unknown name => .ok [.refused s!"; unknown command :{name}"]
  | .load _ | .quit => .ok []

/-- Handles one input. -/
def handle (time : Nat) (h : Handle) (input : Input) : Option (List Item × Turn) :=
  match input with
  | .blank => some ([], .continues h)
  | .text text => submit fuel quiet time h text
  | .command .quit => some ([], .ends)
  | .command (.load path) =>
    match (read path).bind textOf with
    | .ok text => submit fuel quiet time h text
    | .error fault => some ([.refused s!"; cannot read {path}: {fault.message}"], .continues h)
  | .command c =>
    match list h c with
    | .ok items => some (items, .continues h)
    | .error failure => some ([], .ends (some (.session failure)))

/-- The file that is asked for once a line is added to the block begun. -/
def wanted? (block : String) (line : Option Line) : Option String :=
  line.bind fun line => (addLine block line.text).2.bind Input.path?

/-- Takes the next line; `none` stands for one that is not text. -/
def step (h : Handle) (block : String) : Option Line → Option (List Item × Turn)
  | none => some ([], .ends (some (.editor ReadFault.notText.message)))
  | some line =>
    match addLine block line.text with
    | (block, none) => some ([], .continues h block)
    | (_, some input) => handle fuel read quiet line.time h input

/-- Runs over lines to their end. -/
def loop (h : Handle) (block : String) :
    List (Option Line) → Option (List Item × Option ShellFault)
  | [] => some ([], none)
  | line :: rest => do
    match ← step fuel read quiet h block line with
    | (items, .continues h block) =>
      let (more, fault) ← loop h block rest
      some (items ++ more, fault)
    | (items, .ends fault) => some (items, fault)

end Turns

section Files

variable {fuel : Nat} {read read' : String → Except ReadFault (List UInt8)} {quiet : Bool}
  {h : Handle}

theorem handle_congr {input : Input} (same : ∀ path ∈ input.path?, read path = read' path)
    (time : Nat) : handle fuel read quiet time h input = handle fuel read' quiet time h input := by
  cases input with
  | command c =>
    cases c with
    | load path =>
      unfold handle
      dsimp only
      rw [same path rfl]
    | _ => rfl
  | _ => rfl

/-- A line is taken alike if the file it asks for is, whatever the others. -/
theorem step_congr {block : String} {line : Option Line}
    (same : ∀ path ∈ wanted? block line, read path = read' path) :
    step fuel read quiet h block line = step fuel read' quiet h block line := by
  cases line with
  | none => rfl
  | some line =>
    unfold step
    dsimp only
    have asked : wanted? block (some line) = (addLine block line.text).2.bind Input.path? := rfl
    rw [asked] at same
    generalize addLine block line.text = added at same ⊢
    obtain ⟨begun, _ | input⟩ := added
    · rfl
    · exact handle_congr same line.time

end Files

/-- The configuration and the base the arguments name. -/
def setUp (read : String → Except ReadFault (List UInt8)) (a : Arguments) :
    Except ShellFault (Config × List UInt8) := do
  let config ← loadConfig read a.config
  match read a.base with
  | .ok bytes => .ok (a.override config, bytes)
  | .error fault => .error (.baseNotReadable a.base fault)

/-- Starts the session the shell talks to. -/
def start (fuel : Nat) (config : Config) (base : List UInt8) : Option (Except ShellFault Handle) :=
  match Replicator.new config base with
  | .error failure => some (.error (.session failure))
  | .ok r => (r.spawn fuel).map fun (_, h, _) =>
    match h.loadError? with
    | some failure => .error (.session failure)
    | none => .ok h

/-- The lines of an input stream; `none` stands for one that is not text. A line ends in a newline,
before which a carriage return is dropped; the last may lack it. -/
def linesOf (bytes : List UInt8) : List (Option String) :=
  go [] bytes
where
  /-- Reads on after part of a line, held in reverse. -/
  go (line : List UInt8) : List UInt8 → List (Option String)
    | [] => if line.isEmpty then [] else [Text.Utf8.decode? line.reverse]
    | b :: rest =>
      if b == 10 then
        let line := if line.head? == some 13 then line.tail else line
        Text.Utf8.decode? line.reverse :: go [] rest
      else go (b :: line) rest

/-- The name and version of the program. -/
def versionLine : String := "wasmrepl 0.1.0"

/-- How the program is called. -/
def usageLine : String :=
  "Usage: wasmrepl [--config <CONFIG>] [--max-memory-pages <N>] [--max-table-size <N>] [-q] <BASE>"

/-- An argument fault in words. -/
def ArgumentFault.message : ArgumentFault → String
  | missingRequired => "error: the base is missing"
  | unknown => "error: unexpected argument"
  | invalidValue => "error: a value is missing"
  | badNumber => "error: a value is not a number in range"
  | conflict => "error: an argument is given twice"
  | tooManyValues => "error: a flag takes no value"
  | help => usageLine
  | version => versionLine

/-- How a run ended: what it showed, and the exit code. -/
structure Ending where
  items : List Item := []
  exitCode : Nat := 0
  deriving Repr

/-- The ending with a fault. -/
def Ending.ofFault (items : List Item) (fault : ShellFault) : Ending :=
  { items := items ++ [.refused ("error: " ++ fault.message)], exitCode := fault.exitCode }

/-- The ending without a run: help and version are no faults. -/
def Ending.ofArguments : ArgumentFault → Ending
  | .help => { items := [.listed ArgumentFault.help.message] }
  | .version => { items := [.listed ArgumentFault.version.message] }
  | fault => { items := [.refused fault.message], exitCode := 2 }

/-- The ending of a run over lines. -/
def Ending.ofRun (items : List Item) : Option ShellFault → Ending
  | none => { items }
  | some fault => ofFault items fault

/-- The files that arguments name. -/
def pathsOf (args : List String) : List String :=
  match Arguments.parse args with
  | .ok a => a.base :: a.config.toList
  | .error _ => []

/-- What is done before the first line: the program ends already, or it has started a session and
knows if it is quiet. -/
def launch (fuel : Nat) (read : String → Except ReadFault (List UInt8)) (args : List String) :
    Option (Except Ending (Bool × Handle)) :=
  match Arguments.parse args with
  | .error fault => some (.error (.ofArguments fault))
  | .ok a =>
    match setUp read a with
    | .error fault => some (.error (.ofFault [] fault))
    | .ok (config, base) => (start fuel config base).map fun started =>
      match started with
      | .error fault => .error (.ofFault [] fault)
      | .ok h => .ok (a.quiet, h)

/-- The program starts alike if the files are that its arguments name, whatever the others. -/
theorem launch_congr {read read' : String → Except ReadFault (List UInt8)} {args : List String}
    (same : ∀ path ∈ pathsOf args, read path = read' path) (fuel : Nat) :
    launch fuel read args = launch fuel read' args := by
  unfold launch
  unfold pathsOf at same
  generalize Arguments.parse args = parsed at same ⊢
  cases parsed with
  | error fault => rfl
  | ok a =>
    have base : read a.base = read' a.base := same _ List.mem_cons_self
    have config : loadConfig read a.config = loadConfig read' a.config := by
      unfold loadConfig
      cases named : a.config with
      | none => rfl
      | some path =>
        dsimp only
        rw [same path (by simp [named])]
    have files : setUp read a = setUp read' a := by
      unfold setUp
      rw [base, config]
    dsimp only
    rw [files]

/-- The whole program: arguments, files, input and the times at which its lines are read, to what
it shows. -/
def run (fuel : Nat) (read : String → Except ReadFault (List UInt8)) (args : List String)
    (input : List UInt8) (times : Nat → Nat := fun _ => 0) : Option Ending := do
  match ← launch fuel read args with
  | .error ending => some ending
  | .ok (quiet, h) =>
    let lines := (linesOf input).zipIdx.map fun (text, i) =>
      text.map ({ text := ·, time := times i })
    let (items, fault) ← loop fuel read quiet h "" lines
    some (.ofRun items fault)

end UnitHost.Shell
