import UnitHost.Text.Blank

/-!
# Commands

Inputs that begin with a colon are commands to the shell itself.
-/

namespace UnitHost.Shell

/-- A command. -/
inductive Command where
  /-- List the units. -/
  | units
  /-- List past submissions. -/
  | history
  /-- Show the sizes of memory and table. -/
  | memory
  /-- Submit a file. -/
  | load (path : String)
  | quit
  | unknown (name : String)
  deriving DecidableEq, Repr

/-- The command of a name and the words after it. -/
def Command.ofWords : List String → Command
  | [] => .unknown ""
  | name :: args =>
    match name, args with
    | "units", _ | "u", _ => .units
    | "history", _ | "h", _ => .history
    | "memory", _ | "m", _ => .memory
    | "quit", _ | "q", _ => .quit
    | "load", path :: _ | "l", path :: _ => .load path
    | "load", [] | "l", [] => .unknown "load needs a path"
    | name, _ => .unknown name

/-- The command an input gives, if it begins with a colon. -/
def Command.ofInput? (input : String) : Option Command :=
  match input.toList with
  | ':' :: rest => some (.ofWords (Text.words (String.ofList rest)))
  | _ => none

end UnitHost.Shell
