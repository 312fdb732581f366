import UnitHost.Shell.Loop

/-!
# The program

The outermost layer: files, the clock and the terminal. It reads only the files that `launch` and
`step` look at, which is enough for both (`launch_congr`, `step_congr`).
-/

namespace UnitHost.Shell

/-- Steps granted to each call into a program. -/
def mainFuel : Nat := 1000000000000000000

/-- Prints an item. -/
def printItem (i : Item) : IO Unit :=
  match i.print? with
  | some (.out text) => IO.println text
  | some (.err text) => IO.eprintln text
  | none => pure ()

/-- What the system says about a file. -/
def faultOf : IO.Error → ReadFault
  | .noFileOrDirectory .. => .notFound
  | .inappropriateType .. => .isDirectory
  | e => .other (toString e)

/-- Reads a file. -/
def readPath (path : String) : IO (Except ReadFault (List UInt8)) := do
  try return .ok (← IO.FS.readBinFile path).toList
  catch e => return .error (faultOf e)

/-- Reads files and gives them by their path. -/
def readPaths (paths : List String) : IO (String → Except ReadFault (List UInt8)) := do
  let found ← paths.mapM fun path => do return (path, ← readPath path)
  return fun path => (found.lookup path).getD (.error .notFound)

/-- Reads the bytes of a line, its end included; those read before are held in reverse. -/
partial def readBytes (input : IO.FS.Stream) (line : List UInt8) : IO (List UInt8) := do
  match (← input.read 1).toList with
  | [] => return line.reverse
  | b :: _ => if b == 10 then return (b :: line).reverse else readBytes input (b :: line)

/-- Reads a line; `none` at the end of the input. A terminal is prompted. -/
def readLine (input : IO.FS.Stream) (prompt : String) : IO (Option (Option String)) := do
  if ← input.isTty then
    IO.print prompt
    (← IO.getStdout).flush
  return (linesOf (← readBytes input [])).head?

/-- Shows how a run ended. -/
def endWith (ending : Ending) : IO UInt32 := do
  ending.items.forM printItem
  return UInt32.ofNat ending.exitCode

/-- Takes one line after the other until the end of the input. -/
partial def interact (quiet : Bool) (began : Nat) (input : IO.FS.Stream) (h : Handle)
    (block : String) : IO UInt32 := do
  match ← readLine input (if block.isEmpty then "wasm> " else "  ... ") with
  | none => endWith (.ofRun [] none)
  | some text =>
    let time := (← IO.monoNanosNow) - began
    let line := text.map ({ text := ·, time })
    let read ← readPaths (wanted? block line).toList
    match step mainFuel read quiet h block line with
    | none => return 1
    | some (items, .continues h block) =>
      items.forM printItem
      interact quiet began input h block
    | some (items, .ends fault) => endWith (.ofRun items fault)

/-- Sets the session up and runs it. -/
def runMain (args : List String) : IO UInt32 := do
  let read ← readPaths (pathsOf args)
  let began ← IO.monoNanosNow
  match launch mainFuel read args with
  | none => return 1
  | some (.error ending) => endWith ending
  | some (.ok (quiet, h)) => interact quiet began (← IO.getStdin) h ""

end UnitHost.Shell

/-- The program. -/
def main (args : List String) : IO UInt32 := UnitHost.Shell.runMain args
