import BraceLang.CommandLine

/-!
# The program

The outer layer: it finds the arguments, the variables, the standard input and the files, and writes
what the library says. A session at the terminal reads lines until an entry is complete.
-/

set_option autoImplicit false

namespace BraceLang.Main

/-- Writes to the two channels. -/
def writeOutput (output : Output) : IO Unit := do
  IO.print output.out
  (← IO.getStdout).flush
  IO.eprint output.err

/-- The text of a file, if there is one that can be read. -/
def readNamed (path : String) : IO (Option String) := do
  try
    return some (← IO.FS.readFile path)
  catch _ =>
    return none

/-- Reads the lines of an entry after what has been typed of it. -/
partial def readEntry (buffer : String) : IO (Option String) := do
  let line ← (← IO.getStdin).getLine
  if line.isEmpty then
    return none
  match Prompt.typeInto buffer [(line.dropEndWhile (· == '\n')).toString] with
  | some text => return some text
  | none =>
    IO.print "... "
    (← IO.getStdout).flush
    readEntry (buffer ++ (line.dropEndWhile (· == '\n')).toString ++ Prompt.continuation)

/-- Holds a session until the input ends. -/
partial def converse (session : Prompt.Session) : IO Unit := do
  IO.print ">>> "
  (← IO.getStdout).flush
  match ← readEntry "" with
  | none => writeOutput Prompt.farewell
  | some text =>
    let (next, output) := Prompt.submit session text
    if Prompt.Command.ofLine? (Prompt.normalise text) = some .clear then
      IO.print "\x1b[2J\x1b[H"
    else
      writeOutput output
    converse next

/-- The settings of the variables that matter. -/
def readEnvironment : IO CommandLine.Environment := do
  let names := [CommandLine.traceVariable, CommandLine.listingVariable]
  let settings ← names.mapM fun name =>
    return (← IO.getEnv name).map fun setting => (name, setting)
  return settings.filterMap id

/-- The end of a run as the system wants it: a message goes to the channel for errors. -/
def finish (ending : CommandLine.Completed) : IO UInt32 := do
  writeOutput ending.output
  match ending.exit with
  | .code number => return number.toUInt32
  | .message text =>
    IO.eprintln text
    return 1
  | .unwritable =>
    IO.eprintln "the tree is nested too deeply to be written out"
    return 1

/-- Carries out what the arguments ask for. -/
def perform (arguments : List String) : IO UInt32 := do
  let environment ← readEnvironment
  let trace := CommandLine.flag environment CommandLine.traceVariable
  let listed := CommandLine.flag environment CommandLine.listingVariable
  let terminal ← (← IO.getStdin).isTty
  match CommandLine.Action.ofArguments terminal listed arguments with
  | .converse =>
    writeOutput Prompt.banner
    converse { trace := trace }
    return 0
  | .refuse message => finish ⟨.message message, {}⟩
  | .evaluate listed argument =>
    let standardInput ←
      if argument.all (· == "-") then (← IO.getStdin).readToEnd else pure ""
    let fileText ←
      match argument with
      | some word => readNamed word
      | none => pure none
    match CommandLine.sourceText (fun _ => fileText) standardInput argument with
    | .error message => finish ⟨.message message, {}⟩
    | .ok source => finish (CommandLine.evaluate trace listed source)

end BraceLang.Main

/-- The command. -/
def main (arguments : List String) : IO UInt32 :=
  BraceLang.Main.perform arguments
