import BraceLang.Prompt.Session
import BraceLang.Text.Lines

/-!
# The command line

The arguments say what to do (`Action.ofArguments`): hold a session at the prompt, run a program
with or without a listing, or refuse. A program is the contents of the file that an argument names,
or else the argument itself, or without an argument the standard input.
-/

set_option autoImplicit false

namespace BraceLang

namespace CommandLine

/-! ## Surroundings -/

/-- The variable that asks for traces. -/
def traceVariable : String := "RILL_DEBUG_PY_TRACE"

/-- The variable that asks for listings. -/
def listingVariable : String := "RILL_DEBUG_DUMP"

/-- Whether the setting of a variable means yes. -/
def isTruthy (setting : String) : Bool :=
  match Text.lower (Text.trim setting) with
  | "1" | "true" | "yes" | "on" => true
  | _ => false

/-- Settings of variables; a later setting of a variable replaces an earlier one. -/
abbrev Environment := List (String × String)

/-- Whether a variable is set to something that means yes. -/
def flag (environment : Environment) (variableName : String) : Bool :=
  ((environment.reverse.lookup variableName).map isTruthy).getD false

/-- Files by name, in one directory. -/
abbrev Directory := List (String × String)

/-- The parts of a path that matter: empty parts and dots stand for the directory itself. -/
def pathParts (path : String) : List (List Char) :=
  (Text.splitAt '/' path.toList).filter fun part => !part.isEmpty && part != ['.']

/-- The text of the file that a relative path names. -/
def file? (directory : Directory) (path : String) : Option String :=
  let parts := pathParts path
  if Prompt.startsWithSlash path || parts.isEmpty then none
  else (directory.reverse.find? fun entry => pathParts entry.1 == parts).map Prod.snd

/-! ## Arguments -/

/-- What the arguments ask for. -/
inductive Action where
  | converse
  | evaluate (listed : Bool) (argument : Option String)
  | refuse (message : String)
  deriving DecidableEq, Repr

/-- The action for the arguments after some that gave a program or asked for a listing. -/
def Action.ofLaterArguments (terminal listed : Bool) (argument : Option String) :
    List String → Action
  | [] => if argument.isNone && terminal then .converse else .evaluate listed argument
  | word :: words =>
    if word = "--dump" then ofLaterArguments terminal true argument words
    else if word = "--repl" then .converse
    else
      match argument with
      | none => ofLaterArguments terminal listed (some word) words
      | some _ => .refuse ("Unexpected argument: " ++ word)

/-- The action for a list of arguments. Without a program, a terminal gets a session. -/
def Action.ofArguments (terminal listed : Bool) (arguments : List String) : Action :=
  ofLaterArguments terminal listed none arguments

/-- The program text for an argument, or why there is none. -/
def sourceText (fileText? : String → Option String) (standardInput : String)
    (argument : Option String) : Except String String :=
  let fromInput :=
    if standardInput.isEmpty then .error "No input provided on stdin"
    else .ok (Text.unifyNewlines standardInput)
  match argument with
  | none => fromInput
  | some "-" => fromInput
  | some word => .ok (((fileText? word).map Text.unifyNewlines).getD word)

/-! ## Carrying out -/

/-- How a run of the command ends: with a code, with a message, or with an error that nothing
handles, because a tree cannot be written out. -/
inductive Exit where
  | code (number : Nat)
  | message (text : String)
  | unwritable
  deriving DecidableEq, Repr

/-- The end of a run of the command and all that it wrote. -/
structure Completed where
  exit : Exit
  output : Output
  deriving DecidableEq, Repr

/-- The end of a run that gave the result of a program. -/
def completed (trace : Bool) (result : Except Failure Value) : Completed :=
  ⟨.code (match result with | .ok _ => 0 | .error _ => 1), Prompt.resultOutput trace result⟩

/-- Runs a program; its listing goes to the channel for errors. -/
def evaluate (trace listed : Bool) (source : String) : Completed :=
  if listed then
    let run := runListed source
    let ending : Completed :=
      match run.result with
      | .ok value => completed trace (.ok value)
      | .error (.program failure) => completed trace (.error failure)
      | .error .unwritable => ⟨.unwritable, {}⟩
    { ending with output := ⟨"", run.written⟩ ++ ending.output }
  else
    completed trace (run source .fresh).result

/-- What the command finds around it. -/
structure Surroundings where
  standardInput : String := ""
  terminal : Bool := false
  fileText? : String → Option String := fun _ => none
  environment : Environment := []
  entries : List Prompt.Entry := []

/-- Carries out what the arguments ask for. -/
def perform (around : Surroundings) (arguments : List String) : Completed :=
  let trace := flag around.environment traceVariable
  match Action.ofArguments around.terminal (flag around.environment listingVariable) arguments with
  | .converse => ⟨.code 0, Prompt.transcript { trace := trace } around.entries⟩
  | .refuse message => ⟨.message message, {}⟩
  | .evaluate listed argument =>
    match sourceText around.fileText? around.standardInput argument with
    | .error message => ⟨.message message, {}⟩
    | .ok source => evaluate trace listed source

/-! ## Listing tokens and trees only -/

/-- The tokens of the standard input, one a line. -/
def printTokens (standardInput : String) : Except Failure Completed := do
  let tokens ← tokensOf (Text.unifyNewlines standardInput)
  return ⟨.code 0, .concat (tokens.map fun token => .line token.listing)⟩

/-- The outline of the standard input and an empty line. -/
def printTree (standardInput : String) : Completed :=
  match treeOf (Text.unifyNewlines standardInput) with
  | .ok tree =>
    match tree.outline? with
    | some outline => ⟨.code 0, .line outline⟩
    | none => ⟨.unwritable, {}⟩
  | .error failure => ⟨.code 1, ⟨"", failure.diagnostic.reportLine⟩⟩

end CommandLine

end BraceLang
