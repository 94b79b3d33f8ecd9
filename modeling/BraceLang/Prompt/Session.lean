import BraceLang.Program
import BraceLang.Prompt.Command

/-!
# Sessions at the prompt

A session takes entries one after the other. Characters that cannot be seen are taken out of an
entry first; what remains is blank, a command, or a program whose bindings stay in the context of
the session.
-/

set_option autoImplicit false

namespace BraceLang

namespace Prompt

/-! ## Entries -/

/-- The characters that are taken out of entries: three of zero width, the byte order mark, the
no-break space and the carriage return. -/
def isInvisible (c : Char) : Bool :=
  c == '\u200b' || c == '\u200c' || c == '\u200d' || c == '\ufeff' || c == '\u00a0' || c == '\r'

/-- An entry without its invisible characters. -/
def normalise (text : String) : String :=
  String.ofList (text.toList.filter fun c => !isInvisible c)

/-- What the prompt gives. -/
inductive Entry where
  /-- A submitted text. -/
  | submitted (text : String)
  /-- Pieces of text with the enter key after each of them. -/
  | typed (pieces : List String)
  /-- The interrupt key. -/
  | interrupted
  deriving DecidableEq, Repr

/-- The text that an entry submits. -/
def Entry.text? : Entry → Option String
  | .submitted text => some text
  | .typed pieces => typeInto "" pieces
  | .interrupted => none

/-- What is written for the result of a program: nothing for the null value. -/
def resultOutput (trace : Bool) : Except Failure Value → Output
  | .ok .null => {}
  | .ok value => .line value.render
  | .error failure => ⟨"", failure.diagnostic.report trace⟩

/-- Evaluates a program in a session. -/
def evaluate (session : Session) (source : String) : Session × Output :=
  let outcome := enter source session.context
  ({ session with context := outcome.context }, resultOutput session.trace outcome.result)

/-- Takes a submitted text, which may be blank, a command or a program. -/
def submit (session : Session) (text : String) : Session × Output :=
  let source := normalise text
  if Text.allBlank source then (session, {})
  else
    match Command.ofLine? source with
    | some command => command.perform session
    | none => evaluate session source

/-- Takes an entry. -/
def take (session : Session) (entry : Entry) : Session × Output :=
  match entry.text? with
  | some text => submit session text
  | none => (session, .line "KeyboardInterrupt")

/-- What is written before the first entry. -/
def banner : Output :=
  .line "rill repl - Ctrl-D to exit, / for commands"

/-- What is written when the input ends. -/
def farewell : Output :=
  .line ""

/-- What is written for each of a list of entries. -/
def outputs (session : Session) : List Entry → List Output
  | [] => []
  | entry :: entries =>
    let (next, output) := take session entry
    output :: outputs next entries

/-- All that is written from the banner to the end of the input. -/
def transcript (session : Session) (entries : List Entry) : Output :=
  .concat (banner :: outputs session entries ++ [farewell])

end Prompt

end BraceLang
