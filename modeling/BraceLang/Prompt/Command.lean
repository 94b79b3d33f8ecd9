import BraceLang.Context
import BraceLang.Output
import BraceLang.Prompt.Continuation

/-!
# Commands at the prompt

Lines that begin with a slash are commands: they show or change what a session remembers, that is, a
context and whether failures are reported with a trace. A line that begins with a slash is always a
command, if only an unknown one. What has been typed of a command can be completed.
-/

set_option autoImplicit false

namespace BraceLang

namespace Prompt

/-- What a session remembers between entries. -/
structure Session where
  context : Context := .fresh
  trace : Bool := false

/-! ## Commands -/

/-- What is asked for the trace. -/
inductive Setting where
  | on
  | off
  | toggle
  | unclear
  deriving DecidableEq, Repr

/-- The setting that an argument asks for. -/
def Setting.ofArgument (argument : String) : Setting :=
  match Text.lower argument with
  | "on" | "1" | "true" | "yes" => .on
  | "off" | "0" | "false" | "no" => .off
  | "" => .toggle
  | _ => .unclear

/-- A command at the prompt. -/
inductive Command where
  | clear
  | bindings
  | trace (setting : Setting)
  | reset
  | unknown (word : String)
  deriving DecidableEq, Repr

/-- The command that a line gives, if it begins with a slash, blanks aside. -/
def Command.ofLine? (line : String) : Option Command :=
  let trimmed := Text.trim line
  if startsWithSlash trimmed then
    let (word, argument) := Text.headWord trimmed
    match word with
    | "/clear" => some .clear
    | "/context" => some .bindings
    | "/py-traceback" => some (.trace (.ofArgument argument))
    | "/reset" => some .reset
    | _ => some (.unknown word)
  else
    none

/-- What stands in a transcript for clearing the screen. -/
def clearMark : String :=
  "<clear>"

/-- What the trace is after a setting; no change if the setting is not clear. -/
def Setting.apply (trace : Bool) : Setting → Bool
  | .on => true
  | .off => false
  | .toggle => !trace
  | .unclear => trace

/-- Carries out a command. -/
def Command.perform (session : Session) : Command → Session × Output
  | .clear => (session, .line clearMark)
  | .bindings => (session, .line session.context.listing)
  | .trace .unclear => (session, .errorLine "Usage: /py-traceback [on|off]")
  | .trace setting =>
    let trace := setting.apply session.trace
    ({ session with trace := trace },
      .line ("Python traceback: " ++ if trace then "on" else "off"))
  | .reset => ({ session with context := .fresh }, .line "Environment reset.")
  | .unknown word => (session, .errorLine ("Unknown command: " ++ word))

/-! ## Completion -/

/-- The commands with their descriptions, in the order in which they are offered. -/
def commandTable : List (String × String) :=
  [("/clear", "Clear the terminal screen"),
    ("/context", "Show the current bindings"),
    ("/py-traceback", "Toggle Python traceback on errors"),
    ("/reset", "Reset the REPL environment")]

/-- A completion: the text, where it begins relative to the cursor, and its description. -/
structure Completion where
  text : String
  start : Int
  description : String
  deriving DecidableEq, Repr

/-- The completions of the text before the cursor. -/
def completions (before : String) : List Completion :=
  if startsWithSlash before then
    (commandTable.filter fun entry => before.toList.isPrefixOf entry.1.toList).map fun entry =>
      ⟨entry.1, -(before.length : Int), entry.2⟩
  else
    []

end Prompt

end BraceLang
