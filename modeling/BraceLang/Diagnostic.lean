import BraceLang.Token

/-!
# Diagnostics

What a user is told about a failure: its category, which also tells the stage of processing, a
message, and where known the offset, the name that is missing and the token that was refused.
-/

set_option autoImplicit false

namespace BraceLang

/-- The categories of failures. -/
inductive Category where
  | lexical
  | syntactic
  | general
  | runtime
  | name
  | type
  | arity
  | zeroDivision
  | overflow
  | value
  /-- A failure that no program can cause. -/
  | internal
  deriving DecidableEq, Repr

/-- The stage of processing that a category belongs to. -/
def Category.stage : Category → String
  | .lexical => "lex"
  | .syntactic => "parse"
  | .general => "rill"
  | .runtime | .name | .type | .arity | .zeroDivision | .overflow | .value => "eval"
  | .internal => "internal"

/-- Whether a category belongs to evaluation. -/
def Category.ofEvaluation : Category → Bool
  | .runtime | .name | .type | .arity | .zeroDivision | .overflow | .value => true
  | .lexical | .syntactic | .general | .internal => false

/-- A failure as it is reported. -/
structure Diagnostic where
  category : Category
  message : String
  offset : Option Int := none
  missingName : Option String := none
  token : Option Token := none
  deriving DecidableEq, Repr

namespace Diagnostic

/-- The message, with the offset if there is one. -/
def text (diagnostic : Diagnostic) : String :=
  match diagnostic.offset with
  | none => diagnostic.message
  | some offset => diagnostic.message ++ " (offset " ++ toString offset ++ ")"

/-- A failure of evaluation without an offset takes that of the node it came from. -/
def locate (diagnostic : Diagnostic) (offset : Int) : Diagnostic :=
  if diagnostic.category.ofEvaluation then
    { diagnostic with offset := some (diagnostic.offset.getD offset) }
  else
    diagnostic

/-- The heading of the part of a report that tells where in the interpreter a failure arose. -/
def traceHeading : String :=
  "\nPython traceback:\n"

/-- The line of a report. -/
def reportLine (diagnostic : Diagnostic) : String :=
  diagnostic.category.stage ++ " error: " ++ diagnostic.text ++ "\n"

/-- The report of a failure, with a trace if one is wanted. -/
def report (diagnostic : Diagnostic) (trace : Bool) : String :=
  diagnostic.reportLine ++ if trace then traceHeading else ""

end Diagnostic

end BraceLang
