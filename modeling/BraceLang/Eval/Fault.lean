import BraceLang.Token
import BraceLang.Value

/-!
# Why evaluation stops

A fault of evaluation is found at a node and reported with that node's offset. Some faults can only
arise from trees that the parser does not build.

Evaluation can also halt without a fault of its own: it is nested too deeply, a loop did not finish
within its bound, or a scope that was opened is no longer there to be left.
-/

set_option autoImplicit false

namespace BraceLang

namespace Eval

/-- What is wrong at a node. -/
inductive Fault where
  /-- A variable that is bound in no scope. -/
  | unsetVariable (name : String)
  /-- A function that is bound in no scope. -/
  | unsetRoutine (name : String)
  /-- An operator that is not defined on the types of its operands. -/
  | mismatch (left : ValueType) (operator : String) (right : ValueType)
  /-- A condition that is not a truth value. -/
  | conditionType (label : String) (found : ValueType)
  /-- A call with the wrong number of arguments. -/
  | arity (name : String) (wanted found : Nat)
  | divisionByZero
  /-- A result that is no integer of the language. -/
  | overflow (operator : String)
  /-- A literal that is no numeral. -/
  | invalidLiteral (text : String)
  /-- A literal that denotes no integer of the language. -/
  | literalRange (text : String)
  | duplicateParameter (name : String)
  /-- Evaluations nested more deeply than the limit. -/
  | recursionLimit
  /-- A node with a number of children that its kind does not have. -/
  | childCount (kind : Kind) (wanted : List Nat) (found : Nat)
  | assignmentTarget
  | definitionShape
  | definitionName
  | definitionBody
  | parameterKind (kind : Kind)
  /-- A node of a kind that has no meaning of its own. -/
  | unexpectedNode (kind : Kind)
  deriving DecidableEq, Repr

/-- The wording of a fault. -/
def Fault.message : Fault → String
  | .unsetVariable name => "Attempted to access unset identifier '" ++ name ++ "'"
  | .unsetRoutine name => "Attempted to call unset function '" ++ name ++ "'"
  | .mismatch left operator right =>
    "Type mismatch: " ++ left.name ++ " " ++ operator ++ " " ++ right.name ++ " is not supported"
  | .conditionType label found => label ++ " condition must be BOOL, got " ++ found.name
  | .arity name wanted found =>
    "Function '" ++ name ++ "' expects " ++ toString wanted ++ " args; got " ++ toString found
  | .divisionByZero => "Division by zero"
  | .overflow operator => "Integer overflow in '" ++ operator ++ "'"
  | .invalidLiteral text => "Invalid integer literal '" ++ text ++ "'"
  | .literalRange text => "Integer literal '" ++ text ++ "' does not fit in 32 bits"
  | .duplicateParameter name => "Duplicate parameter '" ++ name ++ "'"
  | .recursionLimit => "Maximum recursion depth exceeded"
  | .childCount kind wanted found =>
    "Malformed " ++ kind.name ++ " node: expected " ++ " or ".intercalate (wanted.map toString)
      ++ " children, got " ++ toString found
  | .assignmentTarget => "Assignment target must be an identifier"
  | .definitionShape => "Malformed function definition"
  | .definitionName => "Function name must be an identifier"
  | .definitionBody => "Function body must be a block"
  | .parameterKind kind => "Unsupported parameter node " ++ kind.name
  | .unexpectedNode kind => "Unexpected " ++ kind.name ++ " node"

/-- The name that a fault is about, for faults about a name that is not bound. -/
def Fault.missingName? : Fault → Option String
  | .unsetVariable name => some name
  | .unsetRoutine name => some name
  | _ => none

/-- A fault at an offset. -/
structure Error where
  fault : Fault
  offset : Int
  deriving DecidableEq, Repr

/-- Why evaluation stopped without a value. -/
inductive Halt where
  | failed (error : Error)
  /-- Evaluations nested more deeply than the limit. -/
  | tooDeep
  /-- A loop that did not end within its bound. -/
  | unfinished
  /-- The global scope would have to be left. -/
  | scopeUnderflow
  deriving DecidableEq, Repr

end Eval

end BraceLang
