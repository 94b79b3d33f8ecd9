import BraceLang.Context
import BraceLang.Eval.Operation

/-!
# Evaluation

Evaluation of a tree reads and changes a context and gives a value, or halts; the context is kept
when it halts. Every scope that evaluation opens is left again, whether the evaluation inside it
succeeds or not (`inScope`).

As with the grammar, the meaning of a node is given in terms of an evaluator for the nodes inside it
(`node`), and `tree` ties the knot with a bound on the nesting of evaluations. The number of rounds
of a loop has a bound of its own, because a loop that goes on for ever nests nothing.
-/

set_option autoImplicit false

namespace BraceLang

/-- An action on a context. -/
abbrev Eval (α : Type) : Type :=
  EStateM Eval.Halt Context α

namespace Eval

/-! ## Actions -/

/-- Halts with a fault at an offset. -/
def fail {α : Type} (fault : Fault) (offset : Int) : Eval α :=
  throw (.failed ⟨fault, offset⟩)

/-- A computation without a context, whose fault is found at an offset. -/
def located {α : Type} (offset : Int) : Except Fault α → Eval α
  | .ok result => pure result
  | .error fault => fail fault offset

/-- An action inside a new scope, which is left afterwards in every case. -/
def inScope {α : Type} (action : Eval α) : Eval α := fun context =>
  match action context.push with
  | .ok result after =>
    match after.pop? with
    | some restored => .ok result restored
    | none => .error .scopeUnderflow after
  | .error halt after =>
    match after.pop? with
    | some restored => .error halt restored
    | none => .error .scopeUnderflow after

/-! ## Nodes -/

section Rules

variable (inner : Tree → Eval Value)

/-- The value of a variable. -/
def read (name : String) (offset : Int) : Eval Value := do
  match (← get).value? name with
  | some value => return value
  | none => fail (.unsetVariable name) offset

/-- Trees one after the other in the current scope; the value is the last one's, and without any
tree the given one. -/
def sequence (value : Value) : List Tree → Eval Value
  | [] => return value
  | tree :: trees => do
    let next ← inner tree
    sequence next trees

/-- The values of trees, one after the other. -/
def values : List Tree → Eval (List Value)
  | [] => return []
  | tree :: trees => do
    let first ← inner tree
    let rest ← values trees
    return first :: rest

/-- A block. One that opens no scope is the body of a function, whose call has opened one. -/
def block (tree : Tree) : Eval Value :=
  if tree.opensScope then inScope (sequence inner .null tree.children)
  else sequence inner .null tree.children

/-- An assignment binds its name in the innermost scope. -/
def assignment (tree : Tree) : Eval Value :=
  match tree.children with
  | [target, source] =>
    if target.kind = .identifier ∧ target.children.isEmpty then do
      let value ← inner source
      modify (·.setVariable target.text value)
      return .null
    else
      fail .assignmentTarget target.offset
  | children => fail (.childCount tree.kind [2] children.length) tree.offset

/-- An operator. Both operands are evaluated, the left one first, whatever the operator. -/
def operation (tree : Tree) : Eval Value :=
  match tree.children with
  | [first, second] => do
    let left ← inner first
    let right ← inner second
    located tree.offset (combine tree.text left right)
  | children => fail (.childCount tree.kind [2] children.length) tree.offset

/-- The truth of a condition. -/
def test (label : String) (tree : Tree) : Eval Bool := do
  located tree.offset (condition label (← inner tree))

/-- A condition with one or two branches. -/
def conditional (tree : Tree) : Eval Value :=
  match tree.children with
  | [question, positive] => do
    if ← test inner "if" question then inner positive else return .null
  | [question, positive, negative] => do
    if ← test inner "if" question then inner positive else inner negative
  | children => fail (.childCount tree.kind [2, 3] children.length) tree.offset

/-- Rounds of a loop, until its condition is false. -/
def rounds (question body : Tree) : Nat → Eval Value
  | 0 => throw .unfinished
  | bound + 1 => do
    if ← test inner "while" question then
      let _ ← inner body
      rounds question body bound
    else
      return .null

/-- A loop. -/
def loop (bound : Nat) (tree : Tree) : Eval Value :=
  match tree.children with
  | [question, body] => rounds inner question body bound
  | children => fail (.childCount tree.kind [2] children.length) tree.offset

/-- The names of parameters that follow some earlier ones; no name occurs twice. -/
def parameterNames (earlier : List String) : List Tree → Except Error (List String)
  | [] => .ok []
  | parameter :: parameters =>
    if parameter.kind ≠ .identifier then
      .error ⟨.parameterKind parameter.kind, parameter.offset⟩
    else if parameter.text ∈ earlier then
      .error ⟨.duplicateParameter parameter.text, parameter.offset⟩
    else do
      let names ← parameterNames (parameter.text :: earlier) parameters
      return parameter.text :: names

/-- The function that a definition describes: first child the name, last child the body, and the
parameters between them. -/
def routineOf (tree : Tree) : Except Error Routine :=
  match tree.children with
  | [] => .error ⟨.definitionShape, tree.offset⟩
  | name :: rest =>
    match rest.getLast? with
    | none => .error ⟨.definitionShape, tree.offset⟩
    | some body =>
      if name.kind ≠ .identifier then .error ⟨.definitionName, name.offset⟩
      else if body.kind ≠ .block then .error ⟨.definitionBody, body.offset⟩
      else do
        let parameters ← parameterNames [] rest.dropLast
        return ⟨name.text, parameters, body⟩

/-- A definition binds its function in the innermost scope. -/
def definition (tree : Tree) : Eval Value := do
  match routineOf tree with
  | .ok routine =>
    modify (·.setRoutine routine)
    return .null
  | .error error => throw (.failed error)

/-- Runs a function on arguments, in a new scope that binds its parameters. -/
def apply (routine : Routine) (arguments : List Value) (offset : Int) : Eval Value :=
  if arguments.length ≠ routine.parameters.length then
    fail (.arity routine.name routine.parameters.length arguments.length) offset
  else
    inScope do
      modify (·.setVariables (routine.parameters.zip arguments))
      inner routine.body

/-- A call. The function is looked up first, and the arguments are evaluated in the scopes of the
caller. -/
def call (tree : Tree) : Eval Value := do
  match (← get).routine? tree.text with
  | none => fail (.unsetRoutine tree.text) tree.offset
  | some routine =>
    let arguments ← values inner tree.children
    apply inner routine arguments tree.offset

/-- The meaning of a node, by its kind. -/
def node (bound : Nat) (tree : Tree) : Eval Value :=
  match tree.kind with
  | .numeral => located tree.offset (literal tree.text)
  | .string => return .string tree.text
  | .identifier => read tree.text tree.offset
  | .call => call inner tree
  | .operator => operation inner tree
  | .assign => assignment inner tree
  | .ifWord => conditional inner tree
  | .whileWord => loop inner bound tree
  | .fnWord => definition tree
  | .block => block inner tree
  | kind => fail (.unexpectedNode kind) tree.offset

end Rules

/-! ## Trees -/

/-- The meaning of a tree, with a bound on the rounds of each loop and one on the nesting of
evaluations. -/
def tree (bound : Nat) : Nat → Tree → Eval Value
  | 0, _ => throw .tooDeep
  | depth + 1, root => node (tree bound depth) bound root

/-- An action that reports a nesting that is too deep at an offset. -/
def reporting {α : Type} (offset : Int) (action : Eval α) : Eval α := fun context =>
  match action context with
  | .error .tooDeep after => .error (.failed ⟨.recursionLimit, offset⟩) after
  | outcome => outcome

/-- How deeply evaluations may be nested. -/
def depthLimit : Nat := 1000

/-- How many rounds a loop may take. -/
def roundLimit : Nat := 4294967296

/-- A whole tree. -/
def whole (bound depth : Nat) (root : Tree) : Eval Value :=
  reporting root.offset (tree bound depth root)

/-- The statements of a block directly in the current scope; any other tree as a whole. -/
def statements (bound depth : Nat) (root : Tree) : Eval Value :=
  if root.kind = .block then
    reporting root.offset (sequence (tree bound depth) .null root.children)
  else
    whole bound depth root

end Eval

end BraceLang
