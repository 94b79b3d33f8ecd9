import BraceLang.Parser.Fault
import BraceLang.Tree

/-!
# Postfix sequences

An expression is first sorted into a postfix sequence, operands before their operator, and the
sequence is then folded into a tree with a stack. The `Yard` is the state of the sorting: the
sequence so far and the operators that still wait for their right operand, with the loosest at the
bottom.
-/

set_option autoImplicit false

namespace BraceLang

namespace Parser

/-- An item of a postfix sequence. -/
inductive PostfixItem where
  | operand (tree : Tree)
  | operator (token : Token)
  deriving DecidableEq, Repr

/-! ## Folding -/

/-- The stack of trees after a postfix sequence, its top first. The right operand of an operator is
the one on top. -/
def foldOnto : List Tree → List PostfixItem → Except Defect (List Tree)
  | stack, [] => .ok stack
  | stack, .operand tree :: items => foldOnto (tree :: stack) items
  | right :: left :: stack, .operator token :: items =>
    foldOnto (.node token [left, right] :: stack) items
  | _, .operator token :: _ => .error (.underflow token)

/-- The one tree that a postfix sequence denotes. Mistakes are reported at the token `start` with
which the expression begins. -/
def foldPostfix (items : List PostfixItem) (start : Token) : Except Failure Tree :=
  match foldOnto [] items with
  | .error defect => .error (.broken defect)
  | .ok [] => .error (.rejected (.missingExpression start.kind) start)
  | .ok [tree] => .ok tree
  | .ok (_ :: _ :: _) => .error (.rejected .unresolvedExpression start)

/-! ## Sorting -/

/-- An operator that waits for its right operand, with its binding strength. -/
structure Waiting where
  token : Token
  level : Nat
  deriving DecidableEq, Repr

/-- The state of the sorting: the sequence so far, newest item first, the waiting operators, newest
first, and whether an operand has to come next. -/
structure Yard where
  output : List PostfixItem
  waiting : List Waiting
  wantsOperand : Bool
  deriving DecidableEq, Repr

namespace Yard

/-- The state before the first operand. -/
def empty : Yard :=
  ⟨[], [], true⟩

/-- An operand goes straight to the sequence. -/
def operand (yard : Yard) (tree : Tree) : Yard :=
  { yard with output := .operand tree :: yard.output, wantsOperand := false }

/-- The waiting operators that bind at least as strongly as a level move to the sequence, newest
first; gives the sequence and the operators that keep waiting. -/
def release (level : Nat) : List PostfixItem → List Waiting → List PostfixItem × List Waiting
  | output, [] => (output, [])
  | output, top :: waiting =>
    if level ≤ top.level then release level (.operator top.token :: output) waiting
    else (output, top :: waiting)

/-- An operator waits until the operators before it that bind at least as strongly have gone: this
makes operators of one level group to the left. -/
def operator (yard : Yard) (token : Token) (level : Nat) : Yard :=
  let (output, waiting) := release level yard.output yard.waiting
  ⟨output, ⟨token, level⟩ :: waiting, true⟩

/-- The whole sequence, once no operand is missing. -/
def postfixItems (yard : Yard) : List PostfixItem :=
  yard.output.reverse ++ yard.waiting.map fun top => .operator top.token

end Yard

end Parser

end BraceLang
