import BraceLang.Eval.Fault
import BraceLang.Text.Numeral

/-!
# Literals and operators

What evaluation computes without a context: the value of a numeral, and the value of an operator on
two values. Integers outside of the language's range never come out of either.
-/

set_option autoImplicit false

namespace BraceLang

namespace Eval

/-- The integer that a literal denotes. -/
def literal (text : String) : Except Fault Value :=
  match Text.integer? text with
  | none => .error (.invalidLiteral text)
  | some number =>
    if Value.fits number then .ok (.integer number) else .error (.literalRange text)

/-- The result of an operator on integers, which has to be an integer of the language. -/
def checked (operator : String) (number : Int) : Except Fault Value :=
  if Value.fits number then .ok (.integer number) else .error (.overflow operator)

/-- Division rounding toward zero: the quotient of the magnitudes, negative if the signs differ. -/
def truncatedQuotient (dividend divisor : Int) : Int :=
  let quotient : Int := (dividend.natAbs / divisor.natAbs : Nat)
  if decide (dividend < 0) = decide (divisor < 0) then quotient else -quotient

/-- The truth value that a condition has to be. -/
def condition (label : String) : Value → Except Fault Bool
  | .bool truth => .ok truth
  | value => .error (.conditionType label value.type)

/-- An operator, given by its text, on two values. Texts that are no operator are defined on no
types at all. -/
def combine (text : String) (left right : Value) : Except Fault Value :=
  let undefined := Except.error (.mismatch left.type text right.type)
  match Operator.ofText? text, left, right with
  | some .plus, .integer a, .integer b => checked text (a + b)
  | some .minus, .integer a, .integer b => checked text (a - b)
  | some .times, .integer a, .integer b => checked text (a * b)
  | some .divide, .integer a, .integer b =>
    if b = 0 then .error .divisionByZero else checked text (truncatedQuotient a b)
  | some .equal, .integer a, .integer b => .ok (.bool (decide (a = b)))
  | some .unequal, .integer a, .integer b => .ok (.bool (decide (a ≠ b)))
  | some .both, .bool a, .bool b => .ok (.bool (a && b))
  | some .either, .bool a, .bool b => .ok (.bool (a || b))
  | some .equal, .bool a, .bool b => .ok (.bool (decide (a = b)))
  | some .unequal, .bool a, .bool b => .ok (.bool (decide (a ≠ b)))
  | some .plus, .string a, .string b => .ok (.string (a ++ b))
  | some .equal, .string a, .string b => .ok (.bool (decide (a = b)))
  | some .unequal, .string a, .string b => .ok (.bool (decide (a ≠ b)))
  | _, _, _ => undefined

end Eval

end BraceLang
