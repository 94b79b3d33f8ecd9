import BraceLang.Diagnostic
import BraceLang.Lexer.Scanner
import BraceLang.Parser.Fault
import BraceLang.Eval.Fault

/-!
# Failures

A program fails while it is read, parsed or evaluated. `Failure.diagnostic` is what each failure
tells its user.
-/

set_option autoImplicit false

namespace BraceLang

/-- Why a program gave no value. -/
inductive Failure where
  | reading (failure : Lexer.Failure)
  | parsing (failure : Parser.Failure)
  | evaluating (halt : Eval.Halt)
  deriving DecidableEq, Repr

/-- The category of a fault of evaluation. -/
def Eval.Fault.category : Eval.Fault → Category
  | .unsetVariable _ | .unsetRoutine _ => .name
  | .mismatch _ _ _ | .conditionType _ _ => .type
  | .arity _ _ _ => .arity
  | .divisionByZero => .zeroDivision
  | .overflow _ => .overflow
  | .invalidLiteral _ | .literalRange _ => .value
  | .duplicateParameter _ | .recursionLimit | .childCount _ _ _ | .assignmentTarget
  | .definitionShape | .definitionName | .definitionBody | .parameterKind _
  | .unexpectedNode _ => .runtime

/-- What is reported when a text cannot be read. -/
def Lexer.Failure.diagnostic (failure : Lexer.Failure) : Diagnostic :=
  ⟨.lexical, failure.fault.message, some failure.offset, none, none⟩

/-- What is reported when a token list cannot be parsed. -/
def Parser.Failure.diagnostic : Parser.Failure → Diagnostic
  | .rejected fault token => ⟨.syntactic, fault.message, some token.offset, none, some token⟩
  | .tooDeep token =>
    ⟨.syntactic, "Maximum nesting depth exceeded", some token.offset, none, some token⟩
  | .broken defect => ⟨.internal, defect.message, none, none, none⟩

/-- What is reported of a fault of evaluation, at an offset if one is known. -/
def Eval.Fault.diagnostic (fault : Eval.Fault) (offset : Option Int) : Diagnostic :=
  ⟨fault.category, fault.message, offset, fault.missingName?, none⟩

/-- What is reported when evaluation halts. -/
def Eval.Halt.diagnostic : Eval.Halt → Diagnostic
  | .failed error => error.fault.diagnostic (some error.offset)
  | .tooDeep => Eval.Fault.recursionLimit.diagnostic none
  | .unfinished => ⟨.internal, "Loop did not finish", none, none, none⟩
  | .scopeUnderflow => ⟨.internal, "Cannot pop the global scope", none, none, none⟩

/-- What is reported of a failure. -/
def Failure.diagnostic : Failure → Diagnostic
  | .reading failure => failure.diagnostic
  | .parsing failure => failure.diagnostic
  | .evaluating halt => halt.diagnostic

end BraceLang
