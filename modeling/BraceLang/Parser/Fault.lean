import BraceLang.Token

/-!
# Why a token list is refused

A `Parser.Fault` is a mistake in the program, always reported together with the token at which it
was found. A `Parser.Defect` is not the program's mistake: token lists made from source text never
cause one, lists and postfix sequences built by hand can.
-/

set_option autoImplicit false

namespace BraceLang

namespace Parser

/-- What the grammar wants at a place where one kind of token is possible. -/
inductive Expectation where
  | ifOpening
  | ifClosing
  | whileOpening
  | whileClosing
  | functionName
  | parametersOpening
  | parameterName
  | parametersClosing
  | groupClosing
  | argumentsClosing
  | stated (message : String)
  deriving DecidableEq, Repr

/-- The wording of an expectation that is not met. -/
def Expectation.message : Expectation → String
  | .ifOpening => "Expected '(' after 'if'"
  | .ifClosing => "Expected ')' after if condition"
  | .whileOpening => "Expected '(' after 'while'"
  | .whileClosing => "Expected ')' after while condition"
  | .functionName => "Expected function name after 'fn'"
  | .parametersOpening => "Expected '(' after function name"
  | .parameterName => "Expected parameter name"
  | .parametersClosing => "Expected ')' after parameters"
  | .groupClosing => "Expected ')' to close group"
  | .argumentsClosing => "Expected ')' after call arguments"
  | .stated message => message

/-- A mistake in a program. -/
inductive Fault where
  | mismatch (wanted found : Kind)
  | unmet (expectation : Expectation)
  | blockOpening (found : Kind)
  | unclosedBlock
  | forLoop
  | unexpectedOperator (text : String)
  | missingOperand (operator : String)
  | missingExpression (found : Kind)
  | unresolvedExpression
  deriving DecidableEq, Repr

/-- The wording of a fault. -/
def Fault.message : Fault → String
  | .mismatch wanted found => "Expected " ++ wanted.name ++ ", got " ++ found.name
  | .unmet expectation => expectation.message
  | .blockOpening found => "Expected '\x7b', got " ++ found.name
  | .unclosedBlock => "Expected '\x7d' before end of input"
  | .forLoop => "for loops are not yet implemented"
  | .unexpectedOperator text => "Unexpected operator '" ++ text ++ "'"
  | .missingOperand operator => "Expected operand after '" ++ operator ++ "'"
  | .missingExpression found => "Expected expression, got " ++ found.name
  | .unresolvedExpression => "Expression failed to resolve to a single expression"

/-- Something that no source text leads to. -/
inductive Defect where
  /-- The token list does not end in `endOfInput`. -/
  | missingEnd
  /-- An operator token whose text is no operator. -/
  | unknownOperator (text : String)
  /-- An operator of a postfix sequence that finds fewer than two operands. -/
  | underflow (operator : Token)
  /-- A repetition that reads nothing. -/
  | stalled
  deriving DecidableEq, Repr

/-- The wording of a defect. -/
def Defect.message : Defect → String
  | .missingEnd => "token stream must end with an EOF token"
  | .unknownOperator text => Text.quote text
  | .underflow operator =>
    "postfix fold underflowed at operator '" ++ operator.text ++ "' (offset "
      ++ toString operator.offset ++ ")"
  | .stalled => "repetition without progress"

/-- Why parsing stopped without a tree. -/
inductive Failure where
  /-- A mistake, found at a token. -/
  | rejected (fault : Fault) (token : Token)
  /-- More nested constructs than the limit allows; `token` is the current one at that depth. -/
  | tooDeep (token : Token)
  | broken (defect : Defect)
  deriving DecidableEq, Repr

end Parser

end BraceLang
