import BraceLang.Parser.Basic
import BraceLang.Parser.Postfix

/-!
# The grammar

A program is a list of statements:

* `if (condition) {...}` with an optional `else {...}`,
* `while (condition) {...}`,
* `fn name(parameters) {...}`,
* `{...}`,
* `name = expression`,
* an expression.

Statements need no separator. An expression is a run of operands with binary operators between
them; it ends before the first token that cannot continue it, so an operand that directly follows
an operand begins the next statement. Operands are numerals, strings, names, calls and groups in
parentheses.

Each construct is described once, in terms of a parser for the constructs inside it (`construct`).
`nested` ties the knot: it allows a number of constructs inside each other and fails beyond it, so
all recursion of the grammar is recursion on that number.
-/

set_option autoImplicit false

namespace BraceLang

namespace Parser

/-- The constructs of the grammar that can contain each other. -/
inductive Construct where
  | statement
  | conditional
  | loop
  | definition
  | assignment
  | block (opensScope : Bool)
  | expression
  | operand
  | call
  deriving DecidableEq, Repr

section Rules

variable (inner : Construct → Parser Tree)

/-! ## Statements -/

/-- A statement, told apart by its first token, and an assignment by its second. -/
def statement : Parser Tree := do
  match (← peek).kind with
  | .ifWord => inner .conditional
  | .whileWord => inner .loop
  | .fnWord => inner .definition
  | .forWord => reject .forLoop
  | .openBrace => inner (.block true)
  | .identifier =>
    if (← peekNext).kind = .assign then inner .assignment else inner .expression
  | _ => inner .expression

/-- A condition with one or two branches. -/
def conditional : Parser Tree := do
  let word ← consume .ifWord
  let _ ← expect .openParen .ifOpening
  let condition ← inner .expression
  let _ ← expect .closeParen .ifClosing
  let positive ← inner (.block true)
  if ← check .elseWord then
    let _ ← advance
    let negative ← inner (.block true)
    return .node word [condition, positive, negative]
  else
    return .node word [condition, positive]

/-- A loop. -/
def loop : Parser Tree := do
  let word ← consume .whileWord
  let _ ← expect .openParen .whileOpening
  let condition ← inner .expression
  let _ ← expect .closeParen .whileClosing
  let body ← inner (.block true)
  return .node word [condition, body]

/-- A function definition. Its body opens no scope: the call opens one, in which the parameters are
bound before the body runs. -/
def definition : Parser Tree := do
  let word ← consume .fnWord
  let name ← expect .identifier .functionName
  let _ ← expect .openParen .parametersOpening
  let parameters ← listed (expect .identifier .parameterName)
  let _ ← expect .closeParen .parametersClosing
  let body ← inner (.block false)
  return .node word (.leaf name :: parameters.map Tree.leaf ++ [body])

/-- An assignment. -/
def assignment : Parser Tree := do
  let name ← consume .identifier
  let sign ← consume .assign
  let value ← inner .expression
  return .node sign [.leaf name, value]

/-- Whether a block is over; it may not be cut off by the end of the input. -/
def blockOver : Parser Bool := do
  if ← check .closeBrace then
    return true
  else if ← check .endOfInput then
    reject .unclosedBlock
  else
    return false

/-- Statements in braces. -/
def block (opensScope : Bool) : Parser Tree := do
  let brace ← require .openBrace fun token => .blockOpening token.kind
  let statements ← itemsUntil blockOver (inner .statement) (← bound)
  let _ ← consume .closeBrace
  return .block statements opensScope brace.offset

/-! ## Expressions -/

/-- Sorts the operands and operators at the cursor, as far as they belong to one expression. -/
def sortRun : Nat → Yard → Parser Yard
  | 0, _ => throw (.broken .stalled)
  | rounds + 1, yard => do
    let token ← peek
    if token.kind.startsOperand then
      if yard.wantsOperand then
        let operand ← inner .operand
        sortRun rounds (yard.operand operand)
      else
        return yard
    else if token.kind = .operator then
      if yard.wantsOperand then
        reject (.unexpectedOperator token.text)
      else
        match Operator.ofText? token.text with
        | none => throw (.broken (.unknownOperator token.text))
        | some operator =>
          let _ ← advance
          sortRun rounds (yard.operator token operator.level)
    else
      return yard

/-- The tree of a sorted run that began at the token `start`. -/
def resolve (start : Token) (yard : Yard) : Parser Tree := do
  match yard.waiting, yard.wantsOperand with
  | top :: _, true => reject (.missingOperand top.token.text)
  | _, _ =>
    match foldPostfix yard.postfixItems start with
    | .ok tree => return tree
    | .error failure => throw failure

/-- An expression. -/
def expression : Parser Tree := do
  let start ← peek
  let yard ← sortRun inner (← bound) .empty
  resolve start yard

/-- An operand. A name directly before an opening parenthesis is always a call, and a group leaves
no node of its own. -/
def operand : Parser Tree := do
  match (← peek).kind with
  | .identifier =>
    if (← peekNext).kind = .openParen then inner .call else return .leaf (← advance)
  | .openParen =>
    let _ ← advance
    let grouped ← inner .expression
    let _ ← expect .closeParen .groupClosing
    return grouped
  | _ => return .leaf (← advance)

/-- A call, labelled with the name and the place of the function called. -/
def call : Parser Tree := do
  let name ← consume .identifier
  let _ ← consume .openParen
  let arguments ← listed (inner .expression)
  let _ ← expect .closeParen .argumentsClosing
  return .node ⟨.call, name.text, name.offset, false⟩ arguments

/-! ## The whole grammar -/

/-- The rule for each construct. -/
def construct : Construct → Parser Tree
  | .statement => statement inner
  | .conditional => conditional inner
  | .loop => loop inner
  | .definition => definition inner
  | .assignment => assignment inner
  | .block opensScope => block inner opensScope
  | .expression => expression inner
  | .operand => operand inner
  | .call => call inner

end Rules

/-- A construct with fewer than `depth` constructs around the innermost one. -/
def nested : Nat → Construct → Parser Tree
  | 0, _ => giveUp
  | depth + 1, form => construct (nested depth) form

/-- A program: statements up to the end of the input, in one block that opens a scope. -/
def program (depth : Nat) : Parser Tree := do
  let statements ← itemsUntil (check .endOfInput) (nested depth .statement) (← bound)
  return .block statements true 0

/-- How many constructs may be nested in one another. -/
def nestingLimit : Nat := 1000

end Parser

/-- The tree of a token list, with a bound on the nesting of its constructs. -/
def parseWithin (depth : Nat) (tokens : List Token) : Except Parser.Failure Tree :=
  match Cursor.ofTokens? tokens with
  | none => .error (.broken .missingEnd)
  | some cursor =>
    match Parser.program depth cursor with
    | .ok tree _ => .ok tree
    | .error failure _ => .error failure

/-- The tree of a token list. -/
def parse (tokens : List Token) : Except Parser.Failure Tree :=
  parseWithin Parser.nestingLimit tokens

end BraceLang
