import BraceLang.Parser.Cursor
import BraceLang.Parser.Fault

/-!
# Parsers

A parser moves a cursor and gives a result or a failure. The cursor is kept on failure, so it can
be seen where a parser stopped. Here are the moves on single tokens and the two repetitions of the
grammar, each bounded by the number of tokens that are left.
-/

set_option autoImplicit false

namespace BraceLang

/-- An action on a cursor. -/
abbrev Parser (α : Type) : Type :=
  EStateM Parser.Failure Cursor α

namespace Parser

/-! ## Single tokens -/

/-- The current token. -/
def peek : Parser Token :=
  return (← get).current

/-- The token after the current one. -/
def peekNext : Parser Token :=
  return (← get).next

/-- Moves past the current token, unless it ends the input, and gives it. -/
def advance : Parser Token := do
  let cursor ← get
  set cursor.advance
  return cursor.current

/-- Whether the current token is of one of some kinds. -/
def checkAny (kinds : List Kind) : Parser Bool :=
  return kinds.contains (← peek).kind

/-- Whether the current token is of a kind. -/
def check (kind : Kind) : Parser Bool :=
  return decide ((← peek).kind = kind)

/-- Refuses the current token. -/
def reject {α : Type} (fault : Fault) : Parser α := do
  throw (.rejected fault (← peek))

/-- Gives up at the current token, because constructs are nested too deeply. -/
def giveUp {α : Type} : Parser α := do
  throw (.tooDeep (← peek))

/-- Moves past a token of a kind, or else refuses it with the fault that is chosen for it. -/
def require (kind : Kind) (fault : Token → Fault) : Parser Token := do
  let token ← peek
  if token.kind = kind then advance else reject (fault token)

/-- Moves past a token of a kind. -/
def consume (kind : Kind) : Parser Token :=
  require kind fun token => .mismatch kind token.kind

/-- Moves past a token of a kind that meets an expectation. -/
def expect (kind : Kind) (expectation : Expectation) : Parser Token :=
  require kind fun _ => .unmet expectation

/-! ## Repetition -/

/-- A bound on how often a parser that reads something can be repeated. -/
def bound : Parser Nat :=
  return (← get).remaining

/-- Items up to a place at which the list is over. -/
def itemsUntil {α : Type} (ended : Parser Bool) (item : Parser α) : Nat → Parser (List α)
  | 0 => throw (.broken .stalled)
  | rounds + 1 => do
    if ← ended then
      return []
    else
      let first ← item
      let rest ← itemsUntil ended item rounds
      return first :: rest

/-- One or more items with commas between them. -/
def separated {α : Type} (item : Parser α) : Nat → Parser (List α)
  | 0 => throw (.broken .stalled)
  | rounds + 1 => do
    let first ← item
    if ← check .comma then
      let _ ← advance
      let rest ← separated item rounds
      return first :: rest
    else
      return [first]

/-- The items of a list in parentheses, up to the closing one. -/
def listed {α : Type} (item : Parser α) : Parser (List α) := do
  if ← check .closeParen then
    return []
  else
    separated item (← bound)

end Parser

end BraceLang
