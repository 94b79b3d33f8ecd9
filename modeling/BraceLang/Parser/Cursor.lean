import BraceLang.Token

/-!
# Cursors

A cursor is a place in a token list: the token there and the tokens after it. It is a non-empty
suffix of the list by its type, so there is always a current token. `Cursor.advance` stays on
`endOfInput`, so a cursor over a list that ends in that token never runs out.
-/

set_option autoImplicit false

namespace BraceLang

/-- The current token and those that follow it. -/
structure Cursor where
  current : Token
  following : List Token
  deriving DecidableEq, Repr

namespace Cursor

/-- The cursor at the start of a list that ends in `endOfInput`; other lists have none. -/
def ofTokens? : List Token → Option Cursor
  | [] => none
  | first :: rest =>
    if (rest.getLastD first).kind = .endOfInput then some ⟨first, rest⟩ else none

/-- The tokens from the cursor on. -/
def toList (cursor : Cursor) : List Token :=
  cursor.current :: cursor.following

/-- How many tokens there are from the cursor on. -/
def remaining (cursor : Cursor) : Nat :=
  cursor.toList.length

/-- The index of the cursor in a list of `total` tokens. -/
def position (total : Nat) (cursor : Cursor) : Nat :=
  total - cursor.remaining

/-- The token after the current one; at the end of the list, the current one. -/
def next (cursor : Cursor) : Token :=
  cursor.following.headD cursor.current

/-- The cursor one token further, unless it is at an end of input. -/
def advance (cursor : Cursor) : Cursor :=
  if cursor.current.kind = .endOfInput then cursor
  else
    match cursor.following with
    | [] => cursor
    | token :: rest => ⟨token, rest⟩

/-- Advancing stays inside the list. -/
theorem advance_suffix (cursor : Cursor) : cursor.advance.toList <:+ cursor.toList := by
  unfold advance
  split
  · exact List.suffix_rfl
  · split
    · exact List.suffix_rfl
    · next token rest following =>
      simp only [toList, following]
      exact List.suffix_cons cursor.current (token :: rest)

end Cursor

end BraceLang
