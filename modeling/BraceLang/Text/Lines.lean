/-!
# Lines

Texts that come from a file or from standard input may end a line in three ways; `unifyNewlines`
gives each of them the one line feed that the rest of the program knows. `splitLines` cuts a
document at its line feeds and at nothing else, so joining the lines by line feeds gives the
document back (`intercalate_splitAt`).
-/

set_option autoImplicit false

namespace BraceLang.Text

/-! ## Line ends -/

/-- Line ends made uniform: a carriage return, alone or before a line feed, is one line feed. -/
def unifyNewlineChars : List Char → List Char
  | [] => []
  | '\r' :: '\n' :: rest => '\n' :: unifyNewlineChars rest
  | c :: rest => (if c = '\r' then '\n' else c) :: unifyNewlineChars rest

/-- A text with uniform line ends. -/
def unifyNewlines (text : String) : String :=
  String.ofList (unifyNewlineChars text.toList)

/-! ## Cutting at a separator -/

/-- The pieces between the occurrences of a separator; without any there is one piece. -/
def splitAt (separator : Char) : List Char → List (List Char)
  | [] => [[]]
  | c :: rest =>
    if c = separator then [] :: splitAt separator rest
    else
      match splitAt separator rest with
      | [] => [[c]]
      | piece :: pieces => (c :: piece) :: pieces

/-- There is always a piece. -/
theorem splitAt_ne_nil (separator : Char) (characters : List Char) :
    splitAt separator characters ≠ [] := by
  cases characters with
  | nil => simp [splitAt]
  | cons c rest =>
    unfold splitAt
    split
    · simp
    · split <;> simp

/-- The pieces joined by the separator give the text back. -/
theorem intercalate_splitAt (separator : Char) (characters : List Char) :
    [separator].intercalate (splitAt separator characters) = characters := by
  induction characters with
  | nil => simp [splitAt, List.intercalate]
  | cons c rest ih =>
    unfold splitAt
    cases pieces : splitAt separator rest with
    | nil => exact absurd pieces (splitAt_ne_nil separator rest)
    | cons piece more =>
      rw [pieces] at ih
      split
      · next same =>
        subst same
        simpa [List.intercalate, List.intersperse] using ih
      · cases more <;> simpa [List.intercalate, List.intersperse] using ih

/-- The lines of a document. -/
def splitLines (text : String) : List String :=
  (splitAt '\n' text.toList).map String.ofList

end BraceLang.Text
