import BraceLang.Prompt.Continuation
import BraceLang.Proofs.Grammar.Viable

/-!
# Brackets that are open

`openAfter` follows the brackets of a token list with a stack: a bracket that opens is put on it,
and one that closes has to close the innermost open one, which is of its kind. Otherwise the
brackets do not match.

A phrase leaves the stack as it was (`Derives.openAfter_eq`), so the brackets of a program match and
none is left open. The brackets of the beginning of a program match as well, whatever is left open
(`Viable.exists_openAfter`). Where brackets match, as many of them are open as the balance of the
tokens says, although the balance does not tell their kinds apart (`balance_of_openAfter`).
-/

set_option autoImplicit false

namespace BraceLang

namespace Grammar

/-! ## The stack of open brackets -/

/-- The two kinds of brackets. -/
inductive Bracket where
  | paren
  | brace
  deriving DecidableEq, Repr

/-- The brackets that are open behind a token, if some are open before it, innermost first. A bracket
may close the innermost one only, and only if it is of its kind. -/
def openBehind (stack : List Bracket) (token : Token) : Option (List Bracket) :=
  match token.kind, stack with
  | .openParen, stack => some (.paren :: stack)
  | .openBrace, stack => some (.brace :: stack)
  | .closeParen, .paren :: outer => some outer
  | .closeBrace, .brace :: outer => some outer
  | .closeParen, _ | .closeBrace, _ => none
  | _, stack => some stack

/-- The brackets that are open after some tokens; none if a bracket closes what it may not. -/
def openAfter : List Bracket → List Token → Option (List Bracket)
  | stack, [] => some stack
  | stack, token :: tokens => (openBehind stack token).bind (openAfter · tokens)

theorem openAfter_append (stack : List Bracket) (first second : List Token) :
    openAfter stack (first ++ second) = (openAfter stack first).bind (openAfter · second) := by
  induction first generalizing stack with
  | nil => rfl
  | cons token tokens ih =>
      rw [List.cons_append, openAfter, openAfter, Option.bind_assoc]
      simp only [ih]

/-- The end of the input is no bracket. -/
theorem openAfter_concat {last : Token} (closed : last.kind = .endOfInput) (stack : List Bracket)
    (tokens : List Token) : openAfter stack (tokens ++ [last]) = openAfter stack tokens := by
  have flat (stack : List Bracket) : openAfter stack [last] = some stack := by
    simp [openAfter, openBehind, closed]
  rw [openAfter_append]
  simp [flat]

/-! ## Phrases -/

/-- **A phrase closes the brackets that it opens, and no others.** -/
theorem Derives.openAfter_eq {phrase : Phrase} {start rest : List Token} {trees : List Tree}
    (derived : Derives phrase start trees rest) (stack : List Bracket) :
    openAfter stack start = openAfter stack rest := by
  induction derived generalizing stack with
  | literal isLiteral =>
      rcases isLiteral with numeral | string
      · simp [openAfter, openBehind, numeral]
      · simp [openAfter, openBehind, string]
  | _ => simp_all [openAfter, openBehind]

/-- The brackets of a program match, and none is left open. -/
theorem Program.openAfter_eq {tokens : List Token} {root : Tree}
    (isProgram : Program tokens root) : openAfter [] tokens = some [] := by
  obtain ⟨trees, derived, -⟩ := isProgram
  exact derived.openAfter_eq []

/-- The brackets of what begins a program match. -/
theorem Viable.exists_openAfter {read : List Token} (viable : Viable .statements read) :
    ∃ stack, openAfter [] read = some stack := by
  obtain ⟨more, trees, whole⟩ := viable
  have derived := whole [] (.of_unopened nofun)
  have matched := derived.openAfter_eq []
  rw [List.append_nil, openAfter_append] at matched
  obtain ⟨stack, found, -⟩ := Option.bind_eq_some_iff.mp matched
  exact ⟨stack, found⟩

/-! ## The number of open brackets -/

/-- A token adds its opening to the number of open brackets. -/
theorem length_of_openBehind {stack behind : List Bracket} {token : Token}
    (found : openBehind stack token = some behind) :
    (stack.length : Int) + Prompt.opening token = behind.length := by
  unfold openBehind at found
  unfold Prompt.opening
  split at found
  · next opens =>
      cases found
      simp [opens]
  · next opens =>
      cases found
      simp [opens]
  · next closes =>
      cases found
      simp only [closes, List.length_cons]
      omega
  · next closes =>
      cases found
      simp only [closes, List.length_cons]
      omega
  · cases found
  · cases found
  · -- what is no bracket has no opening
    cases found
    simp_all

/-- **Where brackets match, the balance counts those that are open.** -/
theorem balance_of_openAfter {stack behind : List Bracket} {tokens : List Token}
    (found : openAfter stack tokens = some behind) :
    (stack.length : Int) + Prompt.balance tokens = behind.length := by
  induction tokens generalizing stack with
  | nil =>
      cases found
      exact Int.add_zero _
  | cons token tokens ih =>
      obtain ⟨middle, first, later⟩ := Option.bind_eq_some_iff.mp found
      have here := length_of_openBehind first
      have further := ih later
      rw [Prompt.balance]
      omega

end Grammar

end BraceLang
