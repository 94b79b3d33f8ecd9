import BraceLang.Parser.Grammar
import BraceLang.Proofs.Effect

/-!
# Positions before the end of the input

A parser moves through a list of tokens that is closed by an end of input. Its position is then
given by the tokens that are left before the end (`Cursor.before`), and here is what the moves on
single tokens do to them.

`Parses last parser start post` says what a parser may do at such a position: it gives a result and
stops at a later position, both as `post` says, or it fails in an ordinary way. Ordinary failures
are mistakes of the program, too deep a nesting, and operator tokens that are no operator; all
others would be mistakes of the parser.
-/

set_option autoImplicit false

namespace BraceLang

/-- The position at which some tokens are left before the last one. -/
def Cursor.before (last : Token) : List Token → Cursor
  | [] => ⟨last, []⟩
  | token :: tokens => ⟨token, tokens ++ [last]⟩

namespace Cursor

@[simp] theorem current_before_cons (last token : Token) (tokens : List Token) :
    (before last (token :: tokens)).current = token :=
  rfl

theorem remaining_before (last : Token) (tokens : List Token) :
    (before last tokens).remaining = tokens.length + 1 := by
  cases tokens <;> simp [before, remaining, toList]

theorem next_before_cons (last token : Token) (tokens : List Token) :
    (before last (token :: tokens)).next = (before last tokens).current := by
  cases tokens <;> rfl

theorem advance_before_cons {token : Token} (inside : token.kind ≠ .endOfInput) (last : Token)
    (tokens : List Token) : (before last (token :: tokens)).advance = before last tokens := by
  unfold advance
  rw [if_neg (by simpa [before] using inside)]
  cases tokens <;> rfl

/-- A list that is closed by an end of input is read from its first token on. -/
theorem ofTokens?_append {last : Token} (closed : last.kind = .endOfInput) (tokens : List Token) :
    ofTokens? (tokens ++ [last]) = some (before last tokens) := by
  cases tokens with
  | nil => simp [ofTokens?, before, closed]
  | cons token tokens => simp [ofTokens?, before, closed]

end Cursor

namespace Parser

open Effect

variable {α β : Type}

/-! ## Moves on single tokens -/

theorem peek_before (last : Token) (tokens : List Token) :
    peek (.before last tokens) =
      .ok (Cursor.before last tokens).current (.before last tokens) :=
  rfl

theorem peekNext_before_cons (last token : Token) (tokens : List Token) :
    peekNext (.before last (token :: tokens)) =
      .ok (Cursor.before last tokens).current (.before last (token :: tokens)) := by
  rw [← Cursor.next_before_cons last token tokens]
  rfl

theorem check_before (kind : Kind) (last : Token) (tokens : List Token) :
    check kind (.before last tokens) =
      .ok (decide ((Cursor.before last tokens).current.kind = kind)) (.before last tokens) :=
  rfl

theorem bound_before (last : Token) (tokens : List Token) :
    bound (.before last tokens) = .ok (tokens.length + 1) (.before last tokens) := by
  rw [← Cursor.remaining_before last tokens]
  rfl

theorem advance_before_cons {token : Token} (inside : token.kind ≠ .endOfInput) (last : Token)
    (tokens : List Token) :
    advance (.before last (token :: tokens)) = .ok token (.before last tokens) := by
  rw [← Cursor.advance_before_cons inside last tokens]
  rfl

theorem reject_before (fault : Fault) (last : Token) (tokens : List Token) :
    (reject fault : Parser α) (.before last tokens) =
      .error (.rejected fault (Cursor.before last tokens).current) (.before last tokens) :=
  rfl

/-- A token of the required kind is taken. -/
theorem require_before_cons {token : Token} {kind : Kind} (found : token.kind = kind)
    (inside : kind ≠ .endOfInput) (fault : Token → Fault) (last : Token) (tokens : List Token) :
    require kind fault (.before last (token :: tokens)) = .ok token (.before last tokens) := by
  unfold require
  rw [bind_of_ok (peek_before last (token :: tokens))]
  rw [if_pos (show (Cursor.before last (token :: tokens)).current.kind = kind from found)]
  exact advance_before_cons (found ▸ inside) last tokens

/-- A token of another kind is refused. -/
theorem require_before_of_ne {kind : Kind} {last : Token} {tokens : List Token}
    (other : (Cursor.before last tokens).current.kind ≠ kind) (fault : Token → Fault) :
    require kind fault (.before last tokens) =
      .error (.rejected (fault (Cursor.before last tokens).current)
        (Cursor.before last tokens).current) (.before last tokens) := by
  unfold require
  rw [bind_of_ok (peek_before last tokens), if_neg other]
  rfl

/-! ## Ordinary failures -/

/-- A failure that the tokens are to blame for. -/
def Ordinary (tokens : List Token) : Failure → Prop
  | .rejected fault _ => fault ≠ .unresolvedExpression
  | .tooDeep _ => True
  | .broken (.unknownOperator text) =>
    ∃ token ∈ tokens, token.kind = .operator ∧ token.text = text ∧ Operator.ofText? text = none
  | .broken _ => False

/-- A failure further on is a failure of the whole. -/
theorem Ordinary.of_suffix {tokens rest : List Token} (later : rest <:+ tokens)
    {failure : Failure} (ordinary : Ordinary rest failure) : Ordinary tokens failure := by
  match failure, ordinary with
  | .rejected _ _, ordinary => exact ordinary
  | .tooDeep _, _ => trivial
  | .broken (.unknownOperator _), ⟨token, member, unknown⟩ =>
      exact ⟨token, later.subset member, unknown⟩

/-! ## What parsers may do -/

/-- What a parser may do where `start` is left before the last token: give a result and stop where
less is left, as `post` says, or fail in an ordinary way. -/
def Parses (last : Token) (parser : Parser α) (start : List Token)
    (post : α → List Token → Prop) : Prop :=
  match parser (.before last start) with
  | .ok result cursor => ∃ rest, cursor = .before last rest ∧ rest <:+ start ∧ post result rest
  | .error failure _ => Ordinary start failure

variable {last : Token} {start : List Token}

theorem Parses.of_ok {parser : Parser α} {post : α → List Token → Prop} {result : α}
    {rest : List Token} (ran : parser (.before last start) = .ok result (.before last rest))
    (later : rest <:+ start) (holds : post result rest) : Parses last parser start post := by
  rw [Parses, ran]
  exact ⟨rest, rfl, later, holds⟩

theorem Parses.of_error {parser : Parser α} {post : α → List Token → Prop} {failure : Failure}
    {cursor : Cursor} (ran : parser (.before last start) = .error failure cursor)
    (ordinary : Ordinary start failure) : Parses last parser start post := by
  rw [Parses, ran]
  exact ordinary

/-- One parser after another. -/
theorem Parses.bind {parser : Parser α} {next : α → Parser β} {middle : α → List Token → Prop}
    {post : β → List Token → Prop} (first : Parses last parser start middle)
    (second : ∀ result rest, rest <:+ start → middle result rest →
      Parses last (next result) rest post) :
    Parses last (parser >>= next) start post := by
  unfold Parses at first
  cases ran : parser (.before last start) with
  | error failure cursor =>
      rw [ran] at first
      exact .of_error (bind_of_error ran) first
  | ok result cursor =>
      rw [ran] at first
      obtain ⟨rest, rfl, later, holds⟩ := first
      have follows := second result rest later holds
      unfold Parses at follows ⊢
      rw [bind_of_ok ran]
      cases final : next result (.before last rest) with
      | error failure cursor =>
          rw [final] at follows
          exact Ordinary.of_suffix later follows
      | ok result cursor =>
          rw [final] at follows
          obtain ⟨rest', same, later', holds'⟩ := follows
          exact ⟨rest', same, later'.trans later, holds'⟩

theorem Parses.mono {parser : Parser α} {middle post : α → List Token → Prop}
    (parses : Parses last parser start middle)
    (weaker : ∀ result rest, rest <:+ start → middle result rest → post result rest) :
    Parses last parser start post := by
  unfold Parses at parses ⊢
  cases ran : parser (.before last start) with
  | error failure cursor =>
      rw [ran] at parses
      exact parses
  | ok result cursor =>
      rw [ran] at parses
      obtain ⟨rest, same, later, holds⟩ := parses
      exact ⟨rest, same, later, weaker result rest later holds⟩

theorem pure_parses {result : α} {post : α → List Token → Prop} (holds : post result start) :
    Parses last (pure result) start post :=
  .of_ok rfl List.suffix_rfl holds

theorem reject_parses {fault : Fault} (mistake : fault ≠ .unresolvedExpression)
    {post : α → List Token → Prop} : Parses last (reject fault) start post :=
  .of_error (reject_before fault last start) mistake

theorem peek_parses : Parses last peek start fun token rest =>
    rest = start ∧ token = (Cursor.before last start).current :=
  .of_ok (peek_before last start) List.suffix_rfl ⟨rfl, rfl⟩

theorem bound_parses : Parses last bound start fun rounds rest =>
    rest = start ∧ rounds = start.length + 1 :=
  .of_ok (bound_before last start) List.suffix_rfl ⟨rfl, rfl⟩

theorem check_parses (kind : Kind) : Parses last (check kind) start fun found rest =>
    rest = start ∧ found = decide ((Cursor.before last start).current.kind = kind) :=
  .of_ok (check_before kind last start) List.suffix_rfl ⟨rfl, rfl⟩

/-- At the end of the input there is no token of another kind. -/
theorem exists_cons_of_current {kind : Kind} (closed : last.kind = .endOfInput)
    (inside : kind ≠ .endOfInput) (found : (Cursor.before last start).current.kind = kind) :
    ∃ token rest, start = token :: rest ∧ token.kind = kind := by
  cases start with
  | nil => exact absurd (found.symm.trans closed) inside
  | cons token rest => exact ⟨token, rest, rfl, found⟩

/-- A required token is the next one. -/
theorem require_parses (closed : last.kind = .endOfInput) {kind : Kind}
    (inside : kind ≠ .endOfInput) {fault : Token → Fault}
    (mistake : ∀ token, fault token ≠ .unresolvedExpression) :
    Parses last (require kind fault) start fun token rest =>
      start = token :: rest ∧ token.kind = kind := by
  by_cases found : (Cursor.before last start).current.kind = kind
  · obtain ⟨token, rest, rfl, same⟩ := exists_cons_of_current closed inside found
    exact .of_ok (require_before_cons same inside fault last rest) (List.suffix_cons _ _)
      ⟨rfl, same⟩
  · exact .of_error (require_before_of_ne found fault) (mistake _)

theorem consume_parses (closed : last.kind = .endOfInput) {kind : Kind}
    (inside : kind ≠ .endOfInput) :
    Parses last (consume kind) start fun token rest =>
      start = token :: rest ∧ token.kind = kind :=
  require_parses closed inside fun _ => by simp

theorem expect_parses (closed : last.kind = .endOfInput) {kind : Kind}
    (inside : kind ≠ .endOfInput) (expectation : Expectation) :
    Parses last (expect kind expectation) start fun token rest =>
      start = token :: rest ∧ token.kind = kind :=
  require_parses closed inside fun _ => by simp

end Parser

end BraceLang
