import Mathlib.Control.Monad.Basic
import BraceLang.Proofs.Grammar.Brackets
import BraceLang.Proofs.Grammar.Refusal
import BraceLang.Proofs.Lexing.Faults
import BraceLang.Proofs.SourceText

/-!
# Entries that have to go on

The prompt decides by counting whether an entry has to go on: by its brackets, or by its quotes if
it cannot be read. The counts say what the scanner and the parser say.

The quotes of a text that can be read come in pairs, one pair for each string (`Laid.even_quotes`).
So their number is odd if a string is open. The brackets of a program are all closed, and those of a
text that the parser only refuses for its end match as far as they go, because such a text is the
beginning of a program.
-/

set_option autoImplicit false

namespace BraceLang

open Lexer Grammar

/-! ## Quotes -/

namespace Lexer

/-- An item has two quotes if it is a string, and otherwise none. -/
theorem Item.Valid.count_quotes {item : Item} (valid : item.Valid) :
    item.written.count '"' = 2 ∨ item.written.count '"' = 0 := by
  obtain ⟨c, same, _, notQuote, _⟩ | ⟨text, same, unquoted, _⟩ | ⟨form, isRun, lexeme, _⟩ :=
    valid.shape
  · refine .inr (List.count_eq_zero.mpr fun member => notQuote ?_)
    rw [same] at member
    exact (List.mem_singleton.mp member).symm
  · refine .inl ?_
    rw [same, List.count_cons_self, List.count_append, List.count_eq_zero.mpr unquoted]
    rfl
  · refine .inr (List.count_eq_zero.mpr fun member => ?_)
    have inside := Form.isRunChar_of_accepts isRun (lexeme.accepted _ member)
    exact absurd inside (by decide)

/-- The quotes of what is laid out come in pairs. -/
theorem Laid.even_quotes {items : List Item} (laid : Laid items) :
    (written items).count '"' % 2 = 0 := by
  induction laid with
  | nil => rfl
  | @cons item items valid _ _ ih =>
      rw [written_cons, List.count_append]
      rcases valid.count_quotes with two | none <;> omega

end Lexer

namespace Prompt

/-- A text that can be read has an even number of quotes. -/
theorem quoteCount_of_tokenize {text : String} {tokens : List Token}
    (read : tokenize text = .ok tokens) : quoteCount text % 2 = 0 := by
  obtain ⟨items, laid, same⟩ := exists_laid_of_tokenize read
  rw [quoteCount, ← same]
  exact laid.even_quotes

/-- A text in which a string is open has an odd number of quotes. -/
theorem quoteCount_of_unterminated {text : String} {failure : Lexer.Failure}
    (refused : tokenize text = .error failure) (isOpen : failure.fault = .unterminatedString) :
    quoteCount text % 2 = 1 := by
  obtain ⟨items, rest, laid, -, same, begins, -, -⟩ := exists_items_of_refused refused
  rw [isOpen] at begins
  cases begins with
  | unterminatedString unquoted =>
      have pairs := laid.even_quotes
      rw [quoteCount, same, List.count_append, List.count_cons_self,
        List.count_eq_zero.mpr unquoted]
      omega

/-! ## Brackets -/

/-- The test of an entry that can be read counts its open brackets, if they match. -/
theorem needsMore_iff {text : String} {tokens : List Token} (read : tokenize text = .ok tokens)
    {stack : List Bracket} (found : openAfter [] tokens = some stack) :
    needsMore text = true ↔ stack ≠ [] := by
  have counted := balance_of_openAfter found
  rw [needsMore, read, decide_eq_true_iff, ← List.length_pos_iff]
  rw [List.length_nil] at counted
  omega

/-- A text that the parser refuses for its end is the beginning of a program. -/
theorem viable_of_rejected {text : String} {tokens : List Token}
    (read : tokenize text = .ok tokens) {depth : Nat} {fault : Parser.Fault} {token : Token}
    (rejected : parseWithin depth tokens = .error (.rejected fault token))
    (atEnd : token.kind = .endOfInput) :
    ∃ begun last, tokens = begun ++ [last] ∧ last.kind = .endOfInput ∧
      Viable .statements begun := by
  obtain ⟨begun, offset, rfl, spelled⟩ := spelled_of_tokenize read
  have closed : (Token.endAt offset).kind = .endOfInput := rfl
  refine ⟨begun, .endAt offset, rfl, closed, ?_⟩
  rw [parseWithin_append closed] at rejected
  cases ran : Parser.program depth (.before (.endAt offset) begun) with
  | ok root cursor =>
      rw [ran] at rejected
      cases rejected
  | error failure cursor =>
      rw [ran] at rejected
      cases rejected
      obtain ⟨passed, ahead, rfl, rfl, found, viable⟩ :=
        program_refuses closed depth begun fault token cursor ran
      cases ahead with
      | nil => rwa [List.append_nil]
      | cons head more =>
          -- no token before the end ends the input
          obtain rfl : token = head := found
          have inside := (spelled token (by simp)).ne_endOfInput
          exact absurd atEnd inside

/-- **The prompt agrees with the scanner and the parser.** An entry that has a tree does not have to
go on. The number of quotes is odd in a text in which a string is open, which has to go on, and even
in every text that can be read. And if a text can be read and the parser refuses it at the end of
the input, then each of its closing brackets closes the innermost one that is open, which is of its
kind, and the text has to go on if and only if some bracket is left open. -/
theorem needsMore_agrees (text : String) :
    (∀ limits root, treeWithin limits text = .ok root → needsMore text = false) ∧
    (∀ failure, tokenize text = .error failure → failure.fault = .unterminatedString →
      needsMore text = true ∧ quoteCount text % 2 = 1) ∧
    (∀ tokens, tokenize text = .ok tokens → quoteCount text % 2 = 0) ∧
    ∀ tokens depth fault token, tokenize text = .ok tokens →
      parseWithin depth tokens = .error (.rejected fault token) → token.kind = .endOfInput →
        ∃ stack, openAfter [] tokens = some stack ∧ (needsMore text = true ↔ stack ≠ []) := by
  refine ⟨fun limits root parsed => ?_, fun failure refused isOpen => ?_,
    fun tokens read => quoteCount_of_tokenize read,
    fun tokens depth fault token read rejected atEnd => ?_⟩
  · obtain ⟨items, -, -, read, isProgram⟩ := exists_program_of_treeWithin parsed
    have found := isProgram.openAfter_eq
    rw [← openAfter_concat (show (Token.endAt text.length).kind = .endOfInput from rfl)] at found
    rw [Bool.eq_false_iff]
    exact fun goesOn => (needsMore_iff read found).mp goesOn rfl
  · have odd := quoteCount_of_unterminated refused isOpen
    refine ⟨?_, odd⟩
    rw [needsMore, refused, odd]
    rfl
  · obtain ⟨begun, last, rfl, closed, viable⟩ := viable_of_rejected read rejected atEnd
    obtain ⟨stack, found⟩ := viable.exists_openAfter
    rw [← openAfter_concat closed] at found
    exact ⟨stack, found, needsMore_iff read found⟩

/-- A call whose last argument is missing has to go on, a sum without its second operand does not,
although the parser refuses both at their end. -/
theorem needsMore_agrees_call :
    needsMore "f(\"\x7d\")" = false ∧ needsMore "x = \"(" = true ∧ needsMore "\x7b f(a," = true ∧
      needsMore "(a) +" = false := by
  have parsed : treeWithin ⟨20, 0, 0⟩ "f(\"\x7d\")" =
      .ok (.block [.node ⟨.call, "f", 0, false⟩ [.leaf ⟨.string, "\x7d", 3, false⟩]] true 0) := by
    decide +kernel
  have refused : tokenize "x = \"(" = .error ⟨.unterminatedString, 5,
      [⟨.identifier, "x", 0, false⟩, ⟨.assign, "=", 2, false⟩]⟩ := by
    decide +kernel
  have callRead : tokenize "\x7b f(a," = .ok
      [⟨.openBrace, "\x7b", 0, false⟩, ⟨.identifier, "f", 2, false⟩, ⟨.openParen, "(", 3, false⟩,
        ⟨.identifier, "a", 4, false⟩, ⟨.comma, ",", 5, false⟩, .endAt 6] := by
    decide +kernel
  have sumRead : tokenize "(a) +" = .ok
      [⟨.openParen, "(", 0, false⟩, ⟨.identifier, "a", 1, false⟩, ⟨.closeParen, ")", 2, false⟩,
        ⟨.operator, "+", 4, false⟩, .endAt 5] := by
    decide +kernel
  refine ⟨(needsMore_agrees _).1 _ _ parsed, ((needsMore_agrees _).2.1 _ refused rfl).1, ?_, ?_⟩
  · obtain ⟨stack, found, goesOn⟩ := (needsMore_agrees _).2.2.2 _ 20
      (.missingExpression .endOfInput) (.endAt 6) callRead (by decide +kernel) rfl
    refine goesOn.mpr ?_
    cases found
    exact nofun
  · obtain ⟨stack, found, goesOn⟩ := (needsMore_agrees _).2.2.2 _ 20
      (.missingOperand "+") (.endAt 5) sumRead (by decide +kernel) rfl
    cases found
    rw [Bool.eq_false_iff]
    exact fun more => goesOn.mp more rfl

end Prompt

end BraceLang
