import BraceLang.Proofs.Lexing.Spelling
import BraceLang.Proofs.Text.DigitRun

/-!
# Reading one lexeme after another

The scanner looks at one character at a time, and some of its moves consume nothing. Seen from one
lexeme to the next it is simpler: an idle scanner that stands before a blank, a punctuation
character, a quoted string or a run of digits, word characters or symbols is idle again behind it,
and has emitted its token (`outcome_blank`, `outcome_punctuation`, `outcome_string`,
`outcome_lexeme`). A run goes on for as long as its form accepts the characters that follow.

`Scanner.outcome` is what the scanner gives for all that is ahead of it. It does not depend on the
number of moves that the scanner is allowed, as long as they suffice (`run_stable`).
-/

set_option autoImplicit false

namespace BraceLang

namespace Lexer

/-! ## Characters inside and outside of runs -/

/-- A character of a number, of a word or of a symbol run. -/
def isRunChar (c : Char) : Bool :=
  isWordChar c || isSymbolChar c

/-- The code points of the ASCII letters. -/
theorem isLetter_iff {c : Char} :
    isLetter c = true ↔
      (0x61 ≤ c.toNat ∧ c.toNat ≤ 0x7A) ∨ (0x41 ≤ c.toNat ∧ c.toNat ≤ 0x5A) := by
  simp only [isLetter, Bool.or_eq_true, Bool.and_eq_true, decide_eq_true_eq]
  exact Iff.rfl

theorem isSymbolChar_iff {c : Char} :
    isSymbolChar c = true ↔ c ∈ ['+', '-', '*', '/', '=', '!', '&', '|'] := by
  simp only [isSymbolChar, Bool.or_eq_true, beq_iff_eq, List.mem_cons, List.not_mem_nil, or_false,
    or_assoc]

theorem isDigit_of_isWordStart {c : Char} (letter : isWordStart c = true) : isDigit c = false := by
  rw [Bool.eq_false_iff, ne_eq, Text.isDigit_iff]
  simp only [isWordStart, Bool.or_eq_true, isLetter_iff, beq_iff_eq] at letter
  rcases letter with letter | rfl
  · omega
  · decide

theorem isWordChar_of_isSymbolChar {c : Char} (symbol : isSymbolChar c = true) :
    isWordChar c = false := by
  have all : ['+', '-', '*', '/', '=', '!', '&', '|'].all (!isWordChar ·) = true := by decide
  simpa using List.all_eq_true.mp all c (isSymbolChar_iff.mp symbol)

/-- Characters of runs have code points between those of the ASCII blanks and of the others. -/
theorem range_of_isRunChar {c : Char} (inside : isRunChar c = true) :
    0x20 < c.toNat ∧ c.toNat < 0x80 := by
  simp only [isRunChar, isWordChar, Bool.or_eq_true, isLetter_iff, Text.isDigit_iff, beq_iff_eq]
    at inside
  rcases inside with ((letter | digit) | rfl) | symbol
  · omega
  · omega
  · decide
  · have all : ['+', '-', '*', '/', '=', '!', '&', '|'].all
        (fun d => decide (0x20 < d.toNat ∧ d.toNat < 0x80)) = true := by decide
    exact of_decide_eq_true (List.all_eq_true.mp all c (isSymbolChar_iff.mp symbol))

theorem isRunChar_of_isBlank {c : Char} (blank : Text.isBlank c = true) : isRunChar c = false := by
  rw [Bool.eq_false_iff]
  intro inside
  have code := range_of_isRunChar inside
  obtain ⟨range, listed, within⟩ := List.any_eq_true.mp blank
  have apart : ∀ range ∈ Text.blankRanges, range.2 ≤ 0x20 ∨ 0x80 ≤ range.1 := by decide
  have := apart range listed
  simp only [Bool.and_eq_true, decide_eq_true_eq] at within
  omega

theorem isRunChar_of_ofPunctuation? {c : Char} {kind : Kind}
    (found : Kind.ofPunctuation? c = some kind) :
    isRunChar c = false ∧ Text.isBlank c = false ∧ c ≠ '"' := by
  unfold Kind.ofPunctuation? at found
  split at found
  all_goals first | decide | cases found

/-- Runs accept characters of runs only. -/
theorem Form.isRunChar_of_accepts {form : Form} (isRun : form ≠ .string) {c : Char}
    (accepted : form.accepts c = true) : isRunChar c = true := by
  cases form with
  | number =>
      have digit : isDigit c = true := accepted
      simp [isRunChar, isWordChar, digit]
  | word =>
      have letter : isWordChar c = true := accepted
      simp [isRunChar, letter]
  | string => exact absurd rfl isRun
  | symbol =>
      have symbol : isSymbolChar c = true := accepted
      simp [isRunChar, symbol]

theorem Form.accepts_eq_false {form : Form} (isRun : form ≠ .string) {c : Char}
    (outside : isRunChar c = false) : form.accepts c = false := by
  rw [Bool.eq_false_iff] at outside ⊢
  exact fun accepted => outside (isRunChar_of_accepts isRun accepted)

/-- What is no character of a run begins none. -/
theorem begins_eq_false {c : Char} (outside : isRunChar c = false) :
    isDigit c = false ∧ isWordStart c = false ∧ isSymbolChar c = false := by
  have refused (form : Form) (isRun : form ≠ .string) : form.accepts c = false :=
    form.accepts_eq_false isRun outside
  refine ⟨refused .number nofun, ?_, refused .symbol nofun⟩
  have word : isWordChar c = false := refused .word nofun
  rw [Bool.eq_false_iff] at word ⊢
  exact fun letter => word (isWordChar_of_isWordStart letter)

/-- A character of a run begins a number, a word or a symbol run. -/
theorem exists_begins {c : Char} (inside : isRunChar c = true) :
    ∃ form : Form, form ≠ .string ∧ form.begins c = true := by
  simp only [isRunChar, isWordChar, Bool.or_eq_true] at inside
  rcases inside with ((letter | digit) | underscore) | symbol
  · exact ⟨.word, by decide, by simp [Form.begins, isWordStart, letter]⟩
  · exact ⟨.number, by decide, digit⟩
  · exact ⟨.word, by decide, by simp [Form.begins, isWordStart, underscore]⟩
  · exact ⟨.symbol, by decide, symbol⟩

namespace Scanner

/-! ## The first move -/

theorem begin_run {form : Form} (isRun : form ≠ .string) {c : Char} (begins : form.begins c = true)
    (scanner : Scanner) (rest : List Char) :
    scanner.begin c rest = .ok { scanner with activity := .reading form scanner.position [] } := by
  cases form with
  | number =>
      have digit : isDigit c = true := begins
      rw [begin, if_pos digit]
  | word =>
      have letter : isWordStart c = true := begins
      have notDigit := isDigit_of_isWordStart letter
      simp [begin, letter, notDigit]
  | string => exact absurd rfl isRun
  | symbol =>
      have symbol : isSymbolChar c = true := begins
      have notWord := isWordChar_of_isSymbolChar symbol
      have notDigit : isDigit c = false := by
        rw [Bool.eq_false_iff] at notWord ⊢
        exact fun digit => notWord (by simp [isWordChar, digit])
      have notStart : isWordStart c = false := by
        rw [Bool.eq_false_iff] at notWord ⊢
        exact fun letter => notWord (isWordChar_of_isWordStart letter)
      simp [begin, symbol, notDigit, notStart]

/-! ## Outcomes -/

/-- What the scanner gives for the text ahead of it. -/
def outcome (scanner : Scanner) : Except Failure (List Token) :=
  (run scanner.measure scanner).bind finish

theorem run_of_nil {scanner : Scanner} (atEnd : scanner.rest = []) (moves : Nat) :
    run moves scanner = .ok scanner := by
  cases moves with
  | zero => rfl
  | succ moves => rw [run, atEnd]

/-- Moves that suffice are as good as any others that do. -/
theorem run_stable {scanner : Scanner} {moves others : Nat} (enough : scanner.measure ≤ moves)
    (suffice : scanner.measure ≤ others) : run moves scanner = run others scanner := by
  induction moves generalizing scanner others with
  | zero =>
      have atEnd : scanner.rest = [] := by
        rw [measure] at enough
        exact List.length_eq_zero_iff.mp (by omega)
      rw [run_of_nil atEnd, run_of_nil atEnd]
  | succ moves ih =>
      cases ahead : scanner.rest with
      | nil => rw [run_of_nil ahead, run_of_nil ahead]
      | cons c rest =>
          cases others with
          | zero =>
              rw [measure, ahead, List.length_cons] at suffice
              omega
          | succ others =>
              rw [run, run, ahead]
              show (scanner.step c rest).bind _ = (scanner.step c rest).bind _
              cases moved : scanner.step c rest with
              | error failure => rfl
              | ok next =>
                  have decreased := step_measure ahead moved
                  exact ih (by omega) (by omega)

theorem outcome_of_nil {scanner : Scanner} (atEnd : scanner.rest = []) :
    scanner.outcome = scanner.finish := by
  rw [outcome, run_of_nil atEnd]
  rfl

/-- The outcome after one move is that of the scanner after it. -/
theorem outcome_of_step {scanner : Scanner} {c : Char} {rest : List Char}
    (ahead : scanner.rest = c :: rest) :
    scanner.outcome = (scanner.step c rest).bind outcome := by
  have positive : scanner.measure = scanner.measure - 1 + 1 := by
    rw [measure, ahead, List.length_cons]
    omega
  rw [outcome, positive, run, ahead]
  show ((scanner.step c rest).bind _).bind finish = _
  cases moved : scanner.step c rest with
  | error failure => rfl
  | ok next =>
      have decreased := step_measure ahead moved
      show (run (scanner.measure - 1) next).bind finish = (run next.measure next).bind finish
      rw [run_stable (by omega) (Nat.le_refl next.measure)]

/-! ## Blanks and punctuation -/

section Idle

variable (rest : List Char) (position : Nat) (emitted : List Token)

theorem outcome_blank {c : Char} (blank : Text.isBlank c = true) :
    outcome ⟨c :: rest, position, .idle, emitted⟩ =
      outcome ⟨rest, position + 1, .idle, emitted⟩ := by
  obtain ⟨notDigit, notWord, notSymbol⟩ := begins_eq_false (isRunChar_of_isBlank blank)
  rw [outcome_of_step rfl]
  simp [step, begin, notDigit, notWord, notSymbol, blank, Except.bind]

theorem outcome_punctuation {c : Char} {kind : Kind} (found : Kind.ofPunctuation? c = some kind) :
    outcome ⟨c :: rest, position, .idle, emitted⟩ =
      outcome ⟨rest, position + 1, .idle, ⟨kind, c.toString, position, false⟩ :: emitted⟩ := by
  obtain ⟨outside, notBlank, notQuote⟩ := isRunChar_of_ofPunctuation? found
  obtain ⟨notDigit, notWord, notSymbol⟩ := begins_eq_false outside
  rw [outcome_of_step rfl]
  simp [step, begin, notDigit, notWord, notSymbol, notBlank, notQuote, found, Except.bind]

/-- A character that begins no lexeme and is no blank is refused. -/
theorem outcome_invalid {c : Char} (outside : isRunChar c = false)
    (notBlank : Text.isBlank c = false) (notQuote : c ≠ '"')
    (notFound : Kind.ofPunctuation? c = none) :
    outcome ⟨c :: rest, position, .idle, emitted⟩ =
      .error ⟨.invalidCharacter c, position, emitted.reverse⟩ := by
  obtain ⟨notDigit, notWord, notSymbol⟩ := begins_eq_false outside
  rw [outcome_of_step rfl]
  simp [step, begin, notDigit, notWord, notSymbol, notBlank, notQuote, notFound, fail, Except.bind]

/-! ## Runs and strings -/

/-- Accepted characters are read one after the other. -/
theorem outcome_accepted {form : Form} {taken : List Char}
    (accepted : ∀ c ∈ taken, form.accepts c = true) (start : Nat) (text : List Char) :
    outcome ⟨taken ++ rest, position, .reading form start text, emitted⟩ =
      outcome ⟨rest, position + taken.length, .reading form start (taken.reverse ++ text),
        emitted⟩ := by
  induction taken generalizing position text with
  | nil => rfl
  | cons c taken ih =>
      obtain ⟨first, later⟩ := List.forall_mem_cons.mp accepted
      have moved : step ⟨c :: (taken ++ rest), position, .reading form start text, emitted⟩ c
          (taken ++ rest) =
            .ok ⟨taken ++ rest, position + 1, .reading form start (c :: text), emitted⟩ := by
        simp [step, resume, first]
      rw [List.cons_append, outcome_of_step rfl, moved]
      show outcome _ = _
      rw [ih (position + 1) later (c :: text), List.reverse_cons, List.append_assoc,
        List.length_cons, Nat.add_assoc, Nat.add_comm 1]
      rfl

/-- At the end of the text a run is closed, as it is before a character that its form refuses. -/
theorem finish_run {form : Form} (isRun : form ≠ .string) (start : Nat) (text : List Char) :
    finish ⟨[], position, .reading form start text, emitted⟩ =
      (close ⟨[], position, .idle, emitted⟩ form start text).bind outcome := by
  have finished : finish ⟨[], position, .reading form start text, emitted⟩ =
      (close ⟨[], position, .idle, emitted⟩ form start text).bind fun closed =>
        .ok (Token.endAt closed.position :: closed.emitted).reverse := by
    cases form with
    | string => exact absurd rfl isRun
    | number | word | symbol => rfl
  rw [finished]
  cases found : form.kind? (String.ofList text.reverse) with
  | none => simp only [close, found, fail, Except.bind]
  | some kind =>
      simp only [close, found, Except.bind]
      rw [outcome_of_nil rfl]
      rfl

/-- A run is closed where the text ends and before a character that its form refuses. -/
theorem outcome_refused {form : Form} (isRun : form ≠ .string)
    (refused : ∀ c ∈ rest.head?, form.accepts c = false) (start : Nat) (text : List Char) :
    outcome ⟨rest, position, .reading form start text, emitted⟩ =
      (close ⟨rest, position, .idle, emitted⟩ form start text).bind outcome := by
  cases rest with
  | nil =>
      rw [outcome_of_nil rfl]
      exact finish_run position emitted isRun start text
  | cons c rest =>
      have stops := refused c rfl
      rw [outcome_of_step rfl]
      simp only [step, resume, stops, Bool.false_eq_true, if_false, if_neg isRun]
      rfl

/-- An idle scanner reads a run to its end. -/
theorem outcome_lexeme {form : Form} (isRun : form ≠ .string) {lexeme : List Char}
    (isLexeme : Lexeme form lexeme) (refused : ∀ c ∈ rest.head?, form.accepts c = false) :
    outcome ⟨lexeme ++ rest, position, .idle, emitted⟩ =
      (close ⟨rest, position + lexeme.length, .idle, emitted⟩ form position
        lexeme.reverse).bind outcome := by
  obtain isString | ⟨c, later, rfl, begins⟩ := isLexeme.begun
  · exact absurd isString isRun
  rw [← outcome_refused _ _ _ isRun refused, ← List.append_nil (c :: later).reverse,
    ← outcome_accepted _ _ _ isLexeme.accepted]
  rw [List.cons_append, outcome_of_step rfl]
  show ((begin _ c _).bind outcome) = _
  rw [begin_run isRun begins]
  rfl

/-- A run of symbol characters that is no symbol is refused where it begins. -/
theorem outcome_unknown {run : List Char} (isLexeme : Lexeme .symbol run)
    (refused : ∀ c ∈ rest.head?, isSymbolChar c = false)
    (unknown : Kind.ofSymbol? (String.ofList run) = none) :
    outcome ⟨run ++ rest, position, .idle, emitted⟩ =
      .error ⟨.invalidSymbol (String.ofList run), position, emitted.reverse⟩ := by
  have isRun : Form.symbol ≠ .string := nofun
  rw [outcome_lexeme rest position emitted isRun isLexeme refused]
  simp only [close, Form.kind?, List.reverse_reverse, unknown, fail, Except.bind]

/-- After a quote, a string is read for as long as there is no other. -/
theorem outcome_quote {text : List Char} (unquoted : '"' ∉ text) :
    outcome ⟨'"' :: (text ++ rest), position, .idle, emitted⟩ =
      outcome ⟨rest, position + 1 + text.length, .reading .string (position + 1) text.reverse,
        emitted⟩ := by
  have accepted : ∀ c ∈ text, Form.string.accepts c = true := by
    intro c member
    simp only [Form.accepts, bne_iff_ne]
    rintro rfl
    exact unquoted member
  rw [outcome_of_step rfl, ← List.append_nil text.reverse, ← outcome_accepted _ _ _ accepted]
  rfl

/-- A string ends with the quote that closes it. -/
theorem outcome_string {text : List Char} (unquoted : '"' ∉ text) :
    outcome ⟨'"' :: (text ++ '"' :: rest), position, .idle, emitted⟩ =
      outcome ⟨rest, position + (text.length + 2), .idle,
        ⟨.string, String.ofList text, (position + 1 : Nat), false⟩ :: emitted⟩ := by
  have length : position + (text.length + 2) = position + 1 + text.length + 1 := by omega
  rw [outcome_quote _ _ _ unquoted, outcome_of_step rfl, length]
  simp only [step, resume, Form.accepts, bne_self_eq_false, Bool.false_eq_true, if_false, if_true,
    close, Form.kind?, List.reverse_reverse, Except.bind]

/-- A string that is not closed is refused, at the offset of its text. -/
theorem outcome_unterminated {text : List Char} (unquoted : '"' ∉ text) :
    outcome ⟨'"' :: text, position, .idle, emitted⟩ =
      .error ⟨.unterminatedString, position + 1, emitted.reverse⟩ := by
  rw [← List.append_nil text, outcome_quote _ _ _ unquoted, outcome_of_nil rfl]
  rfl

end Idle

end Scanner

end Lexer

end BraceLang
