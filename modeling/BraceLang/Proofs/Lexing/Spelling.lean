import BraceLang.Lexer.Scanner

/-!
# How tokens are spelled

The kind of a token and its text belong together: a numeral is a run of digits, an operator is the
spelling of an operator, a word is no keyword. `Spelled kind text` lists the possible texts of each
kind, by the forms of lexemes and by lists of the keywords, operators and punctuation marks. These
lists are those of the scanner (`mem_marks_iff`, `mem_operators_iff`, `ofWord_of_keyword`).

The scanner emits such tokens only (`Scanner.step_sound`, `Scanner.run_sound`), so the tokens of a
text are spelled, up to the end of input that closes them (`spelled_of_tokenize`).
-/

set_option autoImplicit false

namespace BraceLang

namespace Lexer

/-! ## Spellings -/

/-- Whether a character begins a lexeme of the form. -/
def Form.begins : Form → Char → Bool
  | .word, c => isWordStart c
  | form, c => form.accepts c

theorem Form.accepts_of_begins {form : Form} {c : Char} (begins : form.begins c = true) :
    form.accepts c = true := by
  cases form with
  | word => exact isWordChar_of_isWordStart begins
  | number => exact begins
  | string => exact begins
  | symbol => exact begins

/-- Some characters are a lexeme of the form; only strings may be empty. -/
structure Lexeme (form : Form) (characters : List Char) : Prop where
  accepted : ∀ c ∈ characters, form.accepts c = true
  begun : form = .string ∨ ∃ c rest, characters = c :: rest ∧ form.begins c = true

/-- The keywords. -/
def keywords : List (String × Kind) :=
  [("if", .ifWord), ("while", .whileWord), ("for", .forWord), ("else", .elseWord), ("fn", .fnWord)]

/-- The spellings of the operators. -/
def operators : List String :=
  ["+", "-", "*", "/", "==", "!=", "&&", "||"]

/-- The punctuation marks. -/
def marks : List (Char × Kind) :=
  [('\x7b', .openBrace), ('\x7d', .closeBrace), ('(', .openParen), (')', .closeParen), (',', .comma)]

/-- A token of the kind can have the text. -/
inductive Spelled : Kind → String → Prop where
  | numeral {text : String} : Lexeme .number text.toList → Spelled .numeral text
  | string {text : String} : Lexeme .string text.toList → Spelled .string text
  | keyword {kind : Kind} {text : String} : (text, kind) ∈ keywords → Spelled kind text
  | identifier {text : String} :
      Lexeme .word text.toList → (∀ kind, (text, kind) ∉ keywords) → Spelled .identifier text
  | assign : Spelled .assign "="
  | operator {text : String} : text ∈ operators → Spelled .operator text
  | punctuation {c : Char} {kind : Kind} : (c, kind) ∈ marks → Spelled kind c.toString

/-! ## The tables of the scanner -/

theorem mem_marks_iff {c : Char} {kind : Kind} :
    (c, kind) ∈ marks ↔ Kind.ofPunctuation? c = some kind := by
  refine ⟨fun member => ?_, fun found => ?_⟩
  · have all : ∀ mark ∈ marks, Kind.ofPunctuation? mark.1 = some mark.2 := by decide
    exact all (c, kind) member
  · unfold Kind.ofPunctuation? at found
    split at found <;> cases found <;> decide

theorem mem_operators_iff {text : String} :
    text ∈ operators ↔ ∃ operator, Operator.ofText? text = some operator := by
  refine ⟨fun member => ?_, ?_⟩
  · have all : ∀ text ∈ operators, (Operator.ofText? text).isSome := by decide
    exact Option.isSome_iff_exists.mp (all text member)
  · rintro ⟨operator, known⟩
    unfold Operator.ofText? at known
    split at known <;> cases known <;> decide

theorem ofWord_of_keyword {kind : Kind} {text : String} (member : (text, kind) ∈ keywords) :
    Kind.ofWord text = kind := by
  have all : ∀ keyword ∈ keywords, Kind.ofWord keyword.1 = keyword.2 := by decide
  exact all (text, kind) member

/-- A word that is no keyword is an identifier. -/
theorem ofWord_of_identifier {text : String} (other : ∀ kind, (text, kind) ∉ keywords) :
    Kind.ofWord text = .identifier := by
  unfold Kind.ofWord
  split
  · exact absurd (by decide) (other .ifWord)
  · exact absurd (by decide) (other .whileWord)
  · exact absurd (by decide) (other .forWord)
  · exact absurd (by decide) (other .elseWord)
  · exact absurd (by decide) (other .fnWord)
  · rfl

/-- Keywords are words. -/
theorem lexeme_of_keyword {kind : Kind} {text : String} (member : (text, kind) ∈ keywords) :
    Lexeme .word text.toList := by
  have all : ∀ keyword ∈ keywords, keyword.1.toList.all (Form.word.accepts ·) = true ∧
      (keyword.1.toList.head?.any (Form.word.begins ·)) = true := by decide
  obtain ⟨accepted, begun⟩ := all (text, kind) member
  refine ⟨List.all_eq_true.mp accepted, .inr ?_⟩
  cases characters : text.toList with
  | nil =>
      rw [characters] at begun
      cases begun
  | cons c rest =>
      rw [characters] at begun
      exact ⟨c, rest, rfl, begun⟩

namespace Spelled

/-- A word spells a keyword or an identifier. -/
theorem word {text : String} (lexeme : Lexeme .word text.toList) :
    Spelled (Kind.ofWord text) text := by
  by_cases isKeyword : ∃ kind, (text, kind) ∈ keywords
  · obtain ⟨kind, member⟩ := isKeyword
    rw [ofWord_of_keyword member]
    exact .keyword member
  · have other := not_exists.mp isKeyword
    rw [ofWord_of_identifier other]
    exact .identifier lexeme other

/-- A lexeme spells the kind that it is given. -/
theorem of_kind? {form : Form} {text : String} {kind : Kind} (lexeme : Lexeme form text.toList)
    (found : form.kind? text = some kind) : Spelled kind text := by
  cases form with
  | number =>
      cases found
      exact .numeral lexeme
  | string =>
      cases found
      exact .string lexeme
  | word =>
      cases found
      exact .word lexeme
  | symbol =>
      simp only [Form.kind?, Kind.ofSymbol?] at found
      split at found
      · next isAssign =>
          cases found
          subst isAssign
          exact .assign
      · obtain ⟨operator, known, rfl⟩ := Option.map_eq_some_iff.mp found
        exact .operator (mem_operators_iff.mpr ⟨operator, known⟩)

/-- No text spells the end of the input. -/
theorem ne_endOfInput {kind : Kind} {text : String} (spelled : Spelled kind text) :
    kind ≠ .endOfInput := by
  rintro rfl
  cases spelled with
  | keyword member => simp [keywords] at member
  | punctuation member => simp [marks] at member

/-- A numeral is a run of digits. -/
theorem digits {text : String} (spelled : Spelled .numeral text) : Lexeme .number text.toList := by
  cases spelled with
  | numeral lexeme => exact lexeme
  | keyword member => simp [keywords] at member
  | punctuation member => simp [marks] at member

/-- A string has no quote inside. -/
theorem unquoted {kind : Kind} {text : String} (spelled : Spelled kind text)
    (isString : kind = .string) : '"' ∉ text.toList := by
  subst isString
  cases spelled with
  | string lexeme =>
      intro member
      exact absurd (lexeme.accepted _ member) (by decide)
  | keyword member => simp [keywords] at member
  | punctuation member => simp [marks] at member

/-- An operator token is spelled as an operator. -/
theorem known {text : String} (spelled : Spelled .operator text) :
    ∃ operator, Operator.ofText? text = some operator := by
  cases spelled with
  | operator member => exact mem_operators_iff.mp member
  | keyword member => simp [keywords] at member
  | punctuation member => simp [marks] at member

end Spelled

/-! ## The tokens of the scanner -/

/-- The lexeme that is being read, together with the characters ahead, begins as its form does. -/
def Activity.Sound (ahead : List Char) : Activity → Prop
  | .idle => True
  | .reading form _ text =>
    (∀ c ∈ text, form.accepts c = true) ∧
      (form = .string ∨ ∃ c rest, text.reverse ++ ahead = c :: rest ∧ form.begins c = true)

namespace Scanner

/-- The tokens that were emitted are spelled, and so will be the one that is being read. -/
structure Sound (scanner : Scanner) : Prop where
  activity : scanner.activity.Sound scanner.rest
  emitted : ∀ token ∈ scanner.emitted, Spelled token.kind token.text

theorem sound_start (source : List Char) : (start source).Sound :=
  ⟨trivial, fun _ => nofun⟩

/-- A lexeme is complete where it ends. -/
theorem close_sound {scanner next : Scanner} {form : Form} {start : Nat} {text : List Char}
    (emitted : ∀ token ∈ scanner.emitted, Spelled token.kind token.text)
    (lexeme : Lexeme form text.reverse) (closed : scanner.close form start text = .ok next) :
    next.Sound := by
  simp only [close] at closed
  split at closed
  · next kind found =>
      cases closed
      rw [← @String.toList_ofList text.reverse] at lexeme
      exact ⟨trivial, List.forall_mem_cons.mpr ⟨.of_kind? lexeme found, emitted⟩⟩
  · cases closed

/-- A lexeme that refuses the next character has begun before it. -/
theorem lexeme_of_refused {form : Form} {start : Nat} {text : List Char} {c : Char}
    {rest : List Char} (sound : (Activity.reading form start text).Sound (c :: rest))
    (refused : form.accepts c = false) : Lexeme form text.reverse := by
  obtain ⟨accepted, begun⟩ := sound
  refine ⟨fun d member => accepted d (List.mem_reverse.mp member), ?_⟩
  rcases begun with isString | ⟨d, later, same, begins⟩
  · exact .inl isString
  · cases reversed : text.reverse with
    | nil =>
        -- if nothing was read, the refused character is the one that began the lexeme
        rw [reversed] at same
        cases same
        rw [Form.accepts_of_begins begins] at refused
        cases refused
    | cons e others =>
        rw [reversed] at same
        cases same
        exact .inr ⟨d, others, rfl, begins⟩

theorem begin_sound {scanner next : Scanner} {c : Char} {rest : List Char}
    (sound : scanner.Sound) (ahead : scanner.rest = c :: rest) (idle : scanner.activity = .idle)
    (moved : scanner.begin c rest = .ok next) : next.Sound := by
  have begun {form : Form} {start : Nat} (begins : form.begins c = true) :
      Sound { scanner with activity := .reading form start [] } :=
    ⟨⟨fun _ => nofun, .inr ⟨c, rest, ahead, begins⟩⟩, sound.emitted⟩
  unfold begin at moved
  split at moved
  · next digit => cases moved; exact begun digit
  split at moved
  · next letter => cases moved; exact begun letter
  split at moved
  · next symbol => cases moved; exact begun symbol
  split at moved
  · cases moved
    refine ⟨?_, sound.emitted⟩
    show scanner.activity.Sound rest
    rw [idle]
    trivial
  split at moved
  · cases moved
    exact ⟨⟨fun _ => nofun, .inl rfl⟩, sound.emitted⟩
  split at moved
  · next kind found =>
      cases moved
      refine ⟨?_, List.forall_mem_cons.mpr ⟨.punctuation (mem_marks_iff.mpr found), sound.emitted⟩⟩
      show scanner.activity.Sound rest
      rw [idle]
      trivial
  · cases moved

theorem resume_sound {scanner next : Scanner} {form : Form} {start : Nat} {text : List Char}
    {c : Char} {rest : List Char} (sound : scanner.Sound) (ahead : scanner.rest = c :: rest)
    (reading : scanner.activity = .reading form start text)
    (moved : scanner.resume form start text c rest = .ok next) : next.Sound := by
  have activity : (Activity.reading form start text).Sound (c :: rest) := by
    have activity := sound.activity
    rwa [reading, ahead] at activity
  unfold resume at moved
  split at moved
  · next accepted =>
      cases moved
      refine ⟨⟨fun d member => ?_, ?_⟩, sound.emitted⟩
      · rcases List.mem_cons.mp member with rfl | earlier
        · exact accepted
        · exact activity.1 d earlier
      · rw [List.reverse_cons, List.append_assoc]
        exact activity.2
  · next refused =>
      have lexeme := lexeme_of_refused activity (Bool.eq_false_iff.mpr refused)
      split at moved
      · refine close_sound ?_ lexeme moved
        exact sound.emitted
      · exact close_sound sound.emitted lexeme moved

/-- **Every move keeps the tokens spelled.** -/
theorem step_sound {scanner next : Scanner} {c : Char} {rest : List Char}
    (sound : scanner.Sound) (ahead : scanner.rest = c :: rest)
    (moved : scanner.step c rest = .ok next) : next.Sound := by
  unfold step at moved
  split at moved
  · next idle => exact begin_sound sound ahead idle moved
  · next form start text reading => exact resume_sound sound ahead reading moved

theorem run_sound {moves : Nat} {scanner last : Scanner} (sound : scanner.Sound)
    (ran : run moves scanner = .ok last) : last.Sound := by
  induction moves generalizing scanner with
  | zero =>
      cases ran
      exact sound
  | succ moves ih =>
      unfold run at ran
      split at ran
      · cases ran
        exact sound
      · next c rest ahead =>
          cases moved : scanner.step c rest with
          | error failure =>
              rw [moved] at ran
              cases ran
          | ok next =>
              rw [moved] at ran
              exact ih (step_sound sound ahead moved) ran

/-- At the end of the text, the last lexeme is complete too. -/
theorem finish_spelled {scanner : Scanner} {list : List Token} (sound : scanner.Sound)
    (atEnd : scanner.rest = []) (finished : scanner.finish = .ok list) :
    ∃ tokens offset, list = tokens ++ [Token.endAt offset] ∧
      ∀ token ∈ tokens, Spelled token.kind token.text := by
  have collected {closed : Scanner} (sound : closed.Sound) :
      ∃ tokens offset, (Token.endAt closed.position :: closed.emitted).reverse =
          tokens ++ [Token.endAt offset] ∧ ∀ token ∈ tokens, Spelled token.kind token.text := by
    refine ⟨closed.emitted.reverse, closed.position, List.reverse_cons, ?_⟩
    intro token member
    exact sound.emitted token (List.mem_reverse.mp member)
  unfold finish at finished
  split at finished
  · cases finished
    exact collected sound
  · cases finished
  · next form start text _ reading =>
      obtain ⟨accepted, begun⟩ : (Activity.reading form start text).Sound [] := by
        have activity := sound.activity
        rwa [reading, atEnd] at activity
      rw [List.append_nil] at begun
      have lexeme : Lexeme form text.reverse :=
        ⟨fun c member => accepted c (List.mem_reverse.mp member), begun⟩
      cases ended : scanner.close form start text with
      | error failure =>
          rw [ended] at finished
          cases finished
      | ok closed =>
          rw [ended] at finished
          cases finished
          exact collected (close_sound sound.emitted lexeme ended)

end Scanner

/-- **Spelling.** The tokens of a text are spelled, and an end of input closes them. -/
theorem spelled_of_tokenize {source : String} {list : List Token}
    (read : tokenize source = .ok list) :
    ∃ tokens offset, list = tokens ++ [Token.endAt offset] ∧
      ∀ token ∈ tokens, Spelled token.kind token.text := by
  unfold tokenize at read
  cases ran : Scanner.run (Scanner.start source.toList).measure (Scanner.start source.toList) with
  | error failure =>
      simp only [ran] at read
      cases read
  | ok last =>
      simp only [ran] at read
      exact Scanner.finish_spelled (Scanner.run_sound (Scanner.sound_start _) ran)
        (Scanner.run_rest (Nat.le_refl _) ran) read

end Lexer

end BraceLang
