import BraceLang.Lexer.Alphabet

/-!
# The scanner

Source text is read by a machine that looks at one character at a time. Between lexemes it is
`idle`; otherwise it is `reading` a lexeme of some form. Two of its moves consume nothing: an idle
scanner that meets the first character of a number, a word or a symbol run only changes to reading,
and a reading scanner that meets a character which does not continue its lexeme only emits the
token. In both cases the character is looked at again.

The scanner still comes to an end. `Scanner.measure` counts three for every character left, and for
the next character two if the lexeme being read refuses it, one if the scanner is idle, none if the
lexeme accepts it. `step_measure` shows that every move decreases it, so `Scanner.run` needs no more
moves than the measure of the scanner it starts from (`run_rest`).
-/

set_option autoImplicit false

namespace BraceLang

namespace Lexer

/-! ## Failures -/

/-- Why a text cannot be read. -/
inductive Fault where
  | invalidCharacter (character : Char)
  | invalidSymbol (run : String)
  | unterminatedString
  deriving DecidableEq, Repr

/-- The wording of a fault. -/
def Fault.message : Fault → String
  | .invalidCharacter character => "Invalid character '" ++ character.toString ++ "'"
  | .invalidSymbol run => "Invalid symbol '" ++ run ++ "'"
  | .unterminatedString => "Unterminated string literal"

/-- A fault, its offset, and the tokens that had been emitted before it. -/
structure Failure where
  fault : Fault
  offset : Nat
  emitted : List Token
  deriving DecidableEq, Repr

/-! ## States and moves -/

/-- What the scanner is doing. The characters of the lexeme being read are kept newest first. -/
inductive Activity where
  | idle
  | reading (form : Form) (start : Nat) (text : List Char)
  deriving DecidableEq, Repr

/-- The state of the scanner: the characters not yet consumed, how many have been, the activity,
and the tokens emitted so far, newest first. -/
structure Scanner where
  rest : List Char
  position : Nat
  activity : Activity
  emitted : List Token
  deriving DecidableEq, Repr

namespace Scanner

/-- The scanner at the start of a text. -/
def start (source : List Char) : Scanner :=
  ⟨source, 0, .idle, []⟩

/-- Failure with a fault at an offset, after the tokens emitted so far. -/
def fail {α : Type} (scanner : Scanner) (fault : Fault) (offset : Nat) : Except Failure α :=
  .error ⟨fault, offset, scanner.emitted.reverse⟩

/-- The token of a finished lexeme is emitted and the scanner is idle again. -/
def close (scanner : Scanner) (form : Form) (start : Nat) (text : List Char) :
    Except Failure Scanner :=
  let lexeme := String.ofList text.reverse
  match form.kind? lexeme with
  | some kind =>
    .ok { scanner with
      activity := .idle
      emitted := ⟨kind, lexeme, start, false⟩ :: scanner.emitted }
  | none => scanner.fail (.invalidSymbol lexeme) start

/-- The move of an idle scanner on the next character. -/
def begin (scanner : Scanner) (c : Char) (rest : List Char) : Except Failure Scanner :=
  if isDigit c then
    .ok { scanner with activity := .reading .number scanner.position [] }
  else if isWordStart c then
    .ok { scanner with activity := .reading .word scanner.position [] }
  else if isSymbolChar c then
    .ok { scanner with activity := .reading .symbol scanner.position [] }
  else if Text.isBlank c then
    .ok { scanner with rest := rest, position := scanner.position + 1 }
  else if c = '"' then
    .ok { scanner with
      rest := rest
      position := scanner.position + 1
      activity := .reading .string (scanner.position + 1) [] }
  else
    match Kind.ofPunctuation? c with
    | some kind =>
      .ok { scanner with
        rest := rest
        position := scanner.position + 1
        emitted := ⟨kind, c.toString, scanner.position, false⟩ :: scanner.emitted }
    | none => scanner.fail (.invalidCharacter c) scanner.position

/-- The move of a scanner in the middle of a lexeme. A string's closing quote is consumed with the
string; any other character that ends a lexeme is left for the next move. -/
def resume (scanner : Scanner) (form : Form) (start : Nat) (text : List Char) (c : Char)
    (rest : List Char) : Except Failure Scanner :=
  if form.accepts c then
    .ok { scanner with
      rest := rest
      position := scanner.position + 1
      activity := .reading form start (c :: text) }
  else if form = .string then
    { scanner with rest := rest, position := scanner.position + 1 }.close form start text
  else
    scanner.close form start text

/-- One move on the next character `c`, where `rest` follows it. -/
def step (scanner : Scanner) (c : Char) (rest : List Char) : Except Failure Scanner :=
  match scanner.activity with
  | .idle => scanner.begin c rest
  | .reading form start text => scanner.resume form start text c rest

/-- Up to `moves` moves, fewer if the text ends before. -/
def run : Nat → Scanner → Except Failure Scanner
  | 0, scanner => .ok scanner
  | moves + 1, scanner =>
    match scanner.rest with
    | [] => .ok scanner
    | c :: rest => (scanner.step c rest).bind (run moves)

/-- The tokens of a scanner whose text is at its end. An open string is a failure, any other lexeme
is complete. -/
def finish (scanner : Scanner) : Except Failure (List Token) := do
  let closed ←
    match scanner.activity with
    | .idle => .ok scanner
    | .reading .string start _ => scanner.fail .unterminatedString start
    | .reading form start text => scanner.close form start text
  return (Token.endAt closed.position :: closed.emitted).reverse

/-! ## Termination -/

/-- What the next character contributes to the measure. -/
def phase (scanner : Scanner) : Nat :=
  match scanner.activity, scanner.rest with
  | .idle, _ => 1
  | .reading _ _ _, [] => 0
  | .reading form _ _, c :: _ => if form.accepts c then 0 else 2

/-- A bound on the number of moves to the end of the text. -/
def measure (scanner : Scanner) : Nat :=
  3 * scanner.rest.length + scanner.phase

/-- The next character contributes at most two. -/
theorem phase_le (scanner : Scanner) : scanner.phase ≤ 2 := by
  unfold phase
  split <;> (try split) <;> omega

/-- A move that consumes a character decreases the measure, whatever the next character is. -/
theorem measure_lt_of_consumed {scanner next : Scanner}
    (consumed : next.rest.length < scanner.rest.length) : next.measure < scanner.measure := by
  have bound := phase_le next
  unfold measure
  omega

/-- An idle scanner that begins a lexeme which accepts the next character. -/
theorem measure_lt_of_begun {scanner : Scanner} {form : Form} {start : Nat} {text : List Char}
    {c : Char} {rest : List Char} (idle : scanner.activity = .idle)
    (ahead : scanner.rest = c :: rest) (accepted : form.accepts c = true) :
    ({ scanner with activity := .reading form start text } : Scanner).measure
      < scanner.measure := by
  simp [measure, phase, idle, ahead, accepted]

/-- A scanner that leaves a lexeme which refuses the next character. -/
theorem measure_lt_of_closed {scanner : Scanner} {form : Form} {start : Nat} {text : List Char}
    {c : Char} {rest : List Char} {emitted : List Token}
    (reading : scanner.activity = .reading form start text)
    (ahead : scanner.rest = c :: rest) (refused : form.accepts c = false) :
    ({ scanner with activity := .idle, emitted := emitted } : Scanner).measure
      < scanner.measure := by
  simp [measure, phase, reading, ahead, refused]

/-- Every move decreases the measure. -/
theorem step_measure {scanner next : Scanner} {c : Char} {rest : List Char}
    (ahead : scanner.rest = c :: rest) (moved : scanner.step c rest = .ok next) :
    next.measure < scanner.measure := by
  unfold step at moved
  split at moved
  · next idle =>
    unfold begin at moved
    split at moved
    · next digit => cases moved; exact measure_lt_of_begun idle ahead digit
    split at moved
    · next letter =>
      cases moved; exact measure_lt_of_begun idle ahead (isWordChar_of_isWordStart letter)
    split at moved
    · next symbol => cases moved; exact measure_lt_of_begun idle ahead symbol
    split at moved
    · cases moved; exact measure_lt_of_consumed (by simp [ahead])
    split at moved
    · cases moved; exact measure_lt_of_consumed (by simp [ahead])
    split at moved
    · cases moved; exact measure_lt_of_consumed (by simp [ahead])
    · cases moved
  · next form start text reading =>
    unfold resume at moved
    split at moved
    · cases moved; exact measure_lt_of_consumed (by simp [ahead])
    · next refused =>
      have refused : form.accepts c = false := Bool.eq_false_iff.mpr refused
      split at moved
      all_goals simp only [close] at moved
      all_goals split at moved
      · cases moved; exact measure_lt_of_consumed (by simp [ahead])
      · cases moved
      · cases moved; exact measure_lt_of_closed reading ahead refused
      · cases moved

/-- With as many moves as the measure, the text is read to its end. -/
theorem run_rest {moves : Nat} {scanner last : Scanner} (enough : scanner.measure ≤ moves)
    (ran : run moves scanner = .ok last) : last.rest = [] := by
  induction moves generalizing scanner with
  | zero =>
    obtain rfl : scanner = last := Except.ok.inj ran
    have none_left : scanner.rest.length = 0 := by
      unfold measure at enough
      omega
    exact List.length_eq_zero_iff.mp none_left
  | succ moves ih =>
    unfold run at ran
    split at ran
    · next atEnd => cases ran; exact atEnd
    · next c rest ahead =>
      cases moved : scanner.step c rest with
      | error failure => simp [moved, Except.bind] at ran
      | ok next =>
        simp only [moved, Except.bind] at ran
        exact ih (by have := step_measure ahead moved; omega) ran

end Scanner

end Lexer

/-! ## Reading a text -/

/-- The tokens of a text, closed by `endOfInput`. -/
def tokenize (source : String) : Except Lexer.Failure (List Token) := do
  let scanner := Lexer.Scanner.start source.toList
  (← Lexer.Scanner.run scanner.measure scanner).finish

end BraceLang
