import BraceLang.Token
import BraceLang.Text.Blank

/-!
# The characters of lexemes

The classes of characters that lexemes are made of. Digits, letters and symbols are ASCII only:
outside of a string, any other character is either a blank or an error.

A lexeme that can grow has a `Form`, which says by `Form.accepts` what may continue it. A character
that begins a number, a word or a symbol run also continues one (`isWordChar_of_isWordStart` for
words; the other two classes use one test for both).
-/

set_option autoImplicit false

namespace BraceLang

namespace Lexer

/-- An ASCII digit. -/
def isDigit (c : Char) : Bool :=
  '0' ≤ c && c ≤ '9'

/-- An ASCII letter. -/
def isLetter (c : Char) : Bool :=
  ('a' ≤ c && c ≤ 'z') || ('A' ≤ c && c ≤ 'Z')

/-- A character that begins a word. -/
def isWordStart (c : Char) : Bool :=
  isLetter c || c == '_'

/-- A character that continues a word. -/
def isWordChar (c : Char) : Bool :=
  isLetter c || isDigit c || c == '_'

/-- A character of a symbol run. -/
def isSymbolChar (c : Char) : Bool :=
  c == '+' || c == '-' || c == '*' || c == '/' || c == '=' || c == '!' || c == '&' || c == '|'

/-- What begins a word also continues one. -/
theorem isWordChar_of_isWordStart {c : Char} (start : isWordStart c = true) :
    isWordChar c = true := by
  simp only [isWordStart, isWordChar, Bool.or_eq_true] at start ⊢
  exact start.elim (fun letter => .inl (.inl letter)) .inr

/-! ## Forms of lexemes -/

/-- The lexemes that are read one character at a time. -/
inductive Form where
  | number
  | word
  | string
  | symbol
  deriving DecidableEq, Repr

/-- Whether a character continues a lexeme of the form. -/
def Form.accepts : Form → Char → Bool
  | .number, c => isDigit c
  | .word, c => isWordChar c
  | .string, c => c != '"'
  | .symbol, c => isSymbolChar c

/-- The kind of a finished lexeme; only a symbol run can fail to have one. -/
def Form.kind? : Form → String → Option Kind
  | .number, _ => some .numeral
  | .word, text => some (Kind.ofWord text)
  | .string, _ => some .string
  | .symbol, text => Kind.ofSymbol? text

end Lexer

end BraceLang
