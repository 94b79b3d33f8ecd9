import BraceLang.Text.Printable

/-!
# Quoted text

The one-line form in which listings show a text: between quotes, with the quote in use, the
backslash and every unprintable character escaped. Single quotes are used unless the text holds a
single quote and no double quote, so a text is never escaped more than it needs to be.

Unprintable characters are written by code point in lower case hexadecimal, with the shortest of
three fixed widths: two digits after `x`, four after `u`, eight after `U`.
-/

set_option autoImplicit false

namespace BraceLang.Text

/-- The lower case hexadecimal digits of a number, padded with zeros to a width. -/
def hexadecimal (width value : Nat) : List Char :=
  let digits := Nat.toDigits 16 value
  List.replicate (width - digits.length) '0' ++ digits

/-- An unprintable character written by its code point. -/
def escapeCode (c : Char) : List Char :=
  let code := c.toNat
  if code < 0x100 then '\\' :: 'x' :: hexadecimal 2 code
  else if code < 0x10000 then '\\' :: 'u' :: hexadecimal 4 code
  else '\\' :: 'U' :: hexadecimal 8 code

/-- One character of a text between quotes of the given kind. -/
def quoteChar (mark c : Char) : List Char :=
  if c = mark ∨ c = '\\' then ['\\', c]
  else if c = '\n' then ['\\', 'n']
  else if c = '\r' then ['\\', 'r']
  else if c = '\t' then ['\\', 't']
  else if isPrintable c then [c]
  else escapeCode c

/-- The quote that a text is written with. -/
def quoteMark (characters : List Char) : Char :=
  if '\'' ∈ characters ∧ '"' ∉ characters then '"' else '\''

/-- The quoted form of a text. -/
def quote (text : String) : String :=
  let characters := text.toList
  let mark := quoteMark characters
  String.ofList (mark :: characters.flatMap (quoteChar mark) ++ [mark])

end BraceLang.Text
