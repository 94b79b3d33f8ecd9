/-!
# Blank characters

The characters that separate lexemes and that are trimmed from entries, commands and environment
flags. The class is wider than the five ASCII blanks: it also holds the four information
separators and every space and line separator of the wider character set, and it is given here as
a table of code point ranges.

`trim` removes blanks at both ends, and `headWord` cuts a trimmed text at its first run of blanks.
Words that are compared without regard to case are ASCII words, so `lower` maps ASCII letters only:
no character outside of ASCII has a lower case form that occurs in such a word.
-/

set_option autoImplicit false

namespace BraceLang.Text

/-! ## Tables of code points -/

/-- Whether a character's code point lies in one of the closed ranges of a table. -/
def inRanges (ranges : List (Nat × Nat)) (c : Char) : Bool :=
  ranges.any fun range => range.1 ≤ c.toNat && c.toNat ≤ range.2

/-- The code point ranges of the blank characters. -/
def blankRanges : List (Nat × Nat) :=
  [(0x09, 0x0D), (0x1C, 0x20), (0x85, 0x85), (0xA0, 0xA0), (0x1680, 0x1680), (0x2000, 0x200A),
    (0x2028, 0x2029), (0x202F, 0x202F), (0x205F, 0x205F), (0x3000, 0x3000)]

/-- A blank character. -/
def isBlank (c : Char) : Bool :=
  inRanges blankRanges c

/-! ## Trimming -/

/-- The characters left when those of a class are dropped at both ends. -/
def dropEnds (dropped : Char → Bool) (characters : List Char) : List Char :=
  ((characters.dropWhile dropped).reverse.dropWhile dropped).reverse

/-- A text without its leading and trailing blanks. -/
def trim (text : String) : String :=
  String.ofList (dropEnds isBlank text.toList)

/-- Whether a text holds nothing but blanks. -/
def allBlank (text : String) : Bool :=
  text.toList.all isBlank

/-! ## Words -/

/-- A text with its ASCII letters in lower case. -/
def lower (text : String) : String :=
  String.ofList (text.toList.map Char.toLower)

/-- The first word of a text that starts with none of the blanks, and what follows the run of
blanks after it. -/
def headWord (text : String) : String × String :=
  let characters := text.toList
  let tail := characters.dropWhile fun c => !isBlank c
  (String.ofList (characters.takeWhile fun c => !isBlank c), String.ofList (tail.dropWhile isBlank))

end BraceLang.Text
