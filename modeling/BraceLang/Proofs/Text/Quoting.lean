import Mathlib.Data.Nat.Digits.Defs
import Mathlib.Logic.Function.Basic
import BraceLang.Text.Quoted

/-!
# Quoted texts read back

A quoted text is one line (`newline_notMem_quote`), and no two texts are quoted alike
(`quote_injective`). The second is shown by reading: what is written for one character can be taken
off the front of a quoted text, whatever follows it (`readChar_quoteChar`), because an escape names
its own width and its digits denote the code point (`hexValue_hexadecimal`).
-/

set_option autoImplicit false

namespace BraceLang.Text

/-! ## Hexadecimal numbers -/

/-- The value of a lower case hexadecimal digit. -/
def hexDigit (c : Char) : Nat :=
  if c.toNat < 0x3A then c.toNat - 0x30 else c.toNat - 0x57

/-- The number that hexadecimal digits denote. -/
def hexValue (digits : List Char) : Nat :=
  digits.foldl (fun value c => 16 * value + hexDigit c) 0

theorem hexDigit_digitChar : ∀ digit < 16, hexDigit (Nat.digitChar digit) = digit := by
  decide

theorem digitChar_ne_newline : ∀ digit < 16, Nat.digitChar digit ≠ '\n' := by
  decide

theorem hexValue_concat (digits : List Char) (c : Char) :
    hexValue (digits ++ [c]) = 16 * hexValue digits + hexDigit c := by
  rw [hexValue, List.foldl_append, List.foldl_cons, List.foldl_nil, hexValue]

theorem hexValue_toDigits (value : Nat) : hexValue (Nat.toDigits 16 value) = value := by
  induction value using Nat.strongRecOn with
  | ind value ih =>
      rcases Nat.lt_or_ge value 16 with one | more
      · rw [Nat.toDigits_of_lt_base one]
        exact (Nat.zero_add _).trans (hexDigit_digitChar value one)
      · have last : value % 16 < 16 := Nat.mod_lt value (by decide)
        rw [Nat.toDigits_of_base_le (by decide) more, hexValue_concat, ih (value / 16) (by omega),
          hexDigit_digitChar _ last, Nat.div_add_mod]

/-- Zeros in front change nothing. -/
theorem hexValue_hexadecimal (width value : Nat) :
    hexValue (hexadecimal width value) = value := by
  have zeros (count : Nat) :
      (List.replicate count '0').foldl (fun value c => 16 * value + hexDigit c) 0 = 0 := by
    induction count with
    | zero => rfl
    | succ count ih => exact ih
  rw [hexadecimal, hexValue, List.foldl_append, zeros]
  exact hexValue_toDigits value

theorem length_hexadecimal {width value : Nat} (positive : 0 < width)
    (short : value < 16 ^ width) : (hexadecimal width value).length = width := by
  have digits := (Nat.length_toDigits_le_iff (by decide) positive).mpr short
  rw [hexadecimal, List.length_append, List.length_replicate]
  omega

theorem newline_notMem_hexadecimal (width value : Nat) : '\n' ∉ hexadecimal width value := by
  have digits : '\n' ∉ Nat.toDigits 16 value := by
    induction value using Nat.strongRecOn with
    | ind value ih =>
        rcases Nat.lt_or_ge value 16 with one | more
        · rw [Nat.toDigits_of_lt_base one, List.mem_singleton]
          exact (digitChar_ne_newline value one).symm
        · have last : value % 16 < 16 := Nat.mod_lt value (by decide)
          rw [Nat.toDigits_of_base_le (by decide) more, List.mem_append, List.mem_singleton, not_or]
          exact ⟨ih (value / 16) (by omega), (digitChar_ne_newline _ last).symm⟩
  simp [hexadecimal, digits]

/-! ## Reading a character -/

/-- The character with the code point that the next digits denote, and what follows them. -/
def readCode (width : Nat) (characters : List Char) : Char × List Char :=
  (Char.ofNat (hexValue (characters.take width)), characters.drop width)

/-- The character at the front of a quoted text, and what follows it. -/
def readChar : List Char → Option (Char × List Char)
  | [] => none
  | '\\' :: 'n' :: rest => some ('\n', rest)
  | '\\' :: 'r' :: rest => some ('\r', rest)
  | '\\' :: 't' :: rest => some ('\t', rest)
  | '\\' :: 'x' :: rest => some (readCode 2 rest)
  | '\\' :: 'u' :: rest => some (readCode 4 rest)
  | '\\' :: 'U' :: rest => some (readCode 8 rest)
  | '\\' :: c :: rest => some (c, rest)
  | c :: rest => some (c, rest)

theorem readCode_hexadecimal {width : Nat} {c : Char} (positive : 0 < width)
    (short : c.toNat < 16 ^ width) (rest : List Char) :
    readCode width (hexadecimal width c.toNat ++ rest) = (c, rest) := by
  have length := length_hexadecimal positive short
  rw [readCode, List.take_left' length, List.drop_left' length, hexValue_hexadecimal,
    Char.ofNat_toNat]

theorem readChar_escapeCode (c : Char) (rest : List Char) :
    readChar (escapeCode c ++ rest) = some (c, rest) := by
  have bound : c.toNat < 0x110000 := by
    have valid := c.valid
    simp only [UInt32.isValidChar, Nat.isValidChar] at valid
    simp only [Char.toNat]
    omega
  simp only [escapeCode]
  split_ifs with short medium
  · exact congrArg some (readCode_hexadecimal (by decide) short rest)
  · exact congrArg some (readCode_hexadecimal (by decide) medium rest)
  · exact congrArg some (readCode_hexadecimal (by decide) (by omega) rest)

/-- A character that stands for itself is not a backslash. -/
theorem readChar_plain {c : Char} (plain : c ≠ '\\') (rest : List Char) :
    readChar (c :: rest) = some (c, rest) := by
  unfold readChar
  split <;> simp_all

variable {mark : Char} (isMark : mark = '\'' ∨ mark = '"')

include isMark

/-- **Characters read back.** Reading what is written for a character gives the character. -/
theorem readChar_quoteChar (c : Char) (rest : List Char) :
    readChar (quoteChar mark c ++ rest) = some (c, rest) := by
  unfold quoteChar
  split_ifs with special isNewline isReturn isTab
  · rcases special with rfl | rfl
    · rcases isMark with rfl | rfl <;> rfl
    · rfl
  · subst isNewline
    rfl
  · subst isReturn
    rfl
  · subst isTab
    rfl
  · exact readChar_plain (fun same => special (.inr same)) rest
  · exact readChar_escapeCode c rest

/-- Character by character, no two texts are written alike. -/
theorem flatMap_quoteChar_injective : Function.Injective (List.flatMap (quoteChar mark)) := by
  intro characters
  induction characters with
  | nil =>
      intro others same
      cases others with
      | nil => rfl
      | cons c rest =>
          have read := readChar_quoteChar isMark c (rest.flatMap (quoteChar mark))
          rw [← List.flatMap_cons, ← same] at read
          cases read
  | cons c rest ih =>
      intro others same
      have read := readChar_quoteChar isMark c (rest.flatMap (quoteChar mark))
      rw [← List.flatMap_cons, same] at read
      cases others with
      | nil => cases read
      | cons other others =>
          rw [List.flatMap_cons, readChar_quoteChar isMark] at read
          obtain ⟨rfl, tail⟩ := Prod.mk.inj (Option.some.inj read)
          rw [ih tail.symm]

theorem newline_notMem_quoteChar (c : Char) : '\n' ∉ quoteChar mark c := by
  have markNe : '\n' ≠ mark := by
    rcases isMark with rfl | rfl <;> decide
  unfold quoteChar
  split_ifs with special isNewline
  · rcases special with rfl | rfl
    · simp [markNe]
    · decide
  · decide
  · decide
  · decide
  · simpa using fun same => isNewline same.symm
  · simp only [escapeCode]
    split_ifs <;> simp [newline_notMem_hexadecimal]

omit isMark

/-! ## Quoted texts -/

theorem quoteMark_eq_or (characters : List Char) :
    quoteMark characters = '\'' ∨ quoteMark characters = '"' := by
  unfold quoteMark
  split
  · exact .inr rfl
  · exact .inl rfl

theorem toList_quote (text : String) :
    (quote text).toList = quoteMark text.toList ::
      text.toList.flatMap (quoteChar (quoteMark text.toList)) ++ [quoteMark text.toList] := by
  rw [quote, String.toList_ofList]

/-- **A quoted text is one line.** -/
theorem newline_notMem_quote (text : String) : '\n' ∉ (quote text).toList := by
  have isMark := quoteMark_eq_or text.toList
  have markNe : '\n' ≠ quoteMark text.toList := by
    rcases isMark with isMark | isMark <;> rw [isMark] <;> decide
  rw [toList_quote, List.cons_append, List.mem_cons, List.mem_append, List.mem_singleton,
    List.mem_flatMap]
  rintro (same | ⟨c, -, member⟩ | same)
  · exact markNe same
  · exact newline_notMem_quoteChar isMark c member
  · exact markNe same

/-- **No two texts are quoted alike.** The first character tells the quote in use. -/
theorem quote_injective : Function.Injective quote := by
  intro text other same
  have characters := congrArg String.toList same
  rw [toList_quote, toList_quote, List.cons_append, List.cons_append] at characters
  obtain ⟨mark, quoted⟩ := List.cons.inj characters
  rw [mark] at quoted
  exact String.toList_inj.mp (flatMap_quoteChar_injective (quoteMark_eq_or _)
    (List.append_cancel_right quoted))

end BraceLang.Text
