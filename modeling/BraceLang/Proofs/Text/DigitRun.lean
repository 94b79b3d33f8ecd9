import BraceLang.Lexer.Alphabet
import BraceLang.Text.Numeral

/-!
# Runs of digits as numerals

A run of ASCII digits is a numeral without padding, sign and underscores. It denotes the number
that its digits denote in base ten, unless it has more digits than a numeral may have
(`integer?_of_digits`).
-/

set_option autoImplicit false

namespace BraceLang

namespace Text

open Lexer

/-- The code points of the ASCII digits. -/
theorem isDigit_iff {c : Char} : isDigit c = true ↔ 0x30 ≤ c.toNat ∧ c.toNat ≤ 0x39 := by
  simp only [isDigit, Bool.and_eq_true, decide_eq_true_eq]
  exact Iff.rfl

/-- The value of an ASCII digit. -/
def digitOf (c : Char) : Nat :=
  c.toNat - 0x30

theorem digitValue?_of_isDigit {c : Char} (digit : isDigit c = true) :
    digitValue? c = some (digitOf c) := by
  have range := isDigit_iff.mp digit
  have first : (decide (0x30 ≤ c.toNat) && decide (c.toNat ≤ 0x30 + 9)) = true := by
    simp only [Bool.and_eq_true, decide_eq_true_eq]
    omega
  simp [digitValue?, digitZeros, first, digitOf]

theorem isPadding_of_isDigit {c : Char} (digit : isDigit c = true) : isPadding c = false := by
  have range := isDigit_iff.mp digit
  simp only [isPadding, isBlank, inRanges, blankRanges, List.any_cons, List.any_nil]
  have outside (low high : Nat) (above : high < 0x30 ∨ 0x39 < low) :
      (decide (low ≤ c.toNat) && decide (c.toNat ≤ high)) = false := by
    simp only [Bool.and_eq_false_iff, decide_eq_false_iff_not]
    omega
  simp [outside]

theorem ne_of_isDigit {c other : Char} (digit : isDigit c = true)
    (notDigit : isDigit other = false) : c ≠ other := by
  rintro rfl
  rw [digit] at notDigit
  cases notDigit

theorem laterDigits?_of_digits {characters : List Char}
    (digits : ∀ c ∈ characters, isDigit c = true) :
    laterDigits? characters = some (characters.map digitOf) := by
  induction characters with
  | nil => rfl
  | cons c rest ih =>
      obtain ⟨digit, digits⟩ := List.forall_mem_cons.mp digits
      have notUnderscore : c ≠ '_' := ne_of_isDigit digit rfl
      rw [laterDigits?]
      · rw [digitValue?_of_isDigit digit, ih digits]
        rfl
      · intro _ _ same
        exact absurd same notUnderscore

/-- No digit is dropped at the ends of a run. -/
theorem dropEnds_of_digits {characters : List Char}
    (digits : ∀ c ∈ characters, isDigit c = true) :
    dropEnds isPadding characters = characters := by
  have kept {run : List Char} (digits : ∀ c ∈ run, isDigit c = true) :
      run.dropWhile isPadding = run := by
    cases run with
    | nil => rfl
    | cons c rest =>
        rw [List.dropWhile_cons_of_neg]
        rw [isPadding_of_isDigit (digits c List.mem_cons_self)]
        exact Bool.false_ne_true
  have reversed : ∀ c ∈ characters.reverse, isDigit c = true := fun c member =>
    digits c (List.mem_reverse.mp member)
  rw [dropEnds, kept digits, kept reversed, List.reverse_reverse]

/-- **The value of a digit run.** -/
theorem integer?_of_digits {text : String} (inhabited : text.toList ≠ [])
    (digits : ∀ c ∈ text.toList, isDigit c = true) :
    integer? text =
      if text.length ≤ digitLimit then some (digitsValue (text.toList.map digitOf) : Int)
      else none := by
  rw [integer?, dropEnds_of_digits digits, ← String.length_toList]
  generalize text.toList = characters at inhabited digits
  cases characters with
  | nil => exact absurd rfl inhabited
  | cons c rest =>
      obtain ⟨digit, later⟩ := List.forall_mem_cons.mp digits
      have natural : natural? (c :: rest) =
          if (c :: rest).length ≤ digitLimit then some (digitsValue ((c :: rest).map digitOf))
          else none := by
        simp only [natural?, digits?, digitValue?_of_isDigit digit, laterDigits?_of_digits later]
        simp
      rw [signed?]
      · rw [natural]
        split <;> rfl
      · intro others same
        exact absurd (List.cons.inj same).1 (ne_of_isDigit digit rfl)
      · intro others same
        exact absurd (List.cons.inj same).1 (ne_of_isDigit digit rfl)

end Text

end BraceLang
