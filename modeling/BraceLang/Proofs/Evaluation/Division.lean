import BraceLang.Proofs.Evaluation.ValueRange

/-!
# Division rounds toward zero

The quotient of two integers is computed from their magnitudes, and its sign is put on afterwards.
`IsQuotient` says what it has to be: what it leaves of the dividend is smaller than the divisor and
lies on the same side of zero as the dividend. There is only one such integer
(`IsQuotient.unique`), and it is the one that is computed (`isQuotient_truncatedQuotient`).

Among the integers of the language one quotient is out of range, that of the least integer and minus
one (`truncatedQuotient_inRange_iff`). So an operation `/` has three outcomes, told apart by its
operands alone.
-/

set_option autoImplicit false

namespace BraceLang

namespace Eval

open Effect

/-! ## Quotients -/

/-- The quotient leaves a remainder that is smaller than the divisor, and zero or of the sign of the
dividend. -/
def IsQuotient (dividend divisor quotient : Int) : Prop :=
  ∃ remainder, dividend = divisor * quotient + remainder ∧
    remainder.natAbs < divisor.natAbs ∧ (remainder = 0 ∨ remainder.sign = dividend.sign)

/-- A remainder lies on the side of zero on which the dividend lies. -/
theorem side_of_sign {dividend remainder : Int}
    (sign : remainder = 0 ∨ remainder.sign = dividend.sign) :
    (0 ≤ dividend → 0 ≤ remainder) ∧ (dividend ≤ 0 → remainder ≤ 0) := by
  rcases sign with rfl | same
  · exact ⟨fun _ => Int.le_refl 0, fun _ => Int.le_refl 0⟩
  · refine ⟨fun nonneg => ?_, fun nonpos => ?_⟩
    · exact Int.sign_nonneg_iff.mp (same ▸ Int.sign_nonneg_iff.mpr nonneg)
    · exact Int.sign_nonpos_iff.mp (same ▸ Int.sign_nonpos_iff.mpr nonpos)

/-- **A division has one quotient.** -/
theorem IsQuotient.unique {dividend divisor quotient quotient' : Int}
    (one : IsQuotient dividend divisor quotient) (other : IsQuotient dividend divisor quotient') :
    quotient = quotient' := by
  obtain ⟨remainder, whole, small, sign⟩ := one
  obtain ⟨remainder', whole', small', sign'⟩ := other
  have side := side_of_sign sign
  have side' := side_of_sign sign'
  -- two remainders on one side of zero differ by less than the divisor, and by a multiple of it
  have close : (remainder' - remainder).natAbs < divisor.natAbs := by
    rcases Int.le_total 0 dividend with nonneg | nonpos
    · have := side.1 nonneg
      have := side'.1 nonneg
      omega
    · have := side.2 nonpos
      have := side'.2 nonpos
      omega
  have multiple : divisor ∣ remainder' - remainder :=
    ⟨quotient - quotient', by rw [Int.mul_sub]; omega⟩
  have same := Int.eq_zero_of_dvd_of_natAbs_lt_natAbs multiple close
  have nonzero : divisor ≠ 0 := Int.natAbs_pos.mp (Nat.zero_lt_of_lt small)
  exact Int.eq_of_mul_eq_mul_left nonzero (by omega)

/-- The quotient of the magnitudes, with its sign, is the quotient. -/
theorem isQuotient_truncatedQuotient (dividend : Int) {divisor : Int} (nonzero : divisor ≠ 0) :
    IsQuotient dividend divisor (truncatedQuotient dividend divisor) := by
  refine ⟨dividend.tmod divisor, ?_, ?_, ?_⟩
  · rw [truncatedQuotient_eq, Int.mul_tdiv_add_tmod]
  · rw [Int.natAbs_tmod]
    exact Nat.mod_lt _ (Int.natAbs_pos.mpr nonzero)
  · have sign := Int.sign_tmod dividend divisor
    split at sign
    · exact .inl (Int.sign_eq_zero_iff_zero.mp sign)
    · exact .inr sign

/-- Only the least integer has a quotient that does not fit, by minus one. -/
theorem truncatedQuotient_inRange_iff {dividend divisor : Int}
    (inRange : (Value.integer dividend).InRange) (nonzero : divisor ≠ 0) :
    (Value.integer (truncatedQuotient dividend divisor)).InRange ↔
      ¬(dividend = -2147483648 ∧ divisor = -1) := by
  rw [truncatedQuotient_eq]
  simp only [Value.InRange] at inRange ⊢
  constructor
  · rintro ⟨-, upper⟩ ⟨rfl, rfl⟩
    exact absurd upper (by decide)
  · intro other
    by_cases unit : divisor.natAbs = 1
    · rcases (show divisor = 1 ∨ divisor = -1 by omega) with rfl | rfl
      · rw [Int.tdiv_one]
        exact inRange
      · rw [Int.tdiv_neg, Int.tdiv_one]
        omega
    · -- any other divisor at least halves the magnitude
      have half : (dividend.tdiv divisor).natAbs ≤ dividend.natAbs / 2 := by
        rw [Int.natAbs_tdiv]
        exact Nat.div_le_div_left (by omega) (by decide)
      omega

/-! ## The operation -/

/-- **Division rounds toward zero.** The computed quotient by any integer but zero is the only one
whose remainder is smaller than the divisor and zero or of the sign of the dividend. An operation
`/` on two integers of the language fails as a division by zero exactly if the second one is zero,
fails with an overflow exactly if it divides the least integer by minus one, and gives the quotient
otherwise. -/
theorem division_rounds_toward_zero :
    (∀ dividend divisor quotient : Int, divisor ≠ 0 →
      (IsQuotient dividend divisor quotient ↔ quotient = truncatedQuotient dividend divisor)) ∧
    ∀ (inner : Tree → Eval Value) (bound : Nat) (root first second : Tree)
      (context middle last : Context) (left right : Int),
      root.kind = .operator → root.text = "/" → root.children = [first, second] →
      -2147483648 ≤ left ∧ left ≤ 2147483647 → -2147483648 ≤ right ∧ right ≤ 2147483647 →
      inner first context = .ok (.integer left) middle →
      inner second middle = .ok (.integer right) last →
      node inner bound root context =
        if right = 0 then .error (.failed ⟨.divisionByZero, root.offset⟩) last
        else if left = -2147483648 ∧ right = -1 then
          .error (.failed ⟨.overflow "/", root.offset⟩) last
        else .ok (.integer (truncatedQuotient left right)) last := by
  refine ⟨fun dividend divisor quotient nonzero => ⟨fun isQuotient => ?_, ?_⟩, ?_⟩
  · exact isQuotient.unique (isQuotient_truncatedQuotient dividend nonzero)
  · rintro rfl
    exact isQuotient_truncatedQuotient dividend nonzero
  · intro inner bound root first second context middle last left right isOperator isDivision
      operands inRange _ ranFirst ranSecond
    have known : Operator.ofText? "/" = some .divide := rfl
    rw [node_operation bound isOperator operands ranFirst ranSecond, isDivision]
    simp only [combine, known, checked]
    by_cases zero : right = 0
    · rw [if_pos zero, if_pos zero]
      rfl
    · have fits := truncatedQuotient_inRange_iff inRange zero
      rw [← Value.fits_iff] at fits
      rw [if_neg zero, if_neg zero]
      by_cases corner : left = -2147483648 ∧ right = -1
      · rw [if_pos corner, if_neg (mt fits.mp (not_not_intro corner))]
        rfl
      · rw [if_neg corner, if_pos (fits.mpr corner)]
        rfl

/-- Minus seven by two is minus three, with a remainder of minus one; and the least integer by minus
one is an overflow at the operator. -/
theorem division_rounds_toward_zero_corner :
    let context := (Context.fresh.setVariable "x" (.integer (-2147483648))).setVariable "y"
      (.integer (-1))
    let quotient := Tree.node ⟨.operator, "/", 2, false⟩
      [.leaf ⟨.identifier, "x", 0, false⟩, .leaf ⟨.identifier, "y", 4, false⟩]
    IsQuotient (-7) 2 (-3) ∧
      tree 1 2 quotient context = .error (.failed ⟨.overflow "/", 2⟩) context := by
  intro context quotient
  refine ⟨(division_rounds_toward_zero.1 (-7) 2 (-3) (by decide)).2 (by decide), ?_⟩
  have outcome := division_rounds_toward_zero.2 (tree 1 1) 1 quotient
    (.leaf ⟨.identifier, "x", 0, false⟩) (.leaf ⟨.identifier, "y", 4, false⟩) context context
    context (-2147483648) (-1) rfl rfl rfl (by decide) (by decide) rfl rfl
  rwa [if_neg (by decide), if_pos (by decide)] at outcome

end Eval

end BraceLang
