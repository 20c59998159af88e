import Mathlib.Data.Rat.Floor
import StackScript.Operation
import StackScript.Proofs.Wrapping

/-!
# Division rounded down

The quotient of two words is the floor of the exact one, wrapped. Division toward zero gives
a quotient that is at most one too large, and the correction cannot overflow: it is made only
where the exact quotient is negative. Whatever is wrapped on the way, the dividend less the
quotient times the divisor is the exact remainder, since this one is smaller than a word.
-/

namespace StackScript

/-! ## Exact quotients and remainders -/

/-- Division toward negative infinity gives the floor of the exact quotient. -/
theorem floor_div_eq_fdiv (a b : ℤ) : ⌊(a : ℚ) / b⌋ = a.fdiv b := by
  rcases Int.natAbs_eq b with positive | negative
  · rw [positive, Int.cast_natCast, Rat.floor_intCast_div_natCast,
      Int.fdiv_eq_ediv_of_nonneg a (Int.natCast_nonneg _)]
  · rw [negative, Int.cast_neg, div_neg, ← neg_div, ← Int.cast_neg, Int.cast_natCast,
      Rat.floor_intCast_div_natCast, ← Int.neg_fdiv_neg, neg_neg,
      Int.fdiv_eq_ediv_of_nonneg (-a) (Int.natCast_nonneg _)]

/-- It is one less than division toward zero if that leaves a rest and the signs differ. -/
theorem fdiv_eq_ite {a b : ℤ} (nonzero : b ≠ 0) :
    a.fdiv b = if ¬ b ∣ a ∧ ¬ (a < 0 ↔ b < 0) then a.tdiv b - 1 else a.tdiv b := by
  rw [Int.fdiv_eq_tdiv]
  by_cases exact : b ∣ a
  · rw [if_pos exact, if_neg fun corrected => corrected.1 exact, Int.sub_zero]
  · rw [if_neg exact]
    rcases Int.lt_or_gt_of_ne nonzero with negative | positive
    · rw [Int.sign_eq_neg_one_of_neg negative]
      grind
    · rw [Int.sign_eq_one_of_pos positive]
      grind

/-- A quotient of two words is within the range of words but for that of the least word
and minus one. -/
theorem fdiv_inRange (a b : Int64) :
    -2 ^ 63 ≤ a.toInt.fdiv b.toInt ∧
      (¬ (a.toInt = -2 ^ 63 ∧ b.toInt = -1) → a.toInt.fdiv b.toInt < 2 ^ 63) := by
  have lower := a.le_toInt
  have upper := a.toInt_lt
  rcases Int.lt_trichotomy b.toInt 0 with negative | zero | positive
  · have opposite : 0 < -b.toInt := by omega
    rw [← Int.neg_fdiv_neg, Int.fdiv_eq_ediv_of_nonneg _ opposite.le]
    constructor
    · exact Int.le_ediv_of_mul_le opposite (by omega)
    · intro otherWords
      exact Int.ediv_lt_of_lt_mul opposite (by omega)
  · rw [zero, Int.fdiv_zero]
    omega
  · rw [Int.fdiv_eq_ediv_of_nonneg _ positive.le]
    constructor
    · exact Int.le_ediv_of_mul_le positive (by omega)
    · intro otherWords
      exact Int.ediv_lt_of_lt_mul positive (by omega)

/-- What is left of `a` when `b` is taken away as often as the rounded quotient says. -/
structure IsRemainder (rest a b : ℤ) : Prop where
  sign : rest = 0 ∨ rest.sign = b.sign
  smaller : |rest| < |b|
  congruent : rest ≡ a [ZMOD b]

/-- The remainder lies between zero and the divisor. -/
theorem fmod_between (a : ℤ) {b : ℤ} (nonzero : b ≠ 0) :
    0 ≤ a.fmod b ∧ a.fmod b < b ∨ b < a.fmod b ∧ a.fmod b ≤ 0 := by
  rcases Int.lt_or_gt_of_ne nonzero with negative | positive
  · right
    have opposite : 0 < -b := by omega
    have natural := Int.fmod_nonneg_of_pos (-a) opposite
    have below := Int.fmod_lt_of_pos (-a) opposite
    rw [Int.neg_fmod_neg] at natural below
    omega
  · left
    exact ⟨Int.fmod_nonneg_of_pos a positive, Int.fmod_lt_of_pos a positive⟩

theorem isRemainder_fmod (a : ℤ) {b : ℤ} (nonzero : b ≠ 0) : IsRemainder (a.fmod b) a b where
  sign := by
    rcases fmod_between a nonzero with ⟨natural, below⟩ | ⟨above, negative⟩
    · rcases natural.eq_or_lt with zero | positive
      · exact .inl zero.symm
      · rw [Int.sign_eq_one_of_pos positive, Int.sign_eq_one_of_pos (positive.trans below)]
        exact .inr rfl
    · rcases negative.eq_or_lt with zero | negative
      · exact .inl zero
      · rw [Int.sign_eq_neg_one_of_neg negative,
          Int.sign_eq_neg_one_of_neg (above.trans negative)]
        exact .inr rfl
  smaller := by
    rw [Int.abs_eq_natAbs, Int.abs_eq_natAbs]
    rcases fmod_between a nonzero with between | between <;> omega
  congruent := by
    rw [Int.fmod_def]
    exact Int.modEq_iff_dvd.mpr ⟨a.fdiv b, sub_sub_cancel a _⟩

/-- Division toward zero of numbers with different signs gives nothing positive. -/
theorem tdiv_nonpos_of_signs {a b : ℤ} (signs : ¬ (a < 0 ↔ b < 0)) : a.tdiv b ≤ 0 := by
  rcases lt_or_ge a 0 with negative | natural
  · rw [← Int.neg_tdiv_neg]
    exact Int.tdiv_nonpos_of_nonneg_of_nonpos (by omega) (by omega)
  · exact Int.tdiv_nonpos_of_nonneg_of_nonpos natural (by omega)

/-! ## Words -/

theorem lt_zero_iff_toInt (a : Int64) : a < 0 ↔ a.toInt < 0 :=
  Int64.lt_iff_toInt_lt

/-- A division of words leaves a rest exactly if that of their numbers does. -/
theorem mod_ne_zero_iff (a b : Int64) : a % b ≠ 0 ↔ ¬ b.toInt ∣ a.toInt := by
  rw [ne_eq, ← Int64.toInt_inj, Int64.toInt_mod, Int.dvd_iff_tmod_eq_zero]
  rfl

theorem isWrap_div (a b : Int64) : IsWrap (a / b).toInt (a.toInt.tdiv b.toInt) :=
  .of_toInt_eq_bmod (Int64.toInt_div a b)

/-- The rounded quotient of words is the floor of the exact one, wrapped. -/
theorem isWrap_floorDiv (a : Int64) {b : Int64} (nonzero : b.toInt ≠ 0) :
    IsWrap (floorDiv a b).toInt (a.toInt.fdiv b.toInt) := by
  rw [fdiv_eq_ite nonzero, floorDiv]
  simp only [Bool.and_eq_true, bne_iff_ne, mod_ne_zero_iff, ne_eq, decide_eq_decide,
    lt_zero_iff_toInt]
  split
  · exact (isWrap_div a b).sub (.toInt 1)
  · exact isWrap_div a b

section

variable (a : Int64) {b : Int64} (nonzero : b.toInt ≠ 0)

include nonzero

/-- Only the quotient of the least word and minus one is changed by wrapping. -/
theorem toInt_floorDiv_ne_iff :
    (floorDiv a b).toInt ≠ a.toInt.fdiv b.toInt ↔ a = Int64.minValue ∧ b = -1 := by
  have words : a = Int64.minValue ∧ b = -1 ↔ a.toInt = -2 ^ 63 ∧ b.toInt = -1 := by
    rw [← Int64.toInt_inj, ← Int64.toInt_inj]
    rfl
  have wraps := isWrap_floorDiv a nonzero
  rw [words]
  constructor
  · intro changed
    by_contra otherWords
    obtain ⟨lower, upper⟩ := fdiv_inRange a b
    exact changed (wraps.eq_of_inRange lower (upper otherWords))
  · rintro ⟨least, minusOne⟩
    have tooLarge : a.toInt.fdiv b.toInt = 2 ^ 63 := by
      rw [least, minusOne]
      rfl
    have upper := wraps.upper
    omega

/-- A correction of the quotient by one does not leave the range of words. -/
theorem toInt_div_sub_one (rest : a % b ≠ 0) (signs : ¬ (a < 0 ↔ b < 0)) :
    (a / b - 1).toInt = (a / b).toInt - 1 := by
  rw [lt_zero_iff_toInt, lt_zero_iff_toInt] at signs
  have lower := (fdiv_inRange a b).1
  rw [fdiv_eq_ite nonzero, if_pos ⟨(mod_ne_zero_iff a b).mp rest, signs⟩] at lower
  have nonpos := tdiv_nonpos_of_signs signs
  have wraps := isWrap_div a b
  have corrected : IsWrap (a / b - 1).toInt (a.toInt.tdiv b.toInt - 1) := wraps.sub (.toInt 1)
  rw [wraps.eq_of_inRange (by omega) (by omega), corrected.eq_of_inRange lower (by omega)]

/-- Taking the wrapped product of the rounded quotient and the divisor away from the
dividend leaves the remainder. -/
theorem isRemainder_sub_mul :
    IsRemainder (a - floorDiv a b * b).toInt a.toInt b.toInt := by
  have remainder := isRemainder_fmod a.toInt nonzero
  have wraps : IsWrap (a - floorDiv a b * b).toInt (a.toInt.fmod b.toInt) := by
    rw [Int.fmod_def, mul_comm]
    exact (IsWrap.toInt a).sub ((isWrap_floorDiv a nonzero).mul (.toInt b))
  have smaller := remainder.smaller
  have lower := b.le_toInt
  have upper := b.toInt_lt
  rw [Int.abs_eq_natAbs, Int.abs_eq_natAbs] at smaller
  rwa [wraps.eq_of_inRange (by omega) (by omega)]

end

end StackScript
