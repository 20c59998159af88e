import Mathlib.Data.Int.ModEq
import StackScript.Value

/-!
# Wrapping

An integer of sixty-four bits stands for every integer that differs from it by a multiple
of `2 ^ 64`. Sums, differences, products and complements of words stand for those of the
integers that the words stand for.
-/

namespace StackScript

/-- `n` is the exact integer wrapped: the only one in the range of sixty-four bits that
differs from it by a multiple of `2 ^ 64`. -/
structure IsWrap (n exact : ℤ) : Prop where
  lower : -2 ^ 63 ≤ n
  upper : n < 2 ^ 63
  congruent : n ≡ exact [ZMOD 2 ^ 64]

namespace IsWrap

theorem unique {n m exact : ℤ} (first : IsWrap n exact) (second : IsWrap m exact) : n = m := by
  obtain ⟨firstLower, firstUpper, congruent⟩ := first
  obtain ⟨secondLower, secondUpper, congruentOther⟩ := second
  have same : n % 2 ^ 64 = m % 2 ^ 64 := congruent.trans congruentOther.symm
  omega

/-- A word whose number is congruent to an integer is that integer wrapped. -/
theorem of_modEq {n : Int64} {exact : ℤ} (congruent : n.toInt ≡ exact [ZMOD 2 ^ 64]) :
    IsWrap n.toInt exact :=
  ⟨n.le_toInt, n.toInt_lt, congruent⟩

theorem of_toInt_eq_bmod {n : Int64} {exact : ℤ} (wrapped : n.toInt = exact.bmod (2 ^ 64)) :
    IsWrap n.toInt exact := by
  apply of_modEq
  rw [wrapped]
  exact Int.bmod_emod

/-- A word is its own number wrapped. -/
theorem toInt (n : Int64) : IsWrap n.toInt n.toInt :=
  of_modEq rfl

variable {a b : Int64} {x y : ℤ}

theorem add (first : IsWrap a.toInt x) (second : IsWrap b.toInt y) :
    IsWrap (a + b).toInt (x + y) := by
  have wrapped := of_toInt_eq_bmod (Int64.toInt_add a b)
  exact of_modEq (wrapped.congruent.trans (first.congruent.add second.congruent))

theorem sub (first : IsWrap a.toInt x) (second : IsWrap b.toInt y) :
    IsWrap (a - b).toInt (x - y) := by
  have wrapped := of_toInt_eq_bmod (Int64.toInt_sub a b)
  exact of_modEq (wrapped.congruent.trans (first.congruent.sub second.congruent))

theorem mul (first : IsWrap a.toInt x) (second : IsWrap b.toInt y) :
    IsWrap (a * b).toInt (x * y) := by
  have wrapped := of_toInt_eq_bmod (Int64.toInt_mul a b)
  exact of_modEq (wrapped.congruent.trans (first.congruent.mul second.congruent))

/-- The complement of a number is one less than its opposite. -/
theorem complement (wraps : IsWrap a.toInt x) : IsWrap (~~~a).toInt (-x - 1) := by
  have wrapped := of_toInt_eq_bmod (Int64.toInt_not a)
  exact of_modEq (wrapped.congruent.trans (wraps.congruent.neg.sub_right 1))

/-- An integer in the range of sixty-four bits is not changed. -/
theorem eq_of_inRange {n exact : ℤ} (wraps : IsWrap n exact) (lower : -2 ^ 63 ≤ exact)
    (upper : exact < 2 ^ 63) : n = exact :=
  wraps.unique ⟨lower, upper, rfl⟩

end IsWrap

end StackScript
