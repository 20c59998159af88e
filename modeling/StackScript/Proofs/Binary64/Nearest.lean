import Mathlib.Algebra.Order.Field.Power
import Mathlib.Algebra.Order.Field.Rat
import Mathlib.Algebra.Order.Ring.Abs
import Mathlib.Tactic.FieldSimp
import Mathlib.Tactic.Linarith
import Mathlib.Tactic.NormNum
import Mathlib.Tactic.Positivity
import Mathlib.Tactic.Ring
import StackScript.Binary64.Shortest

/-!
# The nearest float

A rational rounds to a finite float if no magnitude of fifty-three bits is nearer, and
if the significand is even where another one is as near. Exponents have no upper bound
here, so what would round to a larger power of two than a float has rounds to no finite
float. The numbers that round to a float are those between the midpoints to its two
neighbours.
-/

namespace StackScript

/-! ## The nearer of two numbers -/

section Nearer

variable {r v w : ℚ}

/-- The smaller of two numbers is the nearer one up to the middle. -/
theorem abs_sub_le_iff_of_lt (order : v < w) : |r - v| ≤ |r - w| ↔ 2 * r ≤ v + w := by
  have difference : (r - w) ^ 2 - (r - v) ^ 2 = (w - v) * (v + w - 2 * r) := by ring
  rw [← sq_le_sq, ← sub_nonneg, difference, mul_nonneg_iff_of_pos_left (sub_pos.mpr order),
    sub_nonneg]

/-- The larger one is the nearer one from the middle on. -/
theorem abs_sub_le_iff_of_gt (order : w < v) : |r - v| ≤ |r - w| ↔ v + w ≤ 2 * r := by
  have difference : (r - w) ^ 2 - (r - v) ^ 2 = (v - w) * (2 * r - (v + w)) := by ring
  rw [← sq_le_sq, ← sub_nonneg, difference, mul_nonneg_iff_of_pos_left (sub_pos.mpr order),
    sub_nonneg]

/-- Only the middle is as near to one as to the other. -/
theorem abs_sub_eq_iff_of_ne (different : v ≠ w) : |r - v| = |r - w| ↔ 2 * r = v + w := by
  rcases lt_or_gt_of_ne different with order | order
  · rw [le_antisymm_iff, abs_sub_le_iff_of_lt order, abs_sub_le_iff_of_gt order, le_antisymm_iff,
      add_comm w v]
  · rw [le_antisymm_iff, abs_sub_le_iff_of_gt order, abs_sub_le_iff_of_lt order, le_antisymm_iff,
      add_comm w v, and_comm]

end Nearer

/-! ## Powers with an integer exponent -/

/-- The exponent split into what is above zero and what is below. -/
theorem zpow_mul_pow_toNat_neg {base : ℚ} (nonzero : base ≠ 0) (e : ℤ) :
    base ^ e * base ^ (-e).toNat = base ^ e.toNat := by
  rw [← zpow_natCast, ← zpow_natCast, ← zpow_add₀ nonzero]
  congr 1
  omega

namespace Binary64

variable {x : Binary64}

/-! ## Fields of the word -/

theorem fraction_lt (x : Binary64) : x.fraction < hiddenBit :=
  Nat.mod_lt _ (by decide)

theorem significand_lt (x : Binary64) : x.significand < 2 * hiddenBit := by
  have below := x.fraction_lt
  rw [significand]
  split <;> omega

theorem le_exponent (x : Binary64) : -1074 ≤ x.exponent := by
  rw [exponent]
  split <;> omega

/-- Above the smallest exponent the significand has its hidden bit. -/
theorem normal_of_lt_exponent (above : -1074 < x.exponent) :
    1 < x.biasedExponent ∧ x.significand = hiddenBit + x.fraction := by
  rw [exponent] at above
  rw [significand]
  split at above
  · omega
  · rename_i notZero
    exact ⟨by omega, if_neg notZero⟩

/-- The only normal significand without a fraction. -/
theorem significand_eq_hiddenBit (atPower : x.fraction = 0 ∧ 1 < x.biasedExponent) :
    x.significand = hiddenBit := by
  rw [significand, if_neg (by omega), atPower.1, Nat.add_zero]

/-- The sixty-three bits below the sign. -/
def magnitudeBits (x : Binary64) : ℕ :=
  x.biasedExponent * hiddenBit + x.fraction

/-- The hidden bit carries into the exponent, as in rounding. -/
theorem magnitudeBits_eq (x : Binary64) :
    x.magnitudeBits = (x.exponent + 1074).toNat * hiddenBit + x.significand := by
  rw [magnitudeBits, exponent, significand]
  split
  · rename_i isZero
    simp [isZero]
  · rename_i notZero
    have exponentEq : ((x.biasedExponent : ℤ) - 1075 + 1074).toNat = x.biasedExponent - 1 := by
      omega
    rw [exponentEq]
    simp only [hiddenBit]
    omega

theorem magnitudeBits_lt_of_isFinite (finite : x.isFinite = true) :
    x.magnitudeBits < infinityMagnitude := by
  have exponentLt : x.biasedExponent < 2048 := Nat.mod_lt _ (by decide)
  have fractionLt := x.fraction_lt
  have notLast : x.biasedExponent ≠ 2047 := by simpa [isFinite] using finite
  simp only [magnitudeBits, infinityMagnitude, hiddenBit] at fractionLt ⊢
  omega

/-- A word is its sign and the bits below. -/
theorem ofMagnitude_magnitudeBits (x : Binary64) :
    ofMagnitude x.isNegative x.magnitudeBits = x := by
  have inRange : x.bits.toNat < 2 ^ 64 := x.bits.toNat_lt
  suffices same : (ofMagnitude x.isNegative x.magnitudeBits).bits = x.bits from
    congrArg Binary64.mk same
  rw [ofMagnitude, ← UInt64.toNat_inj, UInt64.toNat_ofNat']
  cases negative : x.isNegative with
  | true =>
    have high := of_decide_eq_true negative
    simp only [magnitudeBits, biasedExponent, fraction, signBit, hiddenBit, if_true] at high ⊢
    omega
  | false =>
    have low := of_decide_eq_false negative
    simp only [magnitudeBits, biasedExponent, fraction, signBit, hiddenBit, Bool.false_eq_true,
      if_false] at low ⊢
    omega

/-! ## What rounds to a float -/

/-- The number that a finite word without its sign stands for. -/
def magnitude (x : Binary64) : ℚ :=
  x.significand * 2 ^ x.exponent

/-- A number of fifty-three bits times a power of two that is not smaller than that of
the subnormals. -/
def IsScaled (v : ℚ) : Prop :=
  ∃ (n : ℕ) (e : ℤ), n < 2 * hiddenBit ∧ -1074 ≤ e ∧ v = n * 2 ^ e

/-- The number rounds to the magnitude of the finite `x`: to the nearest, and halfway to
the even one. -/
structure IsRoundingOf (x : Binary64) (r : ℚ) : Prop where
  nearest : ∀ v, IsScaled v → |r - x.magnitude| ≤ |r - v|
  even : ∀ v, IsScaled v → v ≠ x.magnitude → |r - x.magnitude| = |r - v| →
    x.significand % 2 = 0

/-- A quarter of the distance to the next magnitude; all midpoints are multiples of it. -/
def quarter (x : Binary64) : ℚ :=
  2 ^ (x.exponent - 2)

theorem quarter_pos (x : Binary64) : 0 < x.quarter := by
  rw [quarter]
  positivity

theorem two_zpow_exponent (x : Binary64) : (2 : ℚ) ^ x.exponent = 4 * x.quarter := by
  rw [quarter, zpow_sub₀ two_ne_zero]
  norm_num
  ring

theorem two_zpow_exponent_sub_one (x : Binary64) :
    (2 : ℚ) ^ (x.exponent - 1) = 2 * x.quarter := by
  rw [zpow_sub_one₀ two_ne_zero, two_zpow_exponent]
  ring

theorem magnitude_eq (x : Binary64) : x.magnitude = 4 * x.significand * x.quarter := by
  rw [magnitude, two_zpow_exponent]
  ring

theorem magnitude_eq_zero (zero : x.significand = 0) : x.magnitude = 0 := by
  rw [magnitude, zero, Nat.cast_zero, zero_mul]

/-- The next magnitude. -/
def above (x : Binary64) : ℚ :=
  4 * (x.significand + 1) * x.quarter

/-- The magnitude before, for `x` other than zero. Just above a power of two it is only
half as far away. -/
def below (x : Binary64) : ℚ :=
  if x.fraction = 0 ∧ 1 < x.biasedExponent then (4 * x.significand - 2) * x.quarter
  else (4 * x.significand - 4) * x.quarter

theorem isScaled_above (x : Binary64) : IsScaled x.above := by
  have le := x.significand_lt
  have scale := x.two_zpow_exponent
  rcases Nat.lt_or_ge (x.significand + 1) (2 * hiddenBit) with below | carries
  · refine ⟨x.significand + 1, x.exponent, below, x.le_exponent, ?_⟩
    rw [above, scale]
    push_cast
    ring
  · refine ⟨hiddenBit, x.exponent + 1, by decide, by linarith [x.le_exponent], ?_⟩
    have carried : x.significand + 1 = 2 * hiddenBit := by omega
    have carriedCast : (x.significand : ℚ) + 1 = 2 * hiddenBit := by exact_mod_cast carried
    rw [above, zpow_add_one₀ two_ne_zero, scale, carriedCast]
    ring

theorem isScaled_below (nonzero : x.significand ≠ 0) : IsScaled x.below := by
  have scale := x.two_zpow_exponent
  have lt := x.significand_lt
  have positive := Nat.pos_of_ne_zero nonzero
  rw [below]
  split
  · rename_i atPower
    have significandEq := significand_eq_hiddenBit atPower
    refine ⟨2 * x.significand - 1, x.exponent - 1, by omega, ?_, ?_⟩
    · rw [exponent, if_neg (by omega)]
      omega
    · rw [two_zpow_exponent_sub_one, Nat.cast_sub (by omega)]
      push_cast
      ring
  · refine ⟨x.significand - 1, x.exponent, by omega, x.le_exponent, ?_⟩
    rw [scale, Nat.cast_sub positive]
    push_cast
    ring

/-- With a smaller exponent, fifty-three bits reach at most here. -/
theorem scaled_le_of_lt_exponent {n : ℕ} {e : ℤ} (bits : n < 2 * hiddenBit)
    (smaller : e < x.exponent) : (n : ℚ) * 2 ^ e ≤ (4 * hiddenBit - 2) * x.quarter := by
  have bitsCast : (n : ℚ) ≤ 2 * hiddenBit - 1 := by
    have le : (n : ℚ) + 1 ≤ 2 * hiddenBit := by exact_mod_cast bits
    linarith
  have half : (2 : ℚ) ^ e ≤ 2 ^ (x.exponent - 1) :=
    zpow_le_zpow_right₀ one_le_two (by omega)
  have nonneg : (0 : ℚ) ≤ 2 * hiddenBit - 1 := by norm_num [hiddenBit]
  calc
    (n : ℚ) * 2 ^ e ≤ (2 * hiddenBit - 1) * 2 ^ (x.exponent - 1) :=
      mul_le_mul bitsCast half (by positivity) nonneg
    _ = (4 * hiddenBit - 2) * x.quarter := by
      rw [two_zpow_exponent_sub_one]
      ring

/-- With no smaller exponent, a scaled number is a multiple of the float's unit. -/
theorem scaled_eq_of_exponent_le {e : ℤ} (n : ℕ) (greater : x.exponent ≤ e) :
    (n : ℚ) * 2 ^ e = 4 * (n * 2 ^ (e - x.exponent).toNat : ℕ) * x.quarter := by
  have exponentEq : e = x.exponent + ((e - x.exponent).toNat : ℤ) := by omega
  conv_lhs => rw [exponentEq, zpow_add₀ two_ne_zero, two_zpow_exponent, zpow_natCast]
  push_cast
  ring

/-- Nothing scaled lies between a magnitude and the next one. -/
theorem above_le_of_lt {v : ℚ} (scaled : IsScaled v) (greater : x.magnitude < v) :
    x.above ≤ v := by
  obtain ⟨n, e, bits, least, rfl⟩ := scaled
  have positive := x.quarter_pos
  rw [magnitude_eq] at greater
  rcases lt_or_ge e x.exponent with smaller | atLeast
  · -- so small an exponent is left to numbers below the float
    have reach := scaled_le_of_lt_exponent bits smaller
    obtain ⟨-, significandEq⟩ := normal_of_lt_exponent (x := x) (by omega)
    have hidden : (hiddenBit : ℚ) ≤ x.significand := by
      rw [significandEq]
      exact_mod_cast Nat.le_add_right _ _
    nlinarith
  · rw [scaled_eq_of_exponent_le n atLeast] at greater ⊢
    have order : (4 : ℚ) * x.significand < 4 * (n * 2 ^ (e - x.exponent).toNat : ℕ) :=
      lt_of_mul_lt_mul_right greater positive.le
    have next : (x.significand : ℚ) + 1 ≤ (n * 2 ^ (e - x.exponent).toNat : ℕ) := by
      have natOrder : (x.significand : ℚ) < (n * 2 ^ (e - x.exponent).toNat : ℕ) := by linarith
      exact_mod_cast natOrder
    rw [above]
    nlinarith

/-- Nothing scaled lies between a magnitude and the one before. -/
theorem le_below_of_lt {v : ℚ} (scaled : IsScaled v) (smaller : v < x.magnitude) :
    v ≤ x.below := by
  obtain ⟨n, e, bits, least, rfl⟩ := scaled
  have positive := x.quarter_pos
  rw [magnitude_eq] at smaller
  rcases lt_or_ge e x.exponent with finer | atLeast
  · have reach := scaled_le_of_lt_exponent bits finer
    obtain ⟨normal, significandEq⟩ := normal_of_lt_exponent (x := x) (by omega)
    rw [below]
    split
    · rename_i atPower
      rw [significandEq, atPower.1, Nat.add_zero]
      exact reach
    · rename_i notPower
      have hidden : hiddenBit + 1 ≤ x.significand := by omega
      have hiddenCast : (hiddenBit : ℚ) + 1 ≤ x.significand := by exact_mod_cast hidden
      nlinarith
  · rw [scaled_eq_of_exponent_le n atLeast] at smaller ⊢
    have order : (4 : ℚ) * (n * 2 ^ (e - x.exponent).toNat : ℕ) < 4 * x.significand :=
      lt_of_mul_lt_mul_right smaller positive.le
    have before : ((n * 2 ^ (e - x.exponent).toNat : ℕ) : ℚ) + 1 ≤ x.significand := by
      have natOrder : ((n * 2 ^ (e - x.exponent).toNat : ℕ) : ℚ) < x.significand := by linarith
      exact_mod_cast natOrder
    rw [below]
    split <;> nlinarith

/-! ## Midpoints -/

/-- The middle between a magnitude and the one before. -/
def low (x : Binary64) : ℚ :=
  x.lowerMidpoint * x.quarter

/-- The middle between a magnitude and the next one. -/
def high (x : Binary64) : ℚ :=
  x.upperMidpoint * x.quarter

theorem high_eq (x : Binary64) : x.high = x.magnitude + 2 * x.quarter := by
  rw [high, upperMidpoint, magnitude_eq]
  push_cast
  ring

/-- Just above a power of two the midpoint below is only half as far away. -/
theorem low_eq (nonzero : x.significand ≠ 0) :
    x.low = x.magnitude -
      (if x.fraction = 0 ∧ 1 < x.biasedExponent then 1 else 2) * x.quarter := by
  rw [low, lowerMidpoint, magnitude_eq]
  split <;>
  · rw [Nat.cast_sub (by omega)]
    push_cast
    ring

theorem two_mul_high (x : Binary64) : 2 * x.high = x.magnitude + x.above := by
  rw [high_eq, magnitude_eq, above]
  ring

theorem two_mul_low (nonzero : x.significand ≠ 0) : 2 * x.low = x.magnitude + x.below := by
  rw [low_eq nonzero, magnitude_eq, below]
  split <;> ring

theorem magnitude_lt_above (x : Binary64) : x.magnitude < x.above := by
  have positive := x.quarter_pos
  rw [magnitude_eq, above]
  nlinarith

theorem below_lt_magnitude (x : Binary64) : x.below < x.magnitude := by
  have positive := x.quarter_pos
  rw [magnitude_eq, below]
  split <;> nlinarith

theorem magnitude_lt_high (x : Binary64) : x.magnitude < x.high := by
  linarith [x.two_mul_high, x.magnitude_lt_above]

theorem low_lt_magnitude (nonzero : x.significand ≠ 0) : x.low < x.magnitude := by
  linarith [two_mul_low nonzero, x.below_lt_magnitude]

theorem low_pos (nonzero : x.significand ≠ 0) : 0 < x.low := by
  apply mul_pos _ x.quarter_pos
  rw [lowerMidpoint, Nat.cast_pos]
  split <;> omega

variable {r : ℚ}

/-- What rounds to a float is not above the upper midpoint. -/
theorem IsRoundingOf.upper (rounds : x.IsRoundingOf r) :
    r < x.high ∨ x.significand % 2 = 0 ∧ r = x.high := by
  have scaled := x.isScaled_above
  have order := x.magnitude_lt_above
  have middle := x.two_mul_high
  have le := (abs_sub_le_iff_of_lt order).mp (rounds.nearest _ scaled)
  rcases le.lt_or_eq with smaller | equal
  · left
    linarith
  · right
    refine ⟨rounds.even _ scaled order.ne' ((abs_sub_eq_iff_of_ne order.ne).mpr equal), ?_⟩
    linarith

/-- What rounds to a float other than zero is not below the lower midpoint. -/
theorem IsRoundingOf.lower (rounds : x.IsRoundingOf r) (nonzero : x.significand ≠ 0) :
    x.low < r ∨ x.significand % 2 = 0 ∧ x.low = r := by
  have scaled := isScaled_below nonzero
  have order := x.below_lt_magnitude
  have middle := two_mul_low nonzero
  have le := (abs_sub_le_iff_of_gt order).mp (rounds.nearest _ scaled)
  rcases le.lt_or_eq with smaller | equal
  · left
    linarith
  · right
    refine ⟨rounds.even _ scaled order.ne ((abs_sub_eq_iff_of_ne order.ne').mpr equal.symm), ?_⟩
    linarith

/-- Only positive numbers round to a float other than zero. -/
theorem IsRoundingOf.pos (rounds : x.IsRoundingOf r) (nonzero : x.significand ≠ 0) : 0 < r := by
  have lowPos := low_pos nonzero
  rcases rounds.lower nonzero with inside | tie
  · exact lowPos.trans inside
  · exact lowPos.trans_eq tie.2

/-- The numbers between the midpoints round to the float, and the midpoints do if its
significand is even. -/
theorem isRoundingOf_iff (nonzero : x.significand ≠ 0) :
    x.IsRoundingOf r ↔
      (x.low < r ∨ x.significand % 2 = 0 ∧ x.low = r) ∧
        (r < x.high ∨ x.significand % 2 = 0 ∧ r = x.high) := by
  constructor
  · intro rounds
    exact ⟨rounds.lower nonzero, rounds.upper⟩
  · rintro ⟨lower, upper⟩
    have lowLe : x.low ≤ r := lower.elim le_of_lt fun tie => tie.2.le
    have leHigh : r ≤ x.high := upper.elim le_of_lt fun tie => tie.2.le
    have middleLow := two_mul_low nonzero
    have middleHigh := x.two_mul_high
    constructor
    · intro v scaled
      rcases lt_trichotomy v x.magnitude with smaller | rfl | greater
      · rw [abs_sub_le_iff_of_gt smaller]
        linarith [le_below_of_lt scaled smaller]
      · exact le_rfl
      · rw [abs_sub_le_iff_of_lt greater]
        linarith [above_le_of_lt scaled greater]
    · intro v scaled different tie
      have middle := (abs_sub_eq_iff_of_ne different.symm).mp tie
      rcases lt_or_gt_of_ne different with smaller | greater
      · rcases lower with inside | even
        · linarith [le_below_of_lt scaled smaller]
        · exact even.1
      · rcases upper with inside | even
        · linarith [above_le_of_lt scaled greater]
        · exact even.1

/-- A number that is no farther away on the same side rounds to the same float. -/
theorem IsRoundingOf.of_between {s : ℚ} (rounds : x.IsRoundingOf r) (nonzero : x.significand ≠ 0)
    (between : r ≤ s ∧ s ≤ x.magnitude ∨ x.magnitude ≤ s ∧ s ≤ r) : x.IsRoundingOf s := by
  obtain ⟨lower, upper⟩ := (isRoundingOf_iff nonzero).mp rounds
  have lowLt := low_lt_magnitude nonzero
  have ltHigh := x.magnitude_lt_high
  rw [isRoundingOf_iff nonzero]
  rcases between with ⟨le, leMagnitude⟩ | ⟨magnitudeLe, le⟩
  · refine ⟨?_, .inl (by linarith)⟩
    rcases le.eq_or_lt with rfl | lt
    · exact lower
    · exact .inl (lower.elim lt.trans' fun tie => tie.2.trans_lt lt)
  · refine ⟨.inl (by linarith), ?_⟩
    rcases le.eq_or_lt with rfl | lt
    · exact upper
    · exact .inl (upper.elim lt.trans fun tie => lt.trans_eq tie.2)

end Binary64

end StackScript
