import StackScript.Proofs.Binary64.Nearest

/-!
# Rounding a decimal to a float

A quotient is rounded at the scale of its highest bit, which is that of the float it
rounds to, or the one below if the quotient is just under a power of two; the
significand then has a bit too many, which carries into the exponent. So `ofDecimal`
gives back the finite float that its decimal rounds to.
-/

namespace StackScript.Binary64

variable {x : Binary64} {r : ℚ}

/-! ## Rounding a quotient -/

/-- A quotient rounds to the whole number that it is at most half away from, if this one
is even where it is just half. -/
theorem roundHalfEven_eq {num den n : ℕ} (positive : 0 < den)
    (lower : 2 * n * den < 2 * num + den ∨ n % 2 = 0 ∧ 2 * n * den = 2 * num + den)
    (upper : 2 * num < (2 * n + 1) * den ∨ n % 2 = 0 ∧ 2 * num = (2 * n + 1) * den) :
    roundHalfEven num den = n := by
  have division := Nat.div_add_mod num den
  have rest := Nat.mod_lt num positive
  rw [roundHalfEven]
  generalize num / den = whole at division ⊢
  generalize num % den = left at division rest ⊢
  have notAbove : whole ≤ n := by
    by_contra above
    have : den * (n + 1) ≤ den * whole := Nat.mul_le_mul_left den (by omega)
    grind
  have notBelow : n ≤ whole + 1 := by
    by_contra below
    have : den * (whole + 2) ≤ den * n := Nat.mul_le_mul_left den (by omega)
    grind
  rcases notAbove.eq_or_lt with rfl | next
  · rw [if_neg]
    grind
  · obtain rfl : n = whole + 1 := by omega
    rw [if_pos]
    grind

/-- The exponent of the highest bit. -/
theorem zpow_floorLog2 {num den : ℕ} (numPositive : 0 < num) (denPositive : 0 < den) :
    (2 : ℚ) ^ floorLog2 num den ≤ num / den ∧ (num : ℚ) / den < 2 ^ (floorLog2 num den + 1) := by
  have denPos : (0 : ℚ) < den := Nat.cast_pos.mpr denPositive
  have numLower : (2 : ℚ) ^ (num.log2 : ℤ) ≤ num := by
    exact_mod_cast Nat.log2_self_le numPositive.ne'
  have numUpper : (num : ℚ) < 2 ^ ((num.log2 : ℤ) + 1) := by
    exact_mod_cast Nat.lt_log2_self (n := num)
  have denLower : (2 : ℚ) ^ (den.log2 : ℤ) ≤ den := by
    exact_mod_cast Nat.log2_self_le denPositive.ne'
  have denUpper : (den : ℚ) < 2 ^ ((den.log2 : ℤ) + 1) := by
    exact_mod_cast Nat.lt_log2_self (n := den)
  rw [floorLog2, le_div_iff₀ denPos, div_lt_iff₀ denPos]
  generalize guessEq : (num.log2 : ℤ) - den.log2 = guess
  have guessPos : (0 : ℚ) < 2 ^ guess := by positivity
  have test : den <<< guess.toNat ≤ num <<< (-guess).toNat ↔ (2 : ℚ) ^ guess * den ≤ num := by
    have scalePos : (0 : ℚ) < 2 ^ (-guess).toNat := by positivity
    rw [Nat.shiftLeft_eq, Nat.shiftLeft_eq, ← mul_le_mul_iff_of_pos_right scalePos,
      mul_right_comm, zpow_mul_pow_toNat_neg two_ne_zero, mul_comm _ (den : ℚ)]
    exact_mod_cast Iff.rfl
  by_cases passes : (2 : ℚ) ^ guess * den ≤ num
  · simp only [if_pos (test.mpr passes)]
    refine ⟨passes, ?_⟩
    calc
      (num : ℚ) < 2 ^ ((num.log2 : ℤ) + 1) := numUpper
      _ = 2 ^ (guess + 1) * 2 ^ (den.log2 : ℤ) := by
        rw [← zpow_add₀ two_ne_zero]
        congr 1
        omega
      _ ≤ 2 ^ (guess + 1) * den := by gcongr
  · simp only [if_neg (mt test.mp passes)]
    refine ⟨?_, by simpa using passes⟩
    calc
      (2 : ℚ) ^ (guess - 1) * den ≤ 2 ^ (guess - 1) * 2 ^ ((den.log2 : ℤ) + 1) := by gcongr
      _ = 2 ^ (num.log2 : ℤ) := by
        rw [← zpow_add₀ two_ne_zero]
        congr 1
        omega
      _ ≤ num := numLower

/-- Rounding at a scale, with the bounds in the number itself. -/
theorem roundHalfEven_scaled {num den n : ℕ} {scale : ℤ} (positive : 0 < den)
    (lower : (2 * n - 1) * 2 ^ scale < 2 * ((num : ℚ) / den) ∨
      n % 2 = 0 ∧ (2 * n - 1) * 2 ^ scale = 2 * ((num : ℚ) / den))
    (upper : 2 * ((num : ℚ) / den) < (2 * n + 1) * 2 ^ scale ∨
      n % 2 = 0 ∧ 2 * ((num : ℚ) / den) = (2 * n + 1) * 2 ^ scale) :
    roundHalfEven (num <<< (-scale).toNat) (den <<< scale.toNat) = n := by
  have denPos : (0 : ℚ) < den := Nat.cast_pos.mpr positive
  have stretchPos : (0 : ℚ) < den * 2 ^ (-scale).toNat := by positivity
  have scaled (k : ℚ) :
      k * 2 ^ scale * (den * 2 ^ (-scale).toNat) = k * (den * 2 ^ scale.toNat) := by
    rw [← zpow_mul_pow_toNat_neg two_ne_zero scale]
    ring
  have quotient : 2 * ((num : ℚ) / den) * (den * 2 ^ (-scale).toNat) =
      2 * (num * 2 ^ (-scale).toNat) := by
    field_simp
  rw [← mul_lt_mul_iff_of_pos_right stretchPos, ← mul_left_inj' stretchPos.ne', scaled,
    quotient] at lower upper
  rw [Nat.shiftLeft_eq, Nat.shiftLeft_eq]
  apply roundHalfEven_eq (Nat.mul_pos positive (Nat.two_pow_pos _))
  · rw [sub_mul, sub_lt_iff_lt_add, sub_eq_iff_eq_add, one_mul] at lower
    exact_mod_cast lower
  · exact_mod_cast upper

/-! ## Reading a decimal -/

/-- A number below what rounds to a float with a smaller exponent rounds to it only if
its significand is the smallest with this exponent. -/
theorem IsRoundingOf.significand_eq (rounds : x.IsRoundingOf r) (exponentGt : -1074 < x.exponent)
    (short : r < 4 * hiddenBit * x.quarter) :
    x.significand = hiddenBit ∧ (4 * hiddenBit - 1) * x.quarter ≤ r := by
  obtain ⟨normal, significandEq⟩ := normal_of_lt_exponent exponentGt
  have quarterPos := x.quarter_pos
  have nonzero : x.significand ≠ 0 := by
    rw [significandEq, hiddenBit]
    omega
  have lowLe : x.low ≤ r := (rounds.lower nonzero).elim le_of_lt fun tie => tie.2.le
  rw [low_eq nonzero, magnitude_eq] at lowLe
  split at lowLe
  · rename_i atPower
    have smallest := significand_eq_hiddenBit atPower
    rw [smallest] at lowLe
    exact ⟨smallest, by linarith⟩
  · rename_i notPower
    have larger : hiddenBit + 1 ≤ x.significand := by omega
    have largerCast : (hiddenBit : ℚ) + 1 ≤ x.significand := by exact_mod_cast larger
    nlinarith

/-- The smallest number with the exponent of a float and a hidden bit. -/
theorem hiddenBit_mul_quarter (x : Binary64) :
    (4 * hiddenBit : ℚ) * x.quarter = 2 ^ (x.exponent + 52) := by
  rw [mul_right_comm, ← two_zpow_exponent, zpow_add₀ two_ne_zero]
  norm_num [hiddenBit]

/-- The highest bit of a number is no higher than a float that it rounds to can have. -/
theorem IsRoundingOf.floorLog2_lt {num den : ℕ} (numPositive : 0 < num) (denPositive : 0 < den)
    (rounds : x.IsRoundingOf (num / den)) : floorLog2 num den < x.exponent + 53 := by
  obtain ⟨powerLe, -⟩ := zpow_floorLog2 numPositive denPositive
  have quarterPos := x.quarter_pos
  have leHigh : (num : ℚ) / den ≤ x.high := rounds.upper.elim le_of_lt fun tie => tie.2.le
  have bits : x.significand + 1 ≤ 2 * hiddenBit := x.significand_lt
  have bitsCast : (x.significand : ℚ) + 1 ≤ 2 * hiddenBit := by exact_mod_cast bits
  have highLt : x.high < 2 * (4 * hiddenBit * x.quarter) := by
    rw [high_eq, magnitude_eq]
    nlinarith
  rw [hiddenBit_mul_quarter, ← zpow_one_add₀ two_ne_zero] at highLt
  have power := (powerLe.trans leHigh).trans_lt highLt
  have := (zpow_lt_zpow_iff_right₀ one_lt_two).mp power
  omega

/-- The scale at which a number is rounded is that of the float it rounds to, unless the
number is just below the smallest one with this exponent. -/
theorem IsRoundingOf.scale_eq {num den : ℕ} (numPositive : 0 < num) (denPositive : 0 < den)
    (rounds : x.IsRoundingOf (num / den)) :
    max (-1074) (floorLog2 num den - 52) = x.exponent ∨
      max (-1074) (floorLog2 num den - 52) = x.exponent - 1 ∧ x.significand = hiddenBit ∧
        (4 * hiddenBit - 1) * x.quarter ≤ num / den ∧
        (num : ℚ) / den < 4 * hiddenBit * x.quarter := by
  obtain ⟨powerLe, ltPower⟩ := zpow_floorLog2 numPositive denPositive
  have quarterPos := x.quarter_pos
  have notLarger := rounds.floorLog2_lt numPositive denPositive
  rcases x.le_exponent.eq_or_lt with subnormal | exponentGt
  · left
    omega
  rcases lt_or_ge ((num : ℚ) / den) (4 * hiddenBit * x.quarter) with short | long
  · right
    obtain ⟨significandEq, near⟩ := rounds.significand_eq exponentGt short
    refine ⟨?_, significandEq, near, short⟩
    have half : (2 : ℚ) ^ (x.exponent + 51) ≤ (4 * hiddenBit - 1) * x.quarter := by
      have twice : (2 : ℚ) * 2 ^ (x.exponent + 51) = 4 * hiddenBit * x.quarter := by
        rw [hiddenBit_mul_quarter, ← zpow_one_add₀ two_ne_zero]
        congr 1
        omega
      have hidden : (2 : ℚ) ≤ 4 * hiddenBit := by norm_num [hiddenBit]
      nlinarith
    rw [hiddenBit_mul_quarter] at short
    have above := (zpow_lt_zpow_iff_right₀ one_lt_two).mp ((half.trans near).trans_lt ltPower)
    have below := (zpow_lt_zpow_iff_right₀ one_lt_two).mp (powerLe.trans_lt short)
    omega
  · left
    rw [hiddenBit_mul_quarter] at long
    have above := (zpow_lt_zpow_iff_right₀ one_lt_two).mp (long.trans_lt ltPower)
    omega

/-- Zero rounds to zero only. -/
theorem IsRoundingOf.magnitudeBits_eq_zero (rounds : x.IsRoundingOf 0) : x.magnitudeBits = 0 := by
  have zero : x.significand = 0 := by
    by_contra nonzero
    exact lt_irrefl 0 (rounds.pos nonzero)
  have least : x.exponent = -1074 := by
    by_contra different
    obtain ⟨-, significandEq⟩ :=
      normal_of_lt_exponent (lt_of_le_of_ne x.le_exponent (Ne.symm different))
    rw [zero, hiddenBit] at significandEq
    omega
  rw [magnitudeBits_eq, zero, least]
  rfl

/-- The lower midpoint as half a unit below the significand. -/
theorem IsRoundingOf.lower_scaled (rounds : x.IsRoundingOf r) (positive : 0 < r) :
    (2 * x.significand - 1) * 2 ^ x.exponent < 2 * r ∨
      x.significand % 2 = 0 ∧ (2 * x.significand - 1) * 2 ^ x.exponent = 2 * r := by
  have quarterPos := x.quarter_pos
  rw [two_zpow_exponent]
  by_cases zero : x.significand = 0
  · left
    rw [zero]
    push_cast
    linarith
  · have lower := rounds.lower zero
    rw [low_eq zero, magnitude_eq] at lower
    split at lower
    · left
      rcases lower with inside | tie
      · linarith
      · linarith [tie.2]
    · refine lower.imp (fun inside => ?_) (And.imp_right fun tie => ?_)
      · linarith
      · linarith

/-- The upper midpoint as half a unit above the significand. -/
theorem IsRoundingOf.upper_scaled (rounds : x.IsRoundingOf r) :
    2 * r < (2 * x.significand + 1) * 2 ^ x.exponent ∨
      x.significand % 2 = 0 ∧ 2 * r = (2 * x.significand + 1) * 2 ^ x.exponent := by
  have highEq : (2 * x.significand + 1) * 2 ^ x.exponent = 2 * x.high := by
    rw [high_eq, magnitude_eq, two_zpow_exponent]
    ring
  rw [highEq]
  refine rounds.upper.imp (fun inside => ?_) (And.imp_right fun tie => ?_)
  · linarith
  · rw [tie]

/-- A number just below the smallest one with an exponent is rounded at the scale below,
where the significand has one bit too many. -/
theorem roundHalfEven_below_power {num den : ℕ} (denPositive : 0 < den)
    (near : (4 * hiddenBit - 1) * x.quarter ≤ num / den)
    (short : (num : ℚ) / den < 4 * hiddenBit * x.quarter) :
    roundHalfEven (num <<< (-(x.exponent - 1)).toNat) (den <<< (x.exponent - 1).toNat) =
      2 * hiddenBit := by
  have quarterPos := x.quarter_pos
  apply roundHalfEven_scaled denPositive <;> rw [two_zpow_exponent_sub_one] <;> push_cast
  · rcases near.lt_or_eq with inside | tie
    · left
      linarith
    · exact .inr ⟨by decide, by linarith⟩
  · left
    linarith

/-- A quotient is rounded to the finite float that it rounds to. -/
theorem IsRoundingOf.nearestMagnitude_eq {num den : ℕ} (denPositive : 0 < den)
    (rounds : x.IsRoundingOf (num / den)) (finite : x.isFinite = true) :
    nearestMagnitude num den = x.magnitudeBits := by
  rcases num.eq_zero_or_pos with rfl | numPositive
  · rw [Nat.cast_zero, zero_div] at rounds
    exact rounds.magnitudeBits_eq_zero.symm
  have quotientPos : (0 : ℚ) < num / den := by positivity
  have bitsEq := x.magnitudeBits_eq
  have scaleGe : -1074 ≤ max (-1074) (floorLog2 num den - 52) := le_max_left _ _
  suffices rounded : (max (-1074) (floorLog2 num den - 52) + 1074).toNat * hiddenBit +
      roundHalfEven (num <<< (-max (-1074) (floorLog2 num den - 52)).toNat)
        (den <<< (max (-1074) (floorLog2 num den - 52)).toNat) = x.magnitudeBits by
    rw [nearestMagnitude, if_neg numPositive.ne']
    simp only [rounded]
    exact min_eq_left (magnitudeBits_lt_of_isFinite finite).le
  rcases rounds.scale_eq numPositive denPositive with scale | ⟨scale, significandEq, near, short⟩
  · rw [scale, roundHalfEven_scaled denPositive (rounds.lower_scaled quotientPos)
      rounds.upper_scaled, bitsEq]
  · -- the additional bit carries into the exponent
    have exponentEq : (x.exponent + 1074).toNat = (x.exponent - 1 + 1074).toNat + 1 := by omega
    rw [scale, roundHalfEven_below_power denPositive near short, bitsEq, significandEq, exponentEq]
    ring

/-- A decimal is read as the finite float that it rounds to. -/
theorem IsRoundingOf.ofDecimal_eq {digits places : ℕ}
    (rounds : x.IsRoundingOf (digits / 10 ^ places)) (finite : x.isFinite = true) :
    ofDecimal x.isNegative digits places = x := by
  have castEq : ((Nat.pow 10 places : ℕ) : ℚ) = 10 ^ places := Nat.cast_pow 10 places
  rw [← castEq] at rounds
  have nearest : nearestMagnitude digits (Nat.pow 10 places) = x.magnitudeBits :=
    rounds.nearestMagnitude_eq (Nat.pow_pos (by decide)) finite
  rw [ofDecimal, nearest, ofMagnitude_magnitudeBits]

end StackScript.Binary64
