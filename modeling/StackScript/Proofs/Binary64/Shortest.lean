import StackScript.Proofs.Binary64.Nearest

/-!
# The shortest decimal is the shortest

Of the decimals that round to a finite float `shortest` has the fewest digits, and of
those with as few digits it is one of the nearest. On each grid the two points around
the value stand for all others. A decimal of `k` digits that rounds to the float shows
that the grid of `k` digits has such a point, even if the decimal has another scale
than the float: then a power of ten lies between the two. The grid of seventeen digits
always has one, because it is finer than the distance between two floats.
-/

namespace StackScript

namespace Decimal

/-- The number that a decimal stands for. -/
def value (d : Decimal) : ℚ :=
  d.digits * 10 ^ d.exponent

/-- How many digits are written, without leading zeros. -/
def length (d : Decimal) : ℕ :=
  (digitsOf d.digits).length

theorem length_pos (d : Decimal) : 0 < d.length :=
  Nat.length_toDigits_pos

theorem length_le_iff {d : Decimal} {k : ℕ} (positive : 0 < k) :
    d.length ≤ k ↔ d.digits < 10 ^ k :=
  Nat.length_toDigits_le_iff (by decide) positive

theorem digits_lt (d : Decimal) : d.digits < 10 ^ d.length :=
  (length_le_iff d.length_pos).mp le_rfl

/-- The leading digit is not a zero. -/
theorem le_digits {d : Decimal} (nonzero : d.digits ≠ 0) : 10 ^ (d.length - 1) ≤ d.digits := by
  rcases (d.length - 1).eq_zero_or_pos with single | more
  · rw [single, pow_zero]
    exact Nat.pos_of_ne_zero nonzero
  · by_contra fewer
    have short := (length_le_iff more).mpr (Nat.lt_of_not_le fewer)
    omega

/-! ## Trailing zeros -/

theorem value_trim (d : Decimal) : d.trim.value = d.value := by
  fun_induction trim d with
  | case1 d trailing ih =>
    have ten : (d.digits : ℚ) = (d.digits / 10 : ℕ) * 10 := by
      have division : d.digits = d.digits / 10 * 10 := by omega
      exact_mod_cast division
    rw [ih, value, value, zpow_add_one₀ (by norm_num), ten]
    ring
  | case2 => rfl

theorem digits_trim_le (d : Decimal) : d.trim.digits ≤ d.digits := by
  fun_induction trim d with
  | case1 d trailing ih => exact ih.trans (Nat.div_le_self _ _)
  | case2 => exact le_rfl

/-- A power of ten takes no more digits than the numbers below it, once it is trimmed. -/
theorem length_trim_le {d : Decimal} {k : ℕ} (positive : 0 < k) (le : d.digits ≤ 10 ^ k) :
    d.trim.length ≤ k := by
  rw [length_le_iff positive]
  rcases le.lt_or_eq with below | power
  · exact d.digits_trim_le.trans_lt below
  · obtain ⟨j, rfl⟩ := Nat.exists_eq_succ_of_ne_zero positive.ne'
    rw [pow_succ] at power
    have tenPos : 0 < 10 ^ j := Nat.pow_pos (by decide)
    rw [trim, if_pos (by omega)]
    calc
      (trim ⟨d.digits / 10, d.exponent + 1⟩).digits ≤ d.digits / 10 := digits_trim_le _
      _ < 10 ^ (j + 1) := by omega

/-! ## Comparison with a binary fraction -/

/-- Both sides of a comparison are stretched by the same factor. -/
theorem compareScaled_eq (a : ℕ) (i : ℤ) (b : ℕ) (j : ℤ) :
    compareScaled a i b j = compare ((a : ℚ) * 10 ^ i) (b * 2 ^ j) := by
  have stretchPos : (0 : ℚ) < 10 ^ (-i).toNat * 2 ^ (-j).toNat := by positivity
  have left : (((a * Nat.pow 10 i.toNat) <<< (-j).toNat : ℕ) : ℚ) =
      a * 10 ^ i * (10 ^ (-i).toNat * 2 ^ (-j).toNat) := by
    have scale := zpow_mul_pow_toNat_neg (by norm_num : (10 : ℚ) ≠ 0) i
    rw [Nat.shiftLeft_eq, Nat.pow_eq]
    push_cast
    rw [← scale]
    ring
  have right : (((b * Nat.pow 10 (-i).toNat) <<< j.toNat : ℕ) : ℚ) =
      b * 2 ^ j * (10 ^ (-i).toNat * 2 ^ (-j).toNat) := by
    have scale := zpow_mul_pow_toNat_neg two_ne_zero j
    rw [Nat.shiftLeft_eq, Nat.pow_eq]
    push_cast
    rw [← scale]
    ring
  rw [compareScaled]
  generalize (a * Nat.pow 10 i.toNat) <<< (-j).toNat = first at left ⊢
  generalize (b * Nat.pow 10 (-i).toNat) <<< j.toNat = second at right ⊢
  rcases lt_trichotomy ((a : ℚ) * 10 ^ i) (b * 2 ^ j) with less | equal | greater
  · rw [compare_lt_iff_lt.mpr less, compare_lt_iff_lt, ← Nat.cast_lt (α := ℚ), left, right]
    exact mul_lt_mul_of_pos_right less stretchPos
  · rw [compare_eq_iff_eq.mpr equal, compare_eq_iff_eq, ← Nat.cast_inj (R := ℚ), left, right, equal]
  · rw [compare_gt_iff_gt.mpr greater, compare_gt_iff_gt, ← Nat.cast_lt (α := ℚ), left, right]
    exact mul_lt_mul_of_pos_right greater stretchPos

end Decimal

namespace Binary64

variable {x : Binary64}

/-- The decimals that read back are those that round to the float. -/
theorem readsBack_iff (nonzero : x.significand ≠ 0) (d : Decimal) :
    x.readsBack d = true ↔ x.IsRoundingOf d.value := by
  rw [isRoundingOf_iff nonzero, Decimal.value, low, high, quarter]
  simp only [readsBack, Decimal.compareScaled_eq, Bool.and_eq_true, Bool.or_eq_true, beq_iff_eq,
    compare_lt_iff_lt, compare_gt_iff_gt, compare_eq_iff_eq]
  rw [eq_comm (a := (d.digits : ℚ) * 10 ^ d.exponent) (b := x.lowerMidpoint * 2 ^ (x.exponent - 2))]

/-! ## The scale of a float -/

theorem denominator_pos (x : Binary64) : 0 < x.denominator := by
  rw [denominator, Nat.shiftLeft_eq, one_mul]
  exact Nat.two_pow_pos _

theorem magnitude_mul_denominator (x : Binary64) : x.magnitude * x.denominator = x.numerator := by
  rw [magnitude, denominator, numerator, Nat.shiftLeft_eq, Nat.shiftLeft_eq, one_mul, mul_assoc]
  push_cast
  rw [zpow_mul_pow_toNat_neg two_ne_zero]

theorem numerator_pos (nonzero : x.significand ≠ 0) : 0 < x.numerator := by
  rw [numerator, Nat.shiftLeft_eq]
  exact Nat.mul_pos (Nat.pos_of_ne_zero nonzero) (Nat.two_pow_pos _)

/-- The whole part of a quotient that is not below one has the digits of the quotient. -/
theorem pow_length_div_le {num den : ℕ} (positive : 0 < den) (atLeast : den ≤ num) :
    den * 10 ^ ((Decimal.digitsOf (num / den)).length - 1) ≤ num ∧
      num < den * 10 ^ (Decimal.digitsOf (num / den)).length := by
  have whole : num / den ≠ 0 := (Nat.div_pos atLeast positive).ne'
  constructor
  · rw [mul_comm]
    exact (Nat.le_div_iff_mul_le positive).mp (Decimal.le_digits (d := ⟨num / den, 0⟩) whole)
  · rw [mul_comm]
    exact (Nat.div_lt_iff_lt_mul positive).mp (Decimal.digits_lt ⟨num / den, 0⟩)

/-- A quotient of at least one has the scale of its whole part. -/
theorem zpow_length_div {num den : ℕ} (positive : 0 < den) (atLeast : den ≤ num) :
    (10 : ℚ) ^ ((Decimal.digitsOf (num / den)).length - 1 : ℤ) * den ≤ num ∧
      num < (10 : ℚ) ^ ((Decimal.digitsOf (num / den)).length : ℤ) * den := by
  obtain ⟨lower, upper⟩ := pow_length_div_le positive atLeast
  have lengthPos : 0 < (Decimal.digitsOf (num / den)).length := Nat.length_toDigits_pos
  generalize (Decimal.digitsOf (num / den)).length = count at lower upper lengthPos ⊢
  have exponentEq : (count : ℤ) - 1 = (count - 1 : ℕ) := by omega
  rw [exponentEq, zpow_natCast, zpow_natCast, mul_comm _ (den : ℚ), mul_comm _ (den : ℚ)]
  exact ⟨by exact_mod_cast lower, by exact_mod_cast upper⟩

/-- A quotient between two negative powers of ten, the larger one included, has its scale
below the larger one or, if it is this power, above it. -/
theorem zpow_of_inverse {num den zeros : ℕ} (positive : 0 < num)
    (lower : num * 10 ^ zeros ≤ den) (upper : den < num * 10 ^ (zeros + 1)) :
    (10 : ℚ) ^ ((if num * 10 ^ zeros < den then -zeros else 1 - zeros : ℤ) - 1) * den ≤ num ∧
      num < (10 : ℚ) ^ (if num * 10 ^ zeros < den then -zeros else 1 - zeros : ℤ) * den := by
  have ten : (10 : ℚ) ≠ 0 := by norm_num
  have upperCast : (den : ℚ) < num * 10 ^ (zeros + 1) := by exact_mod_cast upper
  split
  · rename_i strict
    have strictCast : (num : ℚ) * 10 ^ zeros < den := by exact_mod_cast strict
    have exponentEq : -(zeros : ℤ) - 1 = -((zeros + 1 : ℕ) : ℤ) := by omega
    rw [exponentEq, zpow_neg, zpow_neg, zpow_natCast, zpow_natCast,
      inv_mul_le_iff₀ (by positivity), lt_inv_mul_iff₀ (by positivity), mul_comm,
      mul_comm _ (num : ℚ)]
    exact ⟨upperCast.le, strictCast⟩
  · rename_i notStrict
    have exact : (num : ℚ) * 10 ^ zeros = den := by
      exact_mod_cast Nat.le_antisymm lower (Nat.le_of_not_lt notStrict)
    have numPos : (0 : ℚ) < num := Nat.cast_pos.mpr positive
    have power : (10 : ℚ) ^ (1 - zeros : ℤ) * den = 10 * num := by
      rw [zpow_sub₀ ten, zpow_one, zpow_natCast, ← exact]
      field_simp
    constructor
    · rw [zpow_sub_one₀ ten, mul_right_comm, power]
      linarith
    · rw [power]
      linarith

/-- The scale of a float is that of its leading decimal digit. -/
theorem zpow_decimalScale (nonzero : x.significand ≠ 0) :
    (10 : ℚ) ^ (x.decimalScale - 1) ≤ x.magnitude ∧ x.magnitude < 10 ^ x.decimalScale := by
  have numPositive := numerator_pos nonzero
  have denPositive := x.denominator_pos
  have denPos : (0 : ℚ) < x.denominator := Nat.cast_pos.mpr denPositive
  rw [← mul_le_mul_iff_of_pos_right denPos, ← mul_lt_mul_iff_of_pos_right denPos,
    magnitude_mul_denominator, decimalScale]
  split
  · rename_i atLeast
    exact zpow_length_div denPositive atLeast
  · rename_i below
    obtain ⟨lower, upper⟩ := pow_length_div_le numPositive (Nat.le_of_not_le below)
    have lengthPos : 0 < (Decimal.digitsOf (x.denominator / x.numerator)).length :=
      Nat.length_toDigits_pos
    generalize (Decimal.digitsOf (x.denominator / x.numerator)).length = count
      at lower upper lengthPos ⊢
    obtain ⟨zeros, rfl⟩ := Nat.exists_eq_succ_of_ne_zero lengthPos.ne'
    exact zpow_of_inverse numPositive lower upper

/-! ## Grids of powers of ten -/

section Grid

variable {e : ℤ} {d : Decimal} {n below : ℕ}

/-- The number of grid steps to a float is the quotient that the search divides. -/
theorem magnitude_eq_gridQuotient (x : Binary64) (e : ℤ) :
    x.magnitude = (x.numerator * Nat.pow 10 (-e).toNat : ℕ) /
      (x.denominator * Nat.pow 10 e.toNat : ℕ) * 10 ^ e := by
  have scale := zpow_mul_pow_toNat_neg (by norm_num : (10 : ℚ) ≠ 0) e
  have denPos : (0 : ℚ) < x.denominator := Nat.cast_pos.mpr x.denominator_pos
  rw [Nat.pow_eq, Nat.pow_eq]
  push_cast
  rw [← magnitude_mul_denominator, ← scale]
  field_simp

/-- The search on a grid takes the one of the two points around the float that rounds to
it, and the nearer one if both do. -/
theorem onGrid_cases (nonzero : x.significand ≠ 0) (e : ℤ) :
    ∃ below : ℕ, below * 10 ^ e ≤ x.magnitude ∧ x.magnitude < (below + 1 : ℕ) * 10 ^ e ∧
      (x.onGrid e = some ⟨below, e⟩ ∧ x.IsRoundingOf (below * 10 ^ e) ∧
          (x.IsRoundingOf ((below + 1 : ℕ) * 10 ^ e) →
            x.magnitude - below * 10 ^ e ≤ (below + 1 : ℕ) * 10 ^ e - x.magnitude) ∨
        x.onGrid e = some ⟨below + 1, e⟩ ∧ x.IsRoundingOf ((below + 1 : ℕ) * 10 ^ e) ∧
          (x.IsRoundingOf (below * 10 ^ e) →
            (below + 1 : ℕ) * 10 ^ e - x.magnitude ≤ x.magnitude - below * 10 ^ e) ∨
        x.onGrid e = none ∧ ¬ x.IsRoundingOf (below * 10 ^ e) ∧
          ¬ x.IsRoundingOf ((below + 1 : ℕ) * 10 ^ e)) := by
  have magnitudeEq := x.magnitude_eq_gridQuotient e
  have denPositive : 0 < x.denominator * Nat.pow 10 e.toNat :=
    Nat.mul_pos x.denominator_pos (Nat.pow_pos (by decide))
  have readsBack (count : ℕ) : x.readsBack ⟨count, e⟩ = true ↔ x.IsRoundingOf (count * 10 ^ e) :=
    readsBack_iff nonzero ⟨count, e⟩
  have gridPos : (0 : ℚ) < 10 ^ e := by positivity
  rw [onGrid]
  generalize x.numerator * Nat.pow 10 (-e).toNat = num at magnitudeEq ⊢
  generalize x.denominator * Nat.pow 10 e.toNat = den at magnitudeEq denPositive ⊢
  have denPos : (0 : ℚ) < den := Nat.cast_pos.mpr denPositive
  have division : (num : ℚ) = den * (num / den : ℕ) + (num % den : ℕ) := by
    exact_mod_cast (Nat.div_add_mod num den).symm
  have restLt : ((num % den : ℕ) : ℚ) < den := Nat.cast_lt.mpr (Nat.mod_lt num denPositive)
  have restNonneg : (0 : ℚ) ≤ (num % den : ℕ) := Nat.cast_nonneg _
  generalize num / den = below at division ⊢
  generalize num % den = rest at division restLt restNonneg ⊢
  rw [division] at magnitudeEq
  have gap : x.magnitude - below * 10 ^ e = rest / den * 10 ^ e := by
    rw [magnitudeEq]
    field_simp
    ring
  have step : ((below + 1 : ℕ) : ℚ) * 10 ^ e = below * 10 ^ e + 10 ^ e := by
    push_cast
    ring
  have gapNonneg : 0 ≤ (rest : ℚ) / den * 10 ^ e := by positivity
  have gapLt : (rest : ℚ) / den * 10 ^ e < 10 ^ e :=
    mul_lt_of_lt_one_left gridPos ((div_lt_one denPos).mpr restLt)
  have closer : 2 * rest < den ↔ 2 * (rest / den * 10 ^ e) < (10 : ℚ) ^ e := by
    rw [← mul_assoc, mul_lt_iff_lt_one_left gridPos, mul_div_assoc', div_lt_one denPos]
    exact_mod_cast Iff.rfl
  refine ⟨below, by linarith, by linarith, ?_⟩
  rw [← readsBack, ← readsBack, gap]
  generalize x.readsBack ⟨below, e⟩ = lower
  generalize x.readsBack ⟨below + 1, e⟩ = upper
  cases lower with
  | true =>
    cases upper with
    | true =>
      by_cases nearer : 2 * rest < den
      · exact .inl ⟨if_pos nearer, rfl, fun _ => by linarith [closer.mp nearer]⟩
      · exact .inr (.inl ⟨if_neg nearer, rfl, fun _ => by linarith [mt closer.mpr nearer]⟩)
    | false => exact .inl ⟨rfl, rfl, nofun⟩
  | false =>
    cases upper with
    | true => exact .inr (.inl ⟨rfl, rfl, nofun⟩)
    | false => exact .inr (.inr ⟨rfl, Bool.false_ne_true, Bool.false_ne_true⟩)

/-- If a point of the grid rounds to the float, so does the point next to the float on
the same side, and that one is no farther away. -/
theorem IsRoundingOf.neighbour (nonzero : x.significand ≠ 0)
    (lower : below * 10 ^ e ≤ x.magnitude) (upper : x.magnitude < (below + 1 : ℕ) * 10 ^ e)
    (rounds : x.IsRoundingOf (n * 10 ^ e)) :
    x.IsRoundingOf (below * 10 ^ e) ∧
        x.magnitude - below * 10 ^ e ≤ |n * 10 ^ e - x.magnitude| ∨
      x.IsRoundingOf ((below + 1 : ℕ) * 10 ^ e) ∧
        (below + 1 : ℕ) * 10 ^ e - x.magnitude ≤ |n * 10 ^ e - x.magnitude| := by
  have gridPos : (0 : ℚ) < 10 ^ e := by positivity
  rcases Nat.lt_or_ge below n with above | notAbove
  · right
    have order : ((below + 1 : ℕ) : ℚ) * 10 ^ e ≤ n * 10 ^ e :=
      mul_le_mul_of_nonneg_right (Nat.cast_le.mpr above) gridPos.le
    refine ⟨rounds.of_between nonzero (.inr ⟨upper.le, order⟩), ?_⟩
    rw [abs_of_nonneg (by linarith)]
    linarith
  · left
    have order : (n : ℚ) * 10 ^ e ≤ below * 10 ^ e :=
      mul_le_mul_of_nonneg_right (Nat.cast_le.mpr notAbove) gridPos.le
    refine ⟨rounds.of_between nonzero (.inl ⟨order, lower⟩), ?_⟩
    rw [abs_of_nonpos (by linarith)]
    linarith

/-- What the search on a grid gives: a point that rounds to the float, and none of the
grid is nearer. It is the point below the float or the next. -/
structure IsNearestOnGrid (x : Binary64) (e : ℤ) (d : Decimal) : Prop where
  rounds : x.IsRoundingOf d.value
  nearest : ∀ n : ℕ, x.IsRoundingOf (n * 10 ^ e) →
    |d.value - x.magnitude| ≤ |n * 10 ^ e - x.magnitude|
  sub_one_le : ((d.digits : ℚ) - 1) * 10 ^ e ≤ x.magnitude

theorem isNearestOnGrid_of_onGrid (nonzero : x.significand ≠ 0) (found : x.onGrid e = some d) :
    x.IsNearestOnGrid e d := by
  obtain ⟨below, lower, upper, cases⟩ := onGrid_cases nonzero e
  have gridPos : (0 : ℚ) < 10 ^ e := by positivity
  rcases cases with ⟨isBelow, rounds, nearer⟩ | ⟨isAbove, rounds, nearer⟩ | ⟨missing, -, -⟩
  · obtain rfl := Option.some.inj (found.symm.trans isBelow)
    refine ⟨rounds, fun n other => ?_, by linarith⟩
    rw [Decimal.value, abs_of_nonpos (by linarith)]
    rcases other.neighbour nonzero lower upper with ⟨-, le⟩ | ⟨roundsAbove, le⟩
    · linarith
    · linarith [nearer roundsAbove]
  · obtain rfl := Option.some.inj (found.symm.trans isAbove)
    refine ⟨rounds, fun n other => ?_, by push_cast; linarith⟩
    rw [Decimal.value, abs_of_nonneg (by linarith)]
    rcases other.neighbour nonzero lower upper with ⟨roundsBelow, le⟩ | ⟨-, le⟩
    · linarith [nearer roundsBelow]
    · linarith
  · cases missing.symm.trans found

/-- The search finds a point on every grid that has one. -/
theorem IsRoundingOf.onGrid_ne_none (nonzero : x.significand ≠ 0)
    (rounds : x.IsRoundingOf (n * 10 ^ e)) : x.onGrid e ≠ none := by
  obtain ⟨below, lower, upper, cases⟩ := onGrid_cases nonzero e
  rcases cases with ⟨isBelow, -, -⟩ | ⟨isAbove, -, -⟩ | ⟨-, notBelow, notAbove⟩
  · exact isBelow ▸ Option.some_ne_none _
  · exact isAbove ▸ Option.some_ne_none _
  · rcases rounds.neighbour nonzero lower upper with ⟨roundsBelow, -⟩ | ⟨roundsAbove, -⟩
    · exact absurd roundsBelow notBelow
    · exact absurd roundsAbove notAbove

end Grid

/-- A decimal that rounds to the float is matched on the grid that has as many digits at
the scale of the float. If the decimal has another scale, a power of ten lies between. -/
theorem IsRoundingOf.exists_on_grid (nonzero : x.significand ≠ 0) {d : Decimal}
    (rounds : x.IsRoundingOf d.value) :
    ∃ n : ℕ, x.IsRoundingOf (n * 10 ^ (x.decimalScale - d.length)) ∧
      |n * 10 ^ (x.decimalScale - d.length) - x.magnitude| ≤ |d.value - x.magnitude| := by
  obtain ⟨scaleLower, scaleUpper⟩ := zpow_decimalScale nonzero
  have ten : (1 : ℚ) < 10 := by norm_num
  have tenNe : (10 : ℚ) ≠ 0 := by norm_num
  have digitsNe : d.digits ≠ 0 := by
    intro zero
    rw [Decimal.value, zero, Nat.cast_zero, zero_mul] at rounds
    exact lt_irrefl 0 (rounds.pos nonzero)
  have lengthPos := d.length_pos
  have leadLower : (10 : ℚ) ^ (d.length - 1 + d.exponent : ℤ) ≤ d.value := by
    have le : (10 : ℚ) ^ (d.length - 1) ≤ d.digits := by exact_mod_cast Decimal.le_digits digitsNe
    have exponentEq : (d.length : ℤ) - 1 = (d.length - 1 : ℕ) := by omega
    rw [zpow_add₀ tenNe, exponentEq, zpow_natCast, Decimal.value]
    gcongr
  have leadUpper : d.value < (10 : ℚ) ^ (d.length + d.exponent : ℤ) := by
    have lt : (d.digits : ℚ) < 10 ^ d.length := by exact_mod_cast d.digits_lt
    rw [zpow_add₀ tenNe, zpow_natCast, Decimal.value]
    gcongr
  have onGrid (k : ℕ) : ((10 ^ k : ℕ) : ℚ) * 10 ^ (x.decimalScale - d.length) =
      10 ^ (x.decimalScale - d.length + k) := by
    rw [zpow_add₀ tenNe, zpow_natCast]
    push_cast
    ring
  rcases lt_trichotomy (d.length + d.exponent : ℤ) x.decimalScale with smaller | same | larger
  · -- the power of ten with the scale of the float is above the decimal
    refine ⟨10 ^ (d.length - 1), ?_⟩
    have power : x.decimalScale - d.length + (d.length - 1 : ℕ) = x.decimalScale - 1 := by omega
    have order : d.value ≤ 10 ^ (x.decimalScale - 1) :=
      leadUpper.le.trans (zpow_le_zpow_right₀ ten.le (by omega))
    rw [onGrid, power]
    refine ⟨rounds.of_between nonzero (.inl ⟨order, scaleLower⟩), ?_⟩
    rw [abs_of_nonpos (by linarith), abs_of_nonpos (by linarith)]
    linarith
  · refine ⟨d.digits, ?_⟩
    have exponentEq : x.decimalScale - d.length = d.exponent := by omega
    rw [exponentEq]
    exact ⟨rounds, le_rfl⟩
  · refine ⟨10 ^ d.length, ?_⟩
    have power : x.decimalScale - d.length + d.length = x.decimalScale := by omega
    have order : 10 ^ x.decimalScale ≤ d.value :=
      (zpow_le_zpow_right₀ ten.le (by omega)).trans leadLower
    rw [onGrid, power]
    refine ⟨rounds.of_between nonzero (.inr ⟨scaleUpper.le, order⟩), ?_⟩
    rw [abs_of_nonneg (by linarith), abs_of_nonneg (by linarith)]
    linarith

/-- The grid of seventeen digits is finer than the distance between two floats, so that
one of its points rounds to the float. -/
theorem exists_on_seventeenth_grid (nonzero : x.significand ≠ 0) :
    ∃ n : ℕ, x.IsRoundingOf (n * 10 ^ (x.decimalScale - 17)) := by
  obtain ⟨scaleLower, -⟩ := zpow_decimalScale nonzero
  obtain ⟨below, lower, upper, -⟩ := onGrid_cases nonzero (x.decimalScale - 17)
  have quarterPos := x.quarter_pos
  have step : ((below + 1 : ℕ) : ℚ) * 10 ^ (x.decimalScale - 17) =
      below * 10 ^ (x.decimalScale - 17) + 10 ^ (x.decimalScale - 17) := by
    push_cast
    ring
  have fine : 10 ^ 16 * (10 : ℚ) ^ (x.decimalScale - 17) ≤ 4 * x.significand * x.quarter := by
    have exponentEq : x.decimalScale - 1 = (16 : ℕ) + (x.decimalScale - 17) := by omega
    rw [exponentEq, zpow_add₀ (by norm_num), zpow_natCast, magnitude_eq] at scaleLower
    exact scaleLower
  have lowLt := low_lt_magnitude nonzero
  have ltHigh := x.magnitude_lt_high
  have highEq := x.high_eq
  generalize (10 : ℚ) ^ (x.decimalScale - 17) = grid at *
  have roundsAbove (short : (below + 1 : ℕ) * grid < x.high) : ∃ n : ℕ, x.IsRoundingOf (n * grid) :=
    ⟨below + 1, (isRoundingOf_iff nonzero).mpr ⟨.inl (lowLt.trans upper), .inl short⟩⟩
  by_cases atPower : x.fraction = 0 ∧ 1 < x.biasedExponent
  · -- the midpoint above is twice as far away as the one below
    have smaller : grid < 2 * x.quarter := by
      rw [significand_eq_hiddenBit atPower] at fine
      norm_num [hiddenBit] at fine
      linarith
    apply roundsAbove
    linarith
  · have lowEq := low_eq nonzero
    rw [if_neg atPower] at lowEq
    have smaller : grid < 4 * x.quarter := by
      have bits : (x.significand : ℚ) < 2 ^ 53 := by exact_mod_cast x.significand_lt
      nlinarith
    rcases lt_or_ge x.low (below * grid) with near | far
    · exact ⟨below, (isRoundingOf_iff nonzero).mpr ⟨.inl near, .inl (by linarith)⟩⟩
    · apply roundsAbove
      linarith

/-! ## The search through the grids -/

/-- The first place where a search in a range succeeds. -/
theorem exists_first_of_findSome?_range {α : Type} {f : ℕ → Option α} {count : ℕ} {found : α}
    (success : (List.range count).findSome? f = some found) :
    ∃ place < count, f place = some found ∧ ∀ before < place, f before = none := by
  obtain ⟨before, place, after, split, finds, fails⟩ := List.findSome?_eq_some_iff.mp success
  rw [List.range_eq_range', List.range'_eq_append_iff] at split
  obtain ⟨length, le, rfl, rest⟩ := split
  rw [eq_comm, List.range'_eq_cons_iff] at rest
  obtain ⟨rfl, more, -⟩ := rest
  refine ⟨length, by omega, by simpa using finds, ?_⟩
  intro earlier lt
  exact fails earlier (by simpa using lt)

/-- The decimal is as short as one that rounds to the float can be, and no other one so
short is nearer. -/
structure IsShortest (x : Binary64) (d : Decimal) : Prop where
  rounds : x.IsRoundingOf d.value
  fewest : ∀ other : Decimal, x.IsRoundingOf other.value → d.length ≤ other.length
  nearest : ∀ other : Decimal, x.IsRoundingOf other.value → other.length = d.length →
    |d.value - x.magnitude| ≤ |other.value - x.magnitude|

/-- The shortest decimal is found on the first grid that has a point. -/
theorem exists_grid_of_shortest (nonzero : x.significand ≠ 0) :
    ∃ (places : ℕ) (d : Decimal), x.IsNearestOnGrid (x.decimalScale - (places + 1 : ℕ)) d ∧
      (∀ fewer < places, x.onGrid (x.decimalScale - (fewer + 1 : ℕ)) = none) ∧ places < 17 ∧
      x.shortest = d.trim := by
  obtain ⟨n, rounds⟩ := exists_on_seventeenth_grid nonzero
  have isSome : ((List.range 17).findSome? fun places =>
      x.onGrid (x.decimalScale - (places + 1 : ℕ))).isSome = true := by
    rw [List.findSome?_isSome_iff]
    exact ⟨16, by decide, Option.isSome_iff_ne_none.mpr (rounds.onGrid_ne_none nonzero)⟩
  obtain ⟨d, found⟩ := Option.isSome_iff_exists.mp isSome
  obtain ⟨places, lt, onGrid, before⟩ := exists_first_of_findSome?_range found
  refine ⟨places, d, isNearestOnGrid_of_onGrid nonzero onGrid, before, lt, ?_⟩
  rw [shortest, if_neg nonzero]
  simp only [found, Option.getD_some]

/-- A point of the grid of `places + 1` digits has no more digits, once it is trimmed. -/
theorem IsNearestOnGrid.length_trim_le {places : ℕ} {d : Decimal} (nonzero : x.significand ≠ 0)
    (onGrid : x.IsNearestOnGrid (x.decimalScale - (places + 1 : ℕ)) d) :
    d.trim.length ≤ places + 1 := by
  obtain ⟨-, scaleUpper⟩ := zpow_decimalScale nonzero
  have gridPos : (0 : ℚ) < 10 ^ (x.decimalScale - (places + 1 : ℕ)) := by positivity
  have exponentEq : x.decimalScale = (places + 1 : ℕ) + (x.decimalScale - (places + 1 : ℕ)) := by
    omega
  have power : (10 : ℚ) ^ x.decimalScale =
      10 ^ (places + 1) * 10 ^ (x.decimalScale - (places + 1 : ℕ)) := by
    conv_lhs => rw [exponentEq, zpow_add₀ (by norm_num), zpow_natCast]
  have below : (d.digits : ℚ) - 1 < 10 ^ (places + 1) := by
    refine lt_of_mul_lt_mul_right ?_ gridPos.le
    rw [← power]
    exact onGrid.sub_one_le.trans_lt scaleUpper
  apply Decimal.length_trim_le (Nat.succ_pos _)
  have lt : (d.digits : ℚ) < 10 ^ (places + 1) + 1 := by linarith
  have natLt : d.digits < 10 ^ (places + 1) + 1 := by exact_mod_cast lt
  omega

/-- Zero rounds to the zeros. -/
theorem isRoundingOf_zero (zero : x.significand = 0) : x.IsRoundingOf 0 := by
  constructor
  · intro v scaled
    rw [magnitude_eq_zero zero, sub_self, abs_zero]
    exact abs_nonneg _
  · intro v scaled different tie
    rw [zero]

/-- The search gives the shortest decimal, and of several the nearest. -/
theorem isShortest_shortest (x : Binary64) : x.IsShortest x.shortest := by
  by_cases zero : x.significand = 0
  · have shortestEq : x.shortest = ⟨0, 0⟩ := if_pos zero
    have valueEq : (⟨0, 0⟩ : Decimal).value = 0 := by simp [Decimal.value]
    rw [shortestEq]
    refine ⟨valueEq ▸ isRoundingOf_zero zero, fun other _ => other.length_pos, fun other _ _ => ?_⟩
    rw [valueEq, magnitude_eq_zero zero, sub_self, abs_zero]
    exact abs_nonneg _
  · obtain ⟨places, d, onGrid, before, lt, shortestEq⟩ := exists_grid_of_shortest zero
    have short := onGrid.length_trim_le zero
    rw [shortestEq]
    -- a decimal that rounds to the float shows a point on the grid of its length
    have notShorter (other : Decimal) (rounds : x.IsRoundingOf other.value) :
        places + 1 ≤ other.length := by
      by_contra shorter
      obtain ⟨n, roundsOnGrid, -⟩ := rounds.exists_on_grid zero
      have positive := other.length_pos
      have lengthEq : other.length - 1 + 1 = other.length := by omega
      apply roundsOnGrid.onGrid_ne_none zero
      rw [← lengthEq]
      exact before (other.length - 1) (by omega)
    refine ⟨?_, ?_, ?_⟩
    · rw [Decimal.value_trim]
      exact onGrid.rounds
    · intro other rounds
      exact short.trans (notShorter other rounds)
    · intro other rounds same
      obtain ⟨n, roundsOnGrid, nearer⟩ := rounds.exists_on_grid zero
      have lengthEq : other.length = places + 1 := by
        have := notShorter other rounds
        omega
      rw [lengthEq] at roundsOnGrid nearer
      rw [Decimal.value_trim]
      exact (onGrid.nearest n roundsOnGrid).trans nearer

end Binary64

end StackScript
