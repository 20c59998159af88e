import StackScript.Proofs.Binary64.Rounding
import StackScript.Proofs.Binary64.Shortest
import StackScript.Proofs.Lexis.Spelling
import StackScript.Proofs.Source
import StackScript.Parsing
import StackScript.Value

/-!
# Printed floats

A printed finite float denotes its shortest decimal. From `0.0001` on and below ten to the
sixteenth it is written with digits on both sides of a point, which the scanner reads as
this float, bit by bit. The other ones have an exponent mark, which is no part of a
number in a source text. Integers are printed without a point and without a mark, so no
integer looks like a float.
-/

namespace StackScript

namespace Token

/-! ## Numbers of digits -/

theorem natOfDigits_append (cs ds : List Char) :
    natOfDigits (cs ++ ds) = natOfDigits cs * 10 ^ ds.length + natOfDigits ds := by
  have split : natOfDigits (cs ++ ds) = Nat.ofDigitChars 10 ds (natOfDigits cs) :=
    Nat.ofDigitChars_append 0
  rw [split, Nat.ofDigitChars_eq_ofDigitChars_zero, mul_comm]
  rfl

theorem isDigit_of_mem_replicate_zero {count : ℕ} {c : Char} (mem : c ∈ List.replicate count '0') :
    c.isDigit = true := by
  rw [List.eq_of_mem_replicate mem]
  rfl

theorem natOfDigits_replicate_zero (count : ℕ) :
    natOfDigits (List.replicate count '0') = 0 := by
  have zeros : natOfDigits (List.replicate count '0') = 10 ^ count * 0 :=
    Nat.ofDigitChars_replicate_zero
  rw [zeros, mul_zero]

end Token

open Token

/-! ## Two ways to write a number -/

/-- Digits on both sides of a point, after a minus sign for negative numbers. The part
before the point has no leading zero unless it is a single zero. -/
inductive SpelledPlain (negative : Bool) : List Char → ℚ → Prop where
  | mk {whole fraction : List Char} (natural : IsNatural whole) (notEmpty : fraction ≠ [])
      (digit : ∀ c ∈ fraction, c.isDigit = true) :
    SpelledPlain negative (sign negative ++ whole ++ '.' :: fraction)
      (natOfDigits (whole ++ fraction) / 10 ^ fraction.length)

/-- A point before digits, if there are any. -/
def behindPoint (fraction : List Char) : List Char :=
  if fraction = [] then [] else '.' :: fraction

/-- One digit other than zero, more digits behind a point or none, and an exponent mark
with a sign and at least two digits, after a minus sign for negative numbers. -/
inductive SpelledScientific (negative : Bool) : List Char → ℚ → Prop where
  | mk {lead : Char} {fraction exponent : List Char} (leadDigit : lead.isDigit = true)
      (leadNonzero : lead ≠ '0') (digit : ∀ c ∈ fraction, c.isDigit = true) (down : Bool)
      (exponentDigit : ∀ c ∈ exponent, c.isDigit = true) (twoDigits : 2 ≤ exponent.length) :
    SpelledScientific negative
      (sign negative ++ lead :: behindPoint fraction ++
        'e' :: (if down then '-' else '+') :: exponent)
      (natOfDigits (lead :: fraction) *
        10 ^ (signed down (natOfDigits exponent) - fraction.length))

/-- The exponent of the leading digit; that of a zero is zero. -/
def LeadsAt (e : ℤ) (r : ℚ) : Prop :=
  r = 0 ∧ e = 0 ∨ 10 ^ e ≤ r ∧ r < 10 ^ (e + 1)

namespace Decimal

variable {d : Decimal}

/-- A zero has no exponent. Trimmed decimals of floats are of this kind. -/
def IsPlainZero (d : Decimal) : Prop :=
  d.digits = 0 → d.exponent = 0

theorem isNatural_digitsOf (n : ℕ) : IsNatural (digitsOf n) :=
  isNatural_toDigits n

theorem natOfDigits_digitsOf (n : ℕ) : natOfDigits (digitsOf n) = n :=
  natOfDigits_toDigits n

theorem head?_digitsOf_ne_zero {n : ℕ} (nonzero : n ≠ 0) : (digitsOf n).head? ≠ some '0' :=
  head?_toDigits_ne_zero (Nat.pos_of_ne_zero nonzero)

theorem leadsAt_leadingExponent (plainZero : d.IsPlainZero) :
    LeadsAt d.leadingExponent d.value := by
  by_cases zero : d.digits = 0
  · left
    have digits : digitsOf d.digits = ['0'] := by rw [zero]; rfl
    rw [value, leadingExponent, digits, zero, plainZero zero]
    simp
  · right
    have lengthEq : (d.length : ℤ) - 1 = (d.length - 1 : ℕ) := by
      have := d.length_pos
      omega
    have exponentPos : (0 : ℚ) < 10 ^ d.exponent := by positivity
    have leadEq : d.leadingExponent = (d.length : ℤ) - 1 + d.exponent := rfl
    have nextEq : d.leadingExponent + 1 = (d.length : ℤ) + d.exponent := by
      rw [leadEq]
      ring
    rw [nextEq, leadEq, lengthEq, zpow_add₀ (by norm_num), zpow_add₀ (by norm_num), zpow_natCast,
      zpow_natCast, value, mul_le_mul_iff_of_pos_right exponentPos,
      mul_lt_mul_iff_of_pos_right exponentPos]
    exact ⟨by exact_mod_cast le_digits zero, by exact_mod_cast d.digits_lt⟩

/-! ## Plain digits -/

/-- With a negative exponent a decimal is a quotient. -/
theorem value_of_neg (down : d.exponent < 0) :
    d.value = (d.digits : ℚ) / 10 ^ (-d.exponent).toNat := by
  have exponentEq : d.exponent = -((-d.exponent).toNat : ℤ) := by omega
  rw [value]
  conv_lhs => rw [exponentEq, zpow_neg, zpow_natCast]
  rw [div_eq_mul_inv]

/-- Digits and zeros behind them, before a point and a zero. -/
theorem spelledPlain_whole (plainZero : d.IsPlainZero) (notNegative : 0 ≤ d.exponent)
    (negative : Bool) : SpelledPlain negative (sign negative ++ d.plainText) d.value := by
  have digits := isNatural_digitsOf d.digits
  have whole : IsNatural (digitsOf d.digits ++ List.replicate d.exponent.toNat '0') := by
    refine ⟨by simp [digits.notEmpty], ?_, ?_⟩
    · intro c mem
      rcases List.mem_append.mp mem with inDigits | inZeros
      · exact digits.digit c inDigits
      · exact isDigit_of_mem_replicate_zero inZeros
    · intro leads
      rw [List.head?_append_of_ne_nil _ digits.notEmpty] at leads
      have zero : d.digits = 0 := by
        by_contra nonzero
        exact head?_digitsOf_ne_zero nonzero leads
      rw [plainZero zero, zero]
      rfl
  have textEq : sign negative ++ d.plainText =
      sign negative ++ (digitsOf d.digits ++ List.replicate d.exponent.toNat '0') ++
        '.' :: ['0'] := by
    simp only [plainText, if_pos notNegative, List.append_assoc, List.cons_append, List.nil_append]
  have valueEq : d.value = (natOfDigits (digitsOf d.digits ++ List.replicate d.exponent.toNat '0' ++
      ['0']) : ℚ) / 10 ^ ['0'].length := by
    have exponentEq : d.exponent = (d.exponent.toNat : ℤ) := by omega
    have lastZero : natOfDigits ['0'] = 0 := rfl
    rw [natOfDigits_append, natOfDigits_append, natOfDigits_digitsOf, natOfDigits_replicate_zero,
      lastZero, List.length_replicate, List.length_singleton, value]
    conv_lhs => rw [exponentEq, zpow_natCast]
    push_cast
    ring
  rw [textEq, valueEq]
  exact .mk whole (List.cons_ne_nil _ _) (by simp)

/-- A point among the digits. -/
theorem spelledPlain_split (plainZero : d.IsPlainZero) (down : d.exponent < 0)
    (leadUp : 0 ≤ d.leadingExponent) (negative : Bool) :
    SpelledPlain negative (sign negative ++ d.plainText) d.value := by
  have digits := isNatural_digitsOf d.digits
  have nonzero : d.digits ≠ 0 := by
    intro zero
    rw [plainZero zero] at down
    exact absurd down (lt_irrefl 0)
  have lengthEq : (digitsOf d.digits).length - (d.leadingExponent + 1).toNat = (-d.exponent).toNat ∧
      0 < (d.leadingExponent + 1).toNat := by
    rw [leadingExponent] at leadUp ⊢
    omega
  have textEq : sign negative ++ d.plainText =
      sign negative ++ (digitsOf d.digits).take (d.leadingExponent + 1).toNat ++
        '.' :: (digitsOf d.digits).drop (d.leadingExponent + 1).toNat := by
    simp only [plainText, if_neg (not_le_of_gt down), if_pos leadUp, List.append_assoc]
  generalize (d.leadingExponent + 1).toNat = count at lengthEq textEq
  have whole : IsNatural ((digitsOf d.digits).take count) := by
    obtain ⟨lead, rest, split⟩ := List.exists_cons_of_ne_nil digits.notEmpty
    obtain ⟨before, rfl⟩ := Nat.exists_eq_succ_of_ne_zero lengthEq.2.ne'
    refine ⟨by simp [split], fun c mem => digits.digit c (List.mem_of_mem_take mem), ?_⟩
    intro leads
    have leadsAll : (digitsOf d.digits).head? = some '0' := by
      rw [split] at leads ⊢
      exact leads
    exact absurd leadsAll (head?_digitsOf_ne_zero nonzero)
  have fraction : (digitsOf d.digits).drop count ≠ [] := by
    intro empty
    have noneLeft := congrArg List.length empty
    rw [List.length_drop, lengthEq.1, List.length_nil] at noneLeft
    omega
  have valueEq : d.value = (natOfDigits ((digitsOf d.digits).take count ++
      (digitsOf d.digits).drop count) : ℚ) / 10 ^ ((digitsOf d.digits).drop count).length := by
    rw [List.take_append_drop, natOfDigits_digitsOf, List.length_drop, lengthEq.1,
      value_of_neg down]
  rw [textEq, valueEq]
  exact .mk whole fraction fun c mem => digits.digit c (List.mem_of_mem_drop mem)

/-- Zeros between the point and the digits. -/
theorem spelledPlain_fraction (down : d.exponent < 0) (leadDown : d.leadingExponent < 0)
    (negative : Bool) : SpelledPlain negative (sign negative ++ d.plainText) d.value := by
  have digits := isNatural_digitsOf d.digits
  have zero : IsNatural ['0'] := ⟨List.cons_ne_nil _ _, by simp, fun _ => rfl⟩
  have lengthEq : (-d.leadingExponent - 1).toNat + (digitsOf d.digits).length =
      (-d.exponent).toNat := by
    rw [leadingExponent] at leadDown ⊢
    omega
  have textEq : sign negative ++ d.plainText = sign negative ++ ['0'] ++
      '.' :: (List.replicate (-d.leadingExponent - 1).toNat '0' ++ digitsOf d.digits) := by
    simp only [plainText, if_neg (not_le_of_gt down), if_neg (not_le_of_gt leadDown),
      List.append_assoc, List.cons_append, List.nil_append]
  have valueEq : d.value = (natOfDigits (['0'] ++
      (List.replicate (-d.leadingExponent - 1).toNat '0' ++ digitsOf d.digits)) : ℚ) /
      10 ^ (List.replicate (-d.leadingExponent - 1).toNat '0' ++ digitsOf d.digits).length := by
    have firstZero : natOfDigits ['0'] = 0 := rfl
    rw [natOfDigits_append, natOfDigits_append, natOfDigits_digitsOf, natOfDigits_replicate_zero,
      firstZero, List.length_append, List.length_replicate, lengthEq, value_of_neg down, zero_mul,
      zero_mul, zero_add, zero_add]
  rw [textEq, valueEq]
  refine .mk zero (by simp [digits.notEmpty]) fun c mem => ?_
  rcases List.mem_append.mp mem with inZeros | inDigits
  · exact isDigit_of_mem_replicate_zero inZeros
  · exact digits.digit c inDigits

theorem spelledPlain_plainText (plainZero : d.IsPlainZero) (negative : Bool) :
    SpelledPlain negative (sign negative ++ d.plainText) d.value := by
  rcases le_or_gt 0 d.exponent with notNegative | down
  · exact spelledPlain_whole plainZero notNegative negative
  · rcases le_or_gt 0 d.leadingExponent with leadUp | leadDown
    · exact spelledPlain_split plainZero down leadUp negative
    · exact spelledPlain_fraction down leadDown negative

/-! ## An exponent mark -/

theorem spelledScientific_scientificText (nonzero : d.digits ≠ 0) (negative : Bool) :
    SpelledScientific negative (sign negative ++ d.scientificText Value.floatStyle) d.value := by
  have digits := isNatural_digitsOf d.digits
  have mark := isNatural_digitsOf d.leadingExponent.natAbs
  have leadNonzero := head?_digitsOf_ne_zero nonzero
  have valueOfDigits := natOfDigits_digitsOf d.digits
  have leadEq : d.leadingExponent = ((digitsOf d.digits).length : ℤ) - 1 + d.exponent := rfl
  obtain ⟨lead, rest, split⟩ := List.exists_cons_of_ne_nil digits.notEmpty
  rw [split] at digits leadNonzero valueOfDigits leadEq
  generalize paddedEq : List.replicate (2 - (digitsOf d.leadingExponent.natAbs).length) '0' ++
    digitsOf d.leadingExponent.natAbs = padded
  have textEq : sign negative ++ d.scientificText Value.floatStyle =
      sign negative ++ lead :: behindPoint rest ++
        'e' :: (if decide (d.leadingExponent < 0) then '-' else '+') :: padded := by
    simp only [scientificText, split, ← paddedEq, Value.floatStyle, behindPoint]
    cases rest <;> by_cases down : d.leadingExponent < 0 <;> simp [down]
  have valueEq : d.value = (natOfDigits (lead :: rest) : ℚ) *
      10 ^ (signed (decide (d.leadingExponent < 0)) (natOfDigits padded) - rest.length) := by
    have paddedValue : natOfDigits padded = d.leadingExponent.natAbs := by
      rw [← paddedEq, natOfDigits_append, natOfDigits_replicate_zero, natOfDigits_digitsOf,
        zero_mul, zero_add]
    have exponentEq : signed (decide (d.leadingExponent < 0)) (natOfDigits padded) - rest.length =
        d.exponent := by
      rw [List.length_cons] at leadEq
      rw [paddedValue, signed]
      by_cases down : d.leadingExponent < 0
      · rw [if_pos (decide_eq_true down)]
        omega
      · rw [if_neg (by simpa using down)]
        omega
    rw [exponentEq, valueOfDigits, value]
  rw [textEq, valueEq]
  refine .mk (digits.digit lead List.mem_cons_self) (fun zero => leadNonzero (congrArg some zero))
    (fun c mem => digits.digit c (List.mem_cons_of_mem lead mem)) _ ?_ ?_
  · intro c mem
    rw [← paddedEq] at mem
    rcases List.mem_append.mp mem with inZeros | inDigits
    · exact isDigit_of_mem_replicate_zero inZeros
    · exact mark.digit c inDigits
  · rw [← paddedEq, List.length_append, List.length_replicate]
    omega

end Decimal

/-! ## What the scanner reads -/

/-- A text without a line feed and a comment is scanned as it is. -/
theorem Source.lexemes_ofList {text : List Char} (oneLine : '\n' ∉ text) (noComment : '#' ∉ text) :
    Source.lexemes (String.ofList text) = Lexeme.ofText text := by
  rw [lexemes, String.toList_ofList, stripComments_line oneLine, cutComment_of_not_mem noComment]

variable {negative : Bool} {text : List Char} {r : ℚ} {c : Char}

/-- Digits with a point are made of these characters. -/
theorem SpelledPlain.not_mem (spelled : SpelledPlain negative text r) (noDigit : c.isDigit = false)
    (noMark : c ∉ ['-', '.']) : c ∉ text := by
  obtain ⟨natural, -, digit⟩ := spelled
  have notWhole := not_mem_of_test natural.digit noDigit
  have notFraction := not_mem_of_test digit noDigit
  cases negative <;> simp_all [sign]

theorem SpelledScientific.not_mem (spelled : SpelledScientific negative text r)
    (noDigit : c.isDigit = false) (noMark : c ∉ ['-', '.', 'e', '+']) : c ∉ text := by
  obtain ⟨leadDigit, -, digit, down, exponentDigit, -⟩ := spelled
  have notLead := (ne_of_test leadDigit noDigit).symm
  have notFraction := not_mem_of_test digit noDigit
  have notExponent := not_mem_of_test exponentDigit noDigit
  cases negative <;> cases down <;> simp_all [sign, behindPoint]

/-- Digits with a point are read as the float that they round to. -/
theorem SpelledPlain.ofText_eq {x : Binary64} (finite : x.isFinite = true)
    (spelled : SpelledPlain x.isNegative text r) (rounds : x.IsRoundingOf r) :
    Lexeme.ofText text = .ok [⟨.float x, 1⟩] := by
  obtain ⟨natural, notEmpty, digit⟩ := spelled
  have token := SpelledBy.float x.isNegative natural notEmpty digit
  rw [rounds.ofDecimal_eq finite] at token
  have ends : (Token.float x).EndsBefore [] := fun c first => by cases first
  have split := Lexeme.Split.token token ends (Lexeme.Split.nil 1)
  rw [List.append_nil] at split
  exact Lexeme.ofText_eq_ok_iff.mpr split

/-- No number has a letter. -/
theorem ofMagnitude?_eq_none_of_mem {cs : List Char} (letter : c.isAlpha = true) (mem : c ∈ cs)
    (negative : Bool) : ofMagnitude? negative cs = none := by
  have notDigits {ds : List Char} (inside : c ∈ ds) : isDigits ds = false := by
    rw [Bool.eq_false_iff]
    intro digits
    have digit := (isDigits_iff.mp digits).2 c inside
    rw [isDigit_eq_false_of_isAlpha letter] at digit
    cases digit
  rw [← List.takeWhile_append_dropWhile (p := (· != '.')) (l := cs), List.mem_append] at mem
  have ends := ends_dropWhile (· != '.') cs
  simp only [ofMagnitude?]
  generalize cs.takeWhile (· != '.') = whole at mem ⊢
  generalize cs.dropWhile (· != '.') = behind at mem ends ⊢
  rcases mem with inWhole | inBehind
  · simp [notDigits inWhole]
  · cases behind with
    | nil => cases inBehind
    | cons point fraction =>
      obtain rfl : point = '.' := by simpa using ends point rfl
      have inFraction : c ∈ fraction := by
        rcases List.mem_cons.mp inBehind with rfl | inFraction
        · cases letter
        · exact inFraction
      simp [notDigits inFraction]

/-- An exponent mark is swallowed as a part of the number, which then is none. -/
theorem SpelledScientific.ofText_eq (spelled : SpelledScientific negative text r) :
    ∃ number, Lexeme.ofText text = .error (.invalidNumber 1 number) := by
  obtain @⟨lead, fraction, exponent, leadDigit, -, digit, down, -, -⟩ := spelled
  have inside : ∀ c ∈ behindPoint fraction ++ ['e'], isNumberChar c = true := by
    intro c mem
    rcases List.mem_append.mp mem with inFraction | isMark
    · rw [behindPoint] at inFraction
      split at inFraction
      · cases inFraction
      · rcases List.mem_cons.mp inFraction with rfl | inFraction
        · rfl
        · exact isNumberChar_of_isDigit (digit c inFraction)
    · rw [List.mem_singleton.mp isMark]
      rfl
  have ends : ∀ c ∈ ((if down = true then '-' else '+') :: exponent).head?,
      isNumberChar c = false := by
    intro c first
    cases down <;> cases first <;> rfl
  have noNumber : ofMagnitude? negative (lead :: (behindPoint fraction ++ ['e'])) = none :=
    ofMagnitude?_eq_none_of_mem (c := 'e') rfl (by simp) negative
  have textEq : sign negative ++ lead :: behindPoint fraction ++
      'e' :: (if down = true then '-' else '+') :: exponent =
      sign negative ++ lead :: (behindPoint fraction ++ ['e']) ++
        (if down = true then '-' else '+') :: exponent := by
    simp
  rw [textEq]
  generalize whole : sign negative ++ lead :: (behindPoint fraction ++ ['e']) ++
    (if down = true then '-' else '+') :: exponent = text
  cases text with
  | nil => simp at whole
  | cons c rest =>
    have fails : Token.read 1 c rest = .error (.invalidNumber 1
        (String.ofList (sign negative ++ lead :: (behindPoint fraction ++ ['e'])))) := by
      rw [read_digits leadDigit inside ends whole.symm, noNumber]
    have notBlank : (c != '\n' && Text.isBlank c) = false := by
      cases negative with
      | true =>
        obtain ⟨rfl, -⟩ := List.cons.inj whole
        rfl
      | false =>
        obtain ⟨rfl, -⟩ := List.cons.inj whole
        rw [isBlank_eq_false_of_isAlphanum (by simp [Char.isAlphanum, leadDigit]), Bool.and_false]
    exact ⟨_, Lexeme.scan_of_read_eq_error notBlank fails []⟩

/-! ## The text of a float -/

namespace Binary64

variable {x : Binary64}

theorem isPlainZero_shortest (x : Binary64) : x.shortest.IsPlainZero := by
  intro zero
  by_cases isZero : x.significand = 0
  · rw [shortest, if_pos isZero]
  · have rounds := x.isShortest_shortest.rounds
    rw [Decimal.value, zero, Nat.cast_zero, zero_mul] at rounds
    exact absurd (rounds.pos isZero) (lt_irrefl 0)

/-- The digits of a finite float are written after its sign. -/
theorem toList_text (finite : x.isFinite = true) (style : FloatStyle) :
    (x.text style).toList = sign x.isNegative ++ x.shortest.text style := by
  have noNaN : x.isNaN = false := by
    rw [isFinite, bne_iff_ne] at finite
    simp [isNaN, finite]
  simp only [text, noNaN, finite, Bool.false_eq_true, if_false, if_true, String.toList_ofList]
  rfl

end Binary64

namespace Value

variable {x : Binary64}

/-- Between `0.0001` and ten to the sixteenth, with a point. -/
theorem spelledPlain_display (finite : x.isFinite = true)
    (range : -4 ≤ x.shortest.leadingExponent ∧ x.shortest.leadingExponent < 16) :
    SpelledPlain x.isNegative (display (.float x)).toList x.shortest.value := by
  rw [display, Binary64.toList_text finite, Decimal.text, if_pos range]
  exact Decimal.spelledPlain_plainText x.isPlainZero_shortest x.isNegative

/-- Outside, with an exponent mark. -/
theorem spelledScientific_display (finite : x.isFinite = true)
    (outside : ¬ (-4 ≤ x.shortest.leadingExponent ∧ x.shortest.leadingExponent < 16)) :
    SpelledScientific x.isNegative (display (.float x)).toList x.shortest.value := by
  have nonzero : x.shortest.digits ≠ 0 := by
    intro zero
    have digits : Decimal.digitsOf x.shortest.digits = ['0'] := by rw [zero]; rfl
    rw [Decimal.leadingExponent, digits, x.isPlainZero_shortest zero] at outside
    exact outside (by decide)
  rw [display, Binary64.toList_text finite, Decimal.text, if_neg outside]
  exact Decimal.spelledScientific_scientificText nonzero x.isNegative

/-- Integers are written with digits, after a minus sign or not. -/
theorem isDigit_or_minus_of_mem_display {n : Int64} {c : Char}
    (mem : c ∈ (display (.integer n)).toList) : c.isDigit = true ∨ c = '-' := by
  rw [display, Int.toString_eq_repr, Int.repr_eq_if] at mem
  have ofDigits {k : ℕ} (inDigits : c ∈ k.repr.toList) : c.isDigit = true := by
    rw [Nat.repr_eq_ofList_toDigits, String.toList_ofList] at inDigits
    exact (isNatural_toDigits k).digit c inDigits
  split at mem
  · exact .inl (ofDigits mem)
  · rw [String.toList_append, List.mem_append] at mem
    rcases mem with isMinus | inDigits
    · exact .inr (by simpa using isMinus)
    · exact .inl (ofDigits inDigits)

/-- Every float is written with a character that no integer is written with. -/
theorem exists_mem_display_float (x : Binary64) :
    ∃ c ∈ (display (.float x)).toList, c.isDigit = false ∧ c ≠ '-' := by
  by_cases finite : x.isFinite = true
  · by_cases range : -4 ≤ x.shortest.leadingExponent ∧ x.shortest.leadingExponent < 16
    · have spelled := spelledPlain_display finite range
      generalize (display (.float x)).toList = text at spelled ⊢
      generalize x.shortest.value = r at spelled
      obtain ⟨natural, notEmpty, digit⟩ := spelled
      exact ⟨'.', by simp, rfl, by decide⟩
    · have spelled := spelledScientific_display finite range
      generalize (display (.float x)).toList = text at spelled ⊢
      generalize x.shortest.value = r at spelled
      obtain ⟨leadDigit, leadNonzero, digit, down, exponentDigit, twoDigits⟩ := spelled
      exact ⟨'e', by simp, rfl, by decide⟩
  · refine ⟨'n', ?_, rfl, by decide⟩
    rw [display, Binary64.text]
    split
    · decide
    · simp

/-- No integer is written like a float. -/
theorem display_integer_ne_float (n : Int64) (x : Binary64) :
    display (.integer n) ≠ display (.float x) := by
  intro same
  obtain ⟨c, mem, noDigit, noMinus⟩ := exists_mem_display_float x
  rw [← same] at mem
  rcases isDigit_or_minus_of_mem_display mem with digit | minus
  · rw [noDigit] at digit
    cases digit
  · exact noMinus minus

/-- A finite float is printed as the shortest decimal that rounds to it, of several the
nearest, with its sign. If the leading digit stands for at least ten to the minus fourth
and for less than ten to the sixteenth, the text is digits with a point and as a source
text spells this float; otherwise it has an exponent mark and spells no tokens. No
integer is printed like a float. -/
theorem display_finite {x : Binary64} (finite : x.isFinite = true) :
    x.IsShortest x.shortest ∧ LeadsAt x.shortest.leadingExponent x.shortest.value ∧
    (if -4 ≤ x.shortest.leadingExponent ∧ x.shortest.leadingExponent < 16 then
      SpelledPlain x.isNegative (display (.float x)).toList x.shortest.value ∧
      Lexeme.ofText (display (.float x)).toList = .ok [⟨.float x, 1⟩] ∧
      Source.lexemes (display (.float x)) = .ok [⟨.float x, 1⟩]
    else
      SpelledScientific x.isNegative (display (.float x)).toList x.shortest.value ∧
      ∃ number, Lexeme.ofText (display (.float x)).toList = .error (.invalidNumber 1 number) ∧
        Source.lexemes (display (.float x)) = .error (.invalidNumber 1 number)) ∧
    ∀ (n : Int64) (y : Binary64), display (.integer n) ≠ display (.float y) := by
  refine ⟨x.isShortest_shortest, Decimal.leadsAt_leadingExponent x.isPlainZero_shortest, ?_,
    display_integer_ne_float⟩
  have lexemes (oneLine : '\n' ∉ (display (.float x)).toList)
      (noComment : '#' ∉ (display (.float x)).toList) :
      Source.lexemes (display (.float x)) = Lexeme.ofText (display (.float x)).toList := by
    have asList := Source.lexemes_ofList oneLine noComment
    rwa [String.ofList_toList] at asList
  split
  · rename_i range
    have spelled := spelledPlain_display finite range
    have scanned := spelled.ofText_eq finite x.isShortest_shortest.rounds
    rw [lexemes (spelled.not_mem rfl (by decide)) (spelled.not_mem rfl (by decide))]
    exact ⟨spelled, scanned, scanned⟩
  · rename_i outside
    have spelled := spelledScientific_display finite outside
    obtain ⟨number, fails⟩ := spelled.ofText_eq
    rw [lexemes (spelled.not_mem rfl (by decide)) (spelled.not_mem rfl (by decide))]
    exact ⟨spelled, number, fails, fails⟩

/-- The float next to a tenth is printed as the source text `0.1`, and so reads back. One
next to a quarter of a millionth below zero is printed as `-2.5e-07`, which spells no
tokens. -/
theorem display_finite_tenth :
    (Binary64.mk 0x3FB999999999999A).IsShortest ⟨1, -1⟩ ∧
    Source.lexemes "0.1" = .ok [⟨.float ⟨0x3FB999999999999A⟩, 1⟩] ∧
    (Binary64.mk 0xBE90C6F7A0B5ED8D).IsShortest ⟨25, -8⟩ ∧
    ∃ number, Source.lexemes "-2.5e-07" = .error (.invalidNumber 1 number) := by
  have tenth : (Binary64.mk 0x3FB999999999999A).shortest = ⟨1, -1⟩ := by
    decide +kernel
  have small : (Binary64.mk 0xBE90C6F7A0B5ED8D).shortest = ⟨25, -8⟩ := by
    decide +kernel
  have shownTenth : display (.float ⟨0x3FB999999999999A⟩) = "0.1" := by
    decide +kernel
  have shownSmall : display (.float ⟨0xBE90C6F7A0B5ED8D⟩) = "-2.5e-07" := by
    decide +kernel
  obtain ⟨shortestTenth, -, readsTenth, -⟩ :=
    @display_finite ⟨0x3FB999999999999A⟩ (by decide)
  obtain ⟨shortestSmall, -, readsSmall, -⟩ :=
    @display_finite ⟨0xBE90C6F7A0B5ED8D⟩ (by decide)
  rw [tenth] at shortestTenth readsTenth
  rw [small] at shortestSmall readsSmall
  rw [if_pos (by decide), shownTenth] at readsTenth
  rw [if_neg (by decide), shownSmall] at readsSmall
  obtain ⟨-, -, tokensTenth⟩ := readsTenth
  obtain ⟨-, number, -, tokensSmall⟩ := readsSmall
  exact ⟨shortestTenth, tokensTenth, shortestSmall, number, tokensSmall⟩

end Value

end StackScript
