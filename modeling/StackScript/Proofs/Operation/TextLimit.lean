import Mathlib.Algebra.Group.Nat.Defs
import StackScript.Proofs.Operation

/-!
# The limit of texts

Joining and repeating texts compare the exact size of the result with the limit. A machine
counts in words of sixty-four bits: it adds with the greatest word in place of every larger
sum, multiplies only what a word holds, and takes a negative count for none. For texts
below 2^63 bytes all this comes to the same decisions, so that the limit is obeyed exactly.
Only if the limit is itself beyond all that memory can be asked for, a text within it may
still abort the run.
-/

namespace StackScript

/-! ## Words -/

namespace Word

/-- The sum of two words; the greatest word stands for all sums that no word holds. -/
def saturatingAdd (a b : UInt64) : UInt64 :=
  if a + b < a then ~~~0 else a + b

/-- The product of two words, if a word holds it: only then does division give back the
factor. -/
def checkedMul? (a b : UInt64) : Option UInt64 :=
  if a = 0 ∨ a * b / a = b then some (a * b) else none

/-- The repetitions that an integer asks for; a negative one asks for none. -/
def ofCount (n : Int64) : UInt64 :=
  if n < 0 then 0 else n.toUInt64

/-- What memory can be asked for at once, at the most. -/
def maxAllocation : UInt64 :=
  .ofNat StackScript.maxAllocation

/-- The bytes of a text. -/
def byteCount (s : String) : UInt64 :=
  .ofNat s.utf8ByteSize

theorem toNat_saturatingAdd (a b : UInt64) :
    (saturatingAdd a b).toNat = min (a.toNat + b.toNat) (2 ^ 64 - 1) := by
  have aLess := a.toNat_lt
  have bLess := b.toNat_lt
  have greatest : (~~~0 : UInt64).toNat = 2 ^ 64 - 1 := rfl
  rw [saturatingAdd]
  split <;> rename_i wrapped <;> rw [UInt64.lt_iff_toNat_lt, UInt64.toNat_add] at wrapped
  · rw [greatest]
    omega
  · rw [UInt64.toNat_add]
    omega

/-- The product of words whose quotient is right has not been wrapped. -/
theorem mul_div_eq_iff {a : UInt64} (nonzero : a ≠ 0) (b : UInt64) :
    a * b / a = b ↔ a.toNat * b.toNat < 2 ^ 64 := by
  have positive : 0 < a.toNat := Nat.pos_of_ne_zero fun zero => nonzero (UInt64.toNat_inj.mp zero)
  rw [← UInt64.toNat_inj, UInt64.toNat_div, UInt64.toNat_mul]
  constructor
  · intro divides
    have le := Nat.div_mul_le_self (a.toNat * b.toNat % 2 ^ 64) a.toNat
    rw [divides, Nat.mul_comm] at le
    exact Nat.lt_of_le_of_lt le (Nat.mod_lt _ (by decide))
  · intro fits
    rw [Nat.mod_eq_of_lt fits, Nat.mul_div_cancel_left _ positive]

/-- A product is given exactly if a word holds it. -/
theorem checkedMul?_eq (a b : UInt64) :
    checkedMul? a b = if a.toNat * b.toNat < 2 ^ 64 then some (a * b) else none := by
  rw [checkedMul?]
  by_cases zero : a = 0
  · rw [if_pos (.inl zero), if_pos]
    rw [zero, UInt64.toNat_zero, Nat.zero_mul]
    decide
  · simp only [zero, false_or, mul_div_eq_iff zero]

theorem toNat_ofCount (n : Int64) : (ofCount n).toNat = n.toInt.toNat := by
  rw [ofCount]
  split
  · rename_i negative
    rw [Int64.lt_iff_toInt_lt, Int64.toInt_zero] at negative
    rw [Int.toNat_of_nonpos (Int.le_of_lt negative)]
    rfl
  · rename_i natural
    exact Int64.toNat_toUInt64_of_le (Int64.not_lt.mp natural)

theorem toNat_maxAllocation : maxAllocation.toNat = StackScript.maxAllocation :=
  UInt64.toNat_ofNat_of_lt' (by decide)

theorem toNat_byteCount {s : String} (short : s.utf8ByteSize < 2 ^ 64) :
    (byteCount s).toNat = s.utf8ByteSize :=
  UInt64.toNat_ofNat_of_lt' short

end Word

/-! ## Decisions -/

namespace ArithmeticOp

/-- A text after another, as a machine decides whether they fit. -/
def joinTextsByWords (limit : UInt64) (s t : String) : Except Fault Value :=
  let size := Word.saturatingAdd (Word.byteCount s) (Word.byteCount t)
  if limit < size then .error (.stringLimit .add limit.toNat)
  else if Word.maxAllocation < size then .error .capacityOverflow
  else .ok (.text (s ++ t))

/-- A text repeated, as a machine decides whether the repetitions fit. -/
def repeatByWords (limit : UInt64) (s : String) (n : Int64) : Except Fault Value :=
  let count := Word.ofCount n
  match Word.checkedMul? (Word.byteCount s) count with
  | some size =>
    if limit < size then .error (.stringLimit .multiply limit.toNat)
    else if Word.maxAllocation < size then .error .capacityOverflow
    else .ok (.text (repeatText s count.toNat))
  | none => .error (.stringLimit .multiply limit.toNat)

/-- Two sizes of texts never add up to more than a word. -/
theorem joinTextsByWords_eq (limit : UInt64) {s t : String} (sShort : s.utf8ByteSize < 2 ^ 63)
    (tShort : t.utf8ByteSize < 2 ^ 63) :
    joinTextsByWords limit s t = joinTexts limit.toNat s t := by
  have sum : (Word.saturatingAdd (Word.byteCount s) (Word.byteCount t)).toNat =
      s.utf8ByteSize + t.utf8ByteSize := by
    rw [Word.toNat_saturatingAdd, Word.toNat_byteCount (by omega),
      Word.toNat_byteCount (by omega)]
    omega
  simp only [joinTextsByWords, joinTexts, UInt64.lt_iff_toNat_lt, sum, Word.toNat_maxAllocation]

/-- A product that no word holds is beyond every limit. -/
theorem repeatByWords_eq (limit : UInt64) {s : String} (short : s.utf8ByteSize < 2 ^ 63)
    (n : Int64) : repeatByWords limit s n = repeatWithin limit.toNat s n := by
  have limitLess := limit.toNat_lt
  have size : (Word.byteCount s).toNat = s.utf8ByteSize := Word.toNat_byteCount (by omega)
  simp only [repeatByWords, repeatWithin, Word.checkedMul?_eq, size, Word.toNat_ofCount]
  by_cases holds : s.utf8ByteSize * n.toInt.toNat < 2 ^ 64
  · have product : (Word.byteCount s * Word.ofCount n).toNat = s.utf8ByteSize * n.toInt.toNat := by
      rw [UInt64.toNat_mul, size, Word.toNat_ofCount, Nat.mod_eq_of_lt holds]
    simp only [if_pos holds, UInt64.lt_iff_toNat_lt, product, Word.toNat_maxAllocation]
  · rw [if_neg holds, if_pos (by omega)]

/-- A repeated text is the text as often in a row. -/
theorem repeatText_eq_join (s : String) (n : Nat) :
    repeatText s n = String.join (List.replicate n s) := by
  have add (first second : Nat) : String.join (List.replicate first s) ++
      String.join (List.replicate second s) = String.join (List.replicate (first + second) s) := by
    rw [← List.replicate_append_replicate, String.join_append]
  have next (count : Nat) : String.join (List.replicate count s) ++ s =
      String.join (List.replicate (count + 1) s) := by
    rw [← add]
    simp
  fun_induction repeatText s n with
  | case1 => rfl
  | case2 n positive half even ih =>
    change repeatText s (n / 2) ++ repeatText s (n / 2) = _
    rw [ih, add]
    congr 2
    omega
  | case3 n positive half odd ih =>
    change repeatText s (n / 2) ++ repeatText s (n / 2) ++ s = _
    rw [ih, add, next]
    congr 2
    omega

/-- A repetition obeys the limit, and a negative count is none. -/
theorem obeysLimit_repeatWithin_join (limit : Nat) (s : String) (n : Int64) :
    ObeysLimit .multiply limit (s.utf8ByteSize * (max n.toInt 0).toNat)
      (String.join (List.replicate (max n.toInt 0).toNat s)) (repeatWithin limit s n) := by
  have count : (max n.toInt 0).toNat = n.toInt.toNat := by omega
  rw [count, ← repeatText_eq_join]
  exact obeysLimit_repeatWithin limit s n

/-- Joining two texts, the variable's first, and repeating one obey the limit exactly: the
result is made if the exact sum or product of the sizes is within the limit, and then it has
this size, unless it is beyond all that memory can be asked for. A machine that counts in
words decides in the same way. It does not matter whether the text or the count is the
variable, and an empty text stays empty however often it is repeated. -/
theorem texts_obey_limit {s t : String} (sShort : s.utf8ByteSize < 2 ^ 63)
    (tShort : t.utf8ByteSize < 2 ^ 63) (n : Int64) (limit : UInt64) (target : String) :
    (ObeysLimit .add limit.toNat (s.utf8ByteSize + t.utf8ByteSize) (s ++ t)
        (add.apply limit.toNat target (.text s) (.text t)) ∧
      joinTextsByWords limit s t = add.apply limit.toNat target (.text s) (.text t)) ∧
    (ObeysLimit .multiply limit.toNat (s.utf8ByteSize * (max n.toInt 0).toNat)
        (String.join (List.replicate (max n.toInt 0).toNat s))
        (multiply.apply limit.toNat target (.text s) (.integer n)) ∧
      repeatByWords limit s n = multiply.apply limit.toNat target (.text s) (.integer n)) ∧
    multiply.apply limit.toNat target (.integer n) (.text s) =
      multiply.apply limit.toNat target (.text s) (.integer n) ∧
    multiply.apply limit.toNat target (.text "") (.integer n) = .ok (.text "") := by
  refine ⟨⟨obeysLimit_joinTexts .., joinTextsByWords_eq limit sShort tShort⟩,
    ⟨obeysLimit_repeatWithin_join .., repeatByWords_eq limit sShort n⟩, rfl, ?_⟩
  have empty := obeysLimit_repeatWithin_join limit.toNat "" n
  rw [String.utf8ByteSize_empty, Nat.zero_mul] at empty
  rw [String.utf8ByteSize_eq_zero_iff.mp empty.size_eq] at empty
  exact empty.within (Nat.zero_le _) (Nat.zero_le _)

/-- Five bytes do not fit in four, and a product beyond all words fits in no limit. -/
theorem texts_obey_limit_four :
    ("é".utf8ByteSize < 2 ^ 63 ∧ "abc".utf8ByteSize < 2 ^ 63) ∧
    add.apply 4 "x" (.text "é") (.text "abc") = .error (.stringLimit .add 4) ∧
    multiply.apply 4 "x" (.integer 2) (.text "é") = .ok (.text "éé") ∧
    repeatByWords 4 "é" Int64.maxValue = .error (.stringLimit .multiply 4) := by
  have short : "é".utf8ByteSize < 2 ^ 63 ∧ "abc".utf8ByteSize < 2 ^ 63 := by decide
  obtain ⟨⟨joined, -⟩, ⟨twice, -⟩, turned, -⟩ := texts_obey_limit short.1 short.2 2 4 "x"
  obtain ⟨-, ⟨often, byWords⟩, -, -⟩ := texts_obey_limit short.1 short.2 Int64.maxValue 4 "x"
  refine ⟨short, joined.beyond (by decide), ?_, ?_⟩
  · rw [show (4 : Nat) = (4 : UInt64).toNat from rfl, turned]
    exact twice.within (by decide) (by decide)
  · rw [byWords]
    exact often.beyond (by decide)

/-- Under the greatest limit that a word holds, a product within the limit does not give
the text. -/
theorem multiply_huge_count :
    "ab".utf8ByteSize * (max (4611686018427387904 : Int64).toInt 0).toNat ≤ 2 ^ 64 - 1 ∧
    multiply.apply (2 ^ 64 - 1) "s" (.text "ab") (.integer 4611686018427387904) =
      .error .capacityOverflow := by
  constructor
  · decide
  · rfl

end ArithmeticOp

end StackScript
