import StackScript.Operation

/-!
# What operations give and refuse

Arithmetic on integers gives integers, and it gives no text beyond the limit. It
refuses a divisor of zero, a text that would be too long, and kinds that it is not
defined on, which are described here apart from the values. A text within the limit
that memory cannot be asked for aborts the run.
-/

namespace StackScript

/-! ## Results -/

/-- A repeated text is as long as its repetitions. -/
theorem utf8ByteSize_repeatText (s : String) (n : Nat) :
    (repeatText s n).utf8ByteSize = s.utf8ByteSize * n := by
  fun_induction repeatText s n with
  | case1 => rfl
  | case2 n positive half even ih =>
    rw [String.utf8ByteSize_append, ih, ← Nat.mul_add]
    congr 1
    omega
  | case3 n positive half odd ih =>
    rw [String.utf8ByteSize_append, String.utf8ByteSize_append, ih, ← Nat.mul_add,
      ← Nat.mul_succ]
    congr 1
    omega

namespace ArithmeticOp

variable {op : ArithmeticOp} {target : String} {result : Value}

/-- Arithmetic on integers gives an integer. -/
theorem eq_integer_of_onIntegers {a b : Int64} (computed : op.onIntegers target a b = .ok result) :
    ∃ n, result = .integer n := by
  cases op with
  | add | subtract | multiply =>
    cases computed
    exact ⟨_, rfl⟩
  | divide =>
    simp only [onIntegers] at computed
    split at computed
    · cases computed
    · cases computed
      exact ⟨_, rfl⟩

/-- Arithmetic on floats gives a float. -/
theorem eq_float_of_onFloats {x y : Binary64} (computed : op.onFloats target x y = .ok result) :
    ∃ z, result = .float z := by
  cases op with
  | add | subtract | multiply =>
    cases computed
    exact ⟨_, rfl⟩
  | divide =>
    simp only [onFloats] at computed
    split at computed
    · cases computed
    · cases computed
      exact ⟨_, rfl⟩

/-- How an operation fares that is to make a text of this size: it makes it if the size
is within the limit, and refuses if not. It aborts the run if the size is within the limit
but beyond all that memory can be asked for. -/
structure ObeysLimit (op : Mnemonic) (limit size : Nat) (made : String)
    (result : Except Fault Value) : Prop where
  within : size ≤ limit → size ≤ maxAllocation → result = .ok (.text made)
  aborted : size ≤ limit → maxAllocation < size → result = .error .capacityOverflow
  beyond : limit < size → result = .error (.stringLimit op limit)
  size_eq : made.utf8ByteSize = size

theorem obeysLimit_joinTexts (limit : Nat) (s t : String) :
    ObeysLimit .add limit (s.utf8ByteSize + t.utf8ByteSize) (s ++ t) (joinTexts limit s t) where
  within fits small := (if_neg (Nat.not_lt.mpr fits)).trans (if_neg (Nat.not_lt.mpr small))
  aborted fits large := (if_neg (Nat.not_lt.mpr fits)).trans (if_pos large)
  beyond tooLong := if_pos tooLong
  size_eq := String.utf8ByteSize_append

theorem obeysLimit_repeatWithin (limit : Nat) (s : String) (n : Int64) :
    ObeysLimit .multiply limit (s.utf8ByteSize * n.toInt.toNat) (repeatText s n.toInt.toNat)
      (repeatWithin limit s n) where
  within fits small := (if_neg (Nat.not_lt.mpr fits)).trans (if_neg (Nat.not_lt.mpr small))
  aborted fits large := (if_neg (Nat.not_lt.mpr fits)).trans (if_pos large)
  beyond tooLong := if_pos tooLong
  size_eq := utf8ByteSize_repeatText s _

namespace ObeysLimit

variable {mnemonic : Mnemonic} {limit size : Nat} {made : String} {outcome : Except Fault Value}
  (obeys : ObeysLimit mnemonic limit size made outcome)

include obeys

/-- What is made is within the limit. -/
theorem utf8ByteSize_le {s : String} (computed : outcome = .ok (.text s)) :
    s.utf8ByteSize ≤ limit := by
  rcases Nat.lt_or_ge limit size with tooLong | fits
  · cases computed.symm.trans (obeys.beyond tooLong)
  · rcases Nat.lt_or_ge maxAllocation size with large | small
    · cases computed.symm.trans (obeys.aborted fits large)
    · cases computed.symm.trans (obeys.within fits small)
      rwa [obeys.size_eq]

/-- It fails in no other way, and it aborts the run only under a limit that is itself
beyond all that memory can be asked for. -/
theorem fault_eq {fault : Fault} (failed : outcome = .error fault) :
    fault = .stringLimit mnemonic limit ∨ fault = .capacityOverflow ∧ maxAllocation < limit := by
  rcases Nat.lt_or_ge limit size with tooLong | fits
  · cases failed.symm.trans (obeys.beyond tooLong)
    exact .inl rfl
  · rcases Nat.lt_or_ge maxAllocation size with large | small
    · cases failed.symm.trans (obeys.aborted fits large)
      exact .inr ⟨rfl, Nat.lt_of_lt_of_le large fits⟩
    · cases failed.symm.trans (obeys.within fits small)

end ObeysLimit

/-- Arithmetic makes no text beyond the limit. -/
theorem utf8ByteSize_le_of_apply {limit : Nat} {left right : Value} {made : String}
    (computed : op.apply limit target left right = .ok (.text made)) :
    made.utf8ByteSize ≤ limit := by
  revert computed
  fun_cases apply op limit target left right with
  | case1 a b =>
    intro computed
    obtain ⟨n, isInteger⟩ := eq_integer_of_onIntegers computed
    cases isInteger
  | case2 s t => exact (obeysLimit_joinTexts limit s t).utf8ByteSize_le
  | case3 s n => exact (obeysLimit_repeatWithin limit s n).utf8ByteSize_le
  | case4 n s => exact (obeysLimit_repeatWithin limit s n).utf8ByteSize_le
  | case5 op left right x isX y isY =>
    intro computed
    obtain ⟨z, isFloat⟩ := eq_float_of_onFloats computed
    cases isFloat
  | case6 => exact nofun

end ArithmeticOp

/-! ## Kinds -/

/-- The kinds that are numbers. -/
def Kind.isNumber : Kind → Bool
  | .integer => true
  | .float => true
  | .string => false
  | .empty => false

namespace Value

variable {value : Value}

theorem kind_eq_integer_iff : value.kind = .integer ↔ ∃ n, value = .integer n := by
  cases value <;> simp [kind]

theorem kind_eq_string_iff : value.kind = .string ↔ ∃ s, value = .text s := by
  cases value <;> simp [kind]

theorem isNumber_kind : value.kind.isNumber = value.toFloat?.isSome := by
  cases value <;> rfl

end Value

/-! ## Refusals -/

/-- Whether an operation of arithmetic is defined on two kinds. -/
def ArithmeticOp.isDefinedOn : ArithmeticOp → Kind → Kind → Bool
  | .add, .string, .string => true
  | .multiply, .string, .integer => true
  | .multiply, .integer, .string => true
  | _, left, right => left.isNumber && right.isNumber

/-- The faults of arithmetic on two values. -/
inductive ArithmeticOp.Refuses (limit : Nat) (target : String) (left right : Value) :
    ArithmeticOp → Fault → Prop
  | zeroDivisor : Refuses limit target left right .divide (.divisionByZero target)
  | tooLong {op : ArithmeticOp} (makesText : op = .add ∨ op = .multiply)
      (fromText : left.kind = .string ∨ right.kind = .string) :
      Refuses limit target left right op (.stringLimit op.mnemonic limit)
  | aborted {op : ArithmeticOp} (makesText : op = .add ∨ op = .multiply)
      (fromText : left.kind = .string ∨ right.kind = .string) (large : maxAllocation < limit) :
      Refuses limit target left right op .capacityOverflow
  | kinds {op : ArithmeticOp} (undefined : op.isDefinedOn left.kind right.kind = false) :
      Refuses limit target left right op (.typeMismatch op.mnemonic left.kind right.kind)

namespace ArithmeticOp

variable {op : ArithmeticOp} {limit : Nat} {target : String} {left right : Value} {fault : Fault}

theorem refuses_of_onIntegers {a b : Int64} (failed : op.onIntegers target a b = .error fault) :
    Refuses limit target left right op fault := by
  cases op with
  | add | subtract | multiply => cases failed
  | divide =>
    simp only [onIntegers] at failed
    split at failed
    · cases failed
      exact .zeroDivisor
    · cases failed

theorem refuses_of_onFloats {x y : Binary64} (failed : op.onFloats target x y = .error fault) :
    Refuses limit target left right op fault := by
  cases op with
  | add | subtract | multiply => cases failed
  | divide =>
    simp only [onFloats] at failed
    split at failed
    · cases failed
      exact .zeroDivisor
    · cases failed

/-- An operation on texts fails only if the text to be made is too long for the limit, or
for memory. -/
theorem ObeysLimit.refuses {size : Nat} {made : String} {outcome : Except Fault Value}
    (obeys : ObeysLimit op.mnemonic limit size made outcome)
    (makesText : op = .add ∨ op = .multiply) (fromText : left.kind = .string ∨ right.kind = .string)
    (failed : outcome = .error fault) : Refuses limit target left right op fault := by
  rcases obeys.fault_eq failed with rfl | ⟨rfl, large⟩
  · exact .tooLong makesText fromText
  · exact .aborted makesText fromText large

/-- Kinds that an operation is defined on are two numbers or make a text. -/
theorem isDefinedOn_eq_false
    (notNumbers : ∀ x y, left.toFloat? = some x → right.toFloat? = some y → False)
    (notJoined : ∀ s t, op = .add → left = .text s → right = .text t → False)
    (notRepeated : ∀ s n, op = .multiply → left = .text s → right = .integer n → False)
    (notRepeating : ∀ n s, op = .multiply → left = .integer n → right = .text s → False) :
    op.isDefinedOn left.kind right.kind = false := by
  rw [isDefinedOn]
  · rw [Value.isNumber_kind, Value.isNumber_kind, ← Bool.not_eq_true, Bool.and_eq_true,
      Option.isSome_iff_exists, Option.isSome_iff_exists]
    rintro ⟨⟨x, isX⟩, ⟨y, isY⟩⟩
    exact notNumbers x y isX isY
  · intro isAdd leftKind rightKind
    obtain ⟨s, isText⟩ := Value.kind_eq_string_iff.mp leftKind
    obtain ⟨t, isOther⟩ := Value.kind_eq_string_iff.mp rightKind
    exact notJoined s t isAdd isText isOther
  · intro isMultiply leftKind rightKind
    obtain ⟨s, isText⟩ := Value.kind_eq_string_iff.mp leftKind
    obtain ⟨n, isCount⟩ := Value.kind_eq_integer_iff.mp rightKind
    exact notRepeated s n isMultiply isText isCount
  · intro isMultiply leftKind rightKind
    obtain ⟨n, isCount⟩ := Value.kind_eq_integer_iff.mp leftKind
    obtain ⟨s, isText⟩ := Value.kind_eq_string_iff.mp rightKind
    exact notRepeating n s isMultiply isCount isText

/-- Arithmetic fails in no other way. -/
theorem refuses_of_apply (failed : op.apply limit target left right = .error fault) :
    Refuses limit target left right op fault := by
  revert failed
  fun_cases apply op limit target left right with
  | case1 a b => exact refuses_of_onIntegers
  | case2 s t => exact ObeysLimit.refuses (obeysLimit_joinTexts limit s t) (.inl rfl) (.inl rfl)
  | case3 s n => exact ObeysLimit.refuses (obeysLimit_repeatWithin limit s n) (.inr rfl) (.inl rfl)
  | case4 n s => exact ObeysLimit.refuses (obeysLimit_repeatWithin limit s n) (.inr rfl) (.inr rfl)
  | case5 => exact refuses_of_onFloats
  | case6 op left right notIntegers notJoined notRepeated notRepeating notNumbers =>
    rintro ⟨⟩
    exact .kinds (isDefinedOn_eq_false notNumbers notJoined notRepeated notRepeating)

end ArithmeticOp

theorem BitwiseOp.eq_typeMismatch_of_onPair {op : BitwiseOp} {combine : Int64 → Int64 → Int64}
    {left right : Value} {fault : Fault} (failed : op.onPair combine left right = .error fault) :
    ¬ (left.kind = .integer ∧ right.kind = .integer) ∧
      fault = .typeMismatch op.mnemonic left.kind right.kind := by
  simp only [onPair] at failed
  split at failed
  · cases failed
  · rename_i notIntegers
    cases failed
    refine ⟨?_, rfl⟩
    rintro ⟨leftKind, rightKind⟩
    obtain ⟨a, isLeft⟩ := Value.kind_eq_integer_iff.mp leftKind
    obtain ⟨b, isRight⟩ := Value.kind_eq_integer_iff.mp rightKind
    exact notIntegers a b isLeft isRight

theorem BitwiseOp.eq_unsupportedOperand_of_complement {value : Value} {fault : Fault}
    (failed : complement value = .error fault) :
    value.kind ≠ .integer ∧ fault = .unsupportedOperand .negate value.kind := by
  cases value with
  | integer n => cases failed
  | float | text | empty =>
    cases failed
    exact ⟨nofun, rfl⟩

end StackScript
