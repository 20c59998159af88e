import StackScript.Proofs.Operation
import StackScript.Proofs.Operation.FloorDivision
import StackScript.Proofs.Run.StraightLine

/-!
# Division in programs

A program takes the remainder of a division by subtracting the product of the quotient
and the divisor. All three operations wrap, and the result is the exact remainder all the
same.
-/

namespace StackScript

/-- Pops a divisor and then a dividend, and pushes the remainder. -/
def Block.remainder : Block :=
  [.pop "divisor", .pop "dividend", .assign (.identifier "dividend") "quotient",
    .push (.identifier "divisor"), .arithmetic .divide "quotient",
    .push (.identifier "divisor"), .arithmetic .multiply "quotient",
    .push (.identifier "quotient"), .arithmetic .subtract "dividend",
    .push (.identifier "dividend")]

/-- The remainder of two words, by wrapping operations. -/
def wrappingRemainder (a b : Int64) : Int64 :=
  a - floorDiv a b * b

/-- The subroutine takes two words from the stack and leaves their remainder. -/
theorem straightLine_remainder (limits : Limits) (stack : Array Value) (heap : Heap) (depth : Nat)
    (output : Output) (a : Int64) {b : Int64} (nonzero : b ≠ 0) :
    ∃ reached, StraightLine limits
      ⟨(stack.push (.integer a)).push (.integer b), heap, depth, output⟩ .initial Block.remainder
      ⟨stack.push (.integer (wrappingRemainder a b)), heap, depth, output⟩ reached := by
  have divided : ArithmeticOp.divide.apply limits.maxStringBytes "quotient" (.integer a)
      (.integer b) = .ok (.integer (floorDiv a b)) :=
    if_neg nonzero
  apply Exists.intro
  apply StraightLine.cons_pop
  apply StraightLine.cons_pop
  apply StraightLine.cons_assign rfl
  apply StraightLine.cons_push rfl
  apply StraightLine.cons_arithmetic rfl divided
  apply StraightLine.cons_push rfl
  apply StraightLine.cons_arithmetic rfl rfl
  apply StraightLine.cons_push rfl
  apply StraightLine.cons_arithmetic rfl rfl
  apply StraightLine.cons_push rfl
  exact .nil _ _

/-- A call of the subroutine does so and changes nothing else. -/
theorem run_remainder {program : Program} {limits : Limits} {machine : Machine} {name : String}
    (found : program.body? name = some Block.remainder)
    (shallow : machine.depth < limits.maxCallDepth) (caller : Scopes) (a : Int64) {b : Int64}
    (nonzero : b ≠ 0) :
    (Request.invoke name).run program limits
        { machine with stack := (machine.stack.push (.integer a)).push (.integer b) } caller 12 =
      .ended ⟨.ok .completed,
        { machine with stack := machine.stack.push (.integer (wrappingRemainder a b)) },
        caller⟩ := by
  obtain ⟨stack, heap, depth, output⟩ := machine
  obtain ⟨reached, straight⟩ :=
    straightLine_remainder limits stack heap (depth + 1) output a nonzero
  exact StraightLine.run_invoke ⟨(stack.push (.integer a)).push (.integer b), heap, depth, output⟩
    found shallow straight

/-- A number is not divided by the integer zero. -/
theorem ArithmeticOp.divide_zero {value : Value} (isNumber : value.kind.isNumber = true)
    (limit : Nat) (target : String) :
    divide.apply limit target value (.integer 0) = .error (.divisionByZero target) := by
  cases value with
  | integer n => rfl
  | float x => rfl
  | text | empty => cases isNumber

/-- Nor does an instruction do it. -/
theorem Machine.fault_divide_zero {machine : Machine} {scopes : Scopes} {target : String}
    {value : Value} (top : machine.top? = some (.integer 0))
    (found : scopes.find? target = some value) (isNumber : value.kind.isNumber = true)
    (limits : Limits) :
    (machine.arithmetic scopes limits .divide target).fault = some (.divisionByZero target) := by
  simp only [arithmetic, updateWithPopped, top, update, Scopes.resolve, found,
    ArithmeticOp.divide_zero isNumber]

/-- Division of integers gives the floor of the exact quotient. Only the quotient of the
least word and minus one does not fit and is wrapped, and a correction by one always fits.
The remainder that a program takes is the exact one, by itself and by a call of a
subroutine. Nothing is divided by zero. -/
theorem floorDiv_rounds_down (a b : Int64) :
    (b ≠ 0 →
      IsWrap (floorDiv a b).toInt ⌊(a.toInt : ℚ) / b.toInt⌋ ∧
      ((floorDiv a b).toInt ≠ ⌊(a.toInt : ℚ) / b.toInt⌋ ↔ a = Int64.minValue ∧ b = -1) ∧
      (a % b ≠ 0 → ¬ (a < 0 ↔ b < 0) → (a / b - 1).toInt = (a / b).toInt - 1) ∧
      IsRemainder (wrappingRemainder a b).toInt a.toInt b.toInt ∧
      ∀ (program : Program) (limits : Limits) (machine : Machine) (caller : Scopes)
          (name : String), program.body? name = some Block.remainder →
        machine.depth < limits.maxCallDepth →
        (Request.invoke name).run program limits
            { machine with stack := (machine.stack.push (.integer a)).push (.integer b) } caller
            12 =
          .ended ⟨.ok .completed,
            { machine with stack := machine.stack.push (.integer (wrappingRemainder a b)) },
            caller⟩) ∧
    ∀ (machine : Machine) (scopes : Scopes) (limits : Limits) (target : String) (value : Value),
      machine.top? = some (.integer 0) → scopes.find? target = some value →
      value.kind.isNumber = true →
      (machine.arithmetic scopes limits .divide target).fault =
        some (.divisionByZero target) := by
  constructor
  · intro nonzero
    have nonzeroToInt : b.toInt ≠ 0 := fun zero => nonzero (Int64.toInt_inj.mp zero)
    rw [floor_div_eq_fdiv]
    refine ⟨isWrap_floorDiv a nonzeroToInt, toInt_floorDiv_ne_iff a nonzeroToInt,
      toInt_div_sub_one a nonzeroToInt, isRemainder_sub_mul a nonzeroToInt, ?_⟩
    intro program limits machine caller name found shallow
    exact run_remainder found shallow caller a nonzero
  · intro machine scopes limits target value top found isNumber
    exact Machine.fault_divide_zero top found isNumber limits

/-- The quotient of the least word and minus one is wrapped, and their remainder is zero all
the same. -/
theorem floorDiv_rounds_down_least :
    (-1 : Int64) ≠ 0 ∧
    (floorDiv Int64.minValue (-1)).toInt ≠ ⌊(Int64.minValue.toInt : ℚ) / (-1 : Int64).toInt⌋ ∧
    IsRemainder (wrappingRemainder Int64.minValue (-1)).toInt Int64.minValue.toInt
      (-1 : Int64).toInt ∧
    (Machine.arithmetic ⟨#[.integer 0], .empty, 1, .empty none⟩
        (.assign .initial "x" (.integer 7)) .default .divide "x").fault =
      some (.divisionByZero "x") := by
  have nonzero : (-1 : Int64) ≠ 0 := by decide
  obtain ⟨ofDivisor, ofZero⟩ := floorDiv_rounds_down Int64.minValue (-1)
  obtain ⟨_, changed, _, remainder, _⟩ := ofDivisor nonzero
  exact ⟨nonzero, changed.mpr ⟨rfl, rfl⟩, remainder,
    ofZero _ _ .default "x" (.integer 7) rfl rfl rfl⟩

end StackScript
