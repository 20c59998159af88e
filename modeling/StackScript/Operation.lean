import StackScript.Fault

/-!
# Operations on values

Integer arithmetic wraps at sixty-four bits, and integer division rounds down.
A mixture of integers and floats is computed on floats. A text can be joined to
a text and repeated by an integer, as long as the result stays within the limit
and memory can be asked for it.
-/

namespace StackScript

/-- The quotient rounded down. Division of words rounds toward zero, which is
one too high if the division leaves a rest and the signs differ. -/
def floorDiv (a b : Int64) : Int64 :=
  let quotient := a / b
  if a % b != 0 && decide (a < 0) != decide (b < 0) then quotient - 1 else quotient

/-- A text written `n` times in a row. Halving `n` keeps the number of
concatenations small. -/
def repeatText (s : String) (n : Nat) : String :=
  if n = 0 then ""
  else
    let half := repeatText s (n / 2)
    if n % 2 = 0 then half ++ half else half ++ half ++ s
termination_by n
decreasing_by omega

/-- The float of a number. -/
def Value.toFloat? : Value → Option Binary64
  | .integer n => some (.ofInt n.toInt)
  | .float x => some x
  | .text _ => none
  | .empty => none

namespace ArithmeticOp

/-- Arithmetic on integers; `target` names the variable in a fault. -/
def onIntegers (op : ArithmeticOp) (target : String) (a b : Int64) : Except Fault Value :=
  match op with
  | .add => .ok (.integer (a + b))
  | .subtract => .ok (.integer (a - b))
  | .multiply => .ok (.integer (a * b))
  | .divide =>
    if b = 0 then .error (.divisionByZero target) else .ok (.integer (floorDiv a b))

/-- Arithmetic on floats; both zeros refuse to divide. -/
def onFloats (op : ArithmeticOp) (target : String) (x y : Binary64) : Except Fault Value :=
  match op with
  | .add => .ok (.float (x.add y))
  | .subtract => .ok (.float (x.sub y))
  | .multiply => .ok (.float (x.mul y))
  | .divide =>
    if y.isZero then .error (.divisionByZero target) else .ok (.float (x.div y).floor)

/-- A text after another, if the bytes of both fit the limit. Memory is asked for
only then. -/
def joinTexts (limit : Nat) (s t : String) : Except Fault Value :=
  let size := s.utf8ByteSize + t.utf8ByteSize
  if limit < size then .error (.stringLimit .add limit)
  else if maxAllocation < size then .error .capacityOverflow
  else .ok (.text (s ++ t))

/-- A text repeated, if the bytes fit the limit; a negative count is none. Memory is
asked for only then. -/
def repeatWithin (limit : Nat) (s : String) (n : Int64) : Except Fault Value :=
  let count := n.toInt.toNat
  let size := s.utf8ByteSize * count
  if limit < size then .error (.stringLimit .multiply limit)
  else if maxAllocation < size then .error .capacityOverflow
  else .ok (.text (repeatText s count))

/-- The value of the variable `target` (`left`) combined with a popped value
(`right`). -/
def apply (op : ArithmeticOp) (limit : Nat) (target : String) (left right : Value) :
    Except Fault Value :=
  match op, left, right with
  | op, .integer a, .integer b => op.onIntegers target a b
  | .add, .text s, .text t => joinTexts limit s t
  | .multiply, .text s, .integer n => repeatWithin limit s n
  | .multiply, .integer n, .text s => repeatWithin limit s n
  | op, left, right =>
    match left.toFloat?, right.toFloat? with
    | some x, some y => op.onFloats target x y
    | _, _ => .error (.typeMismatch op.mnemonic left.kind right.kind)

end ArithmeticOp

namespace BitwiseOp

/-- An operation on the bits of two integers. -/
def onPair (op : BitwiseOp) (combine : Int64 → Int64 → Int64) (left right : Value) :
    Except Fault Value :=
  match left, right with
  | .integer a, .integer b => .ok (.integer (combine a b))
  | left, right => .error (.typeMismatch op.mnemonic left.kind right.kind)

/-- The complement of an integer. -/
def complement : Value → Except Fault Value
  | .integer n => .ok (.integer (~~~n))
  | value => .error (.unsupportedOperand .negate value.kind)

/-- Zero for a true value; a false value as it is. -/
def logicalNot (value : Value) : Value :=
  if value.isTruthy then .integer 0 else value

end BitwiseOp

end StackScript
