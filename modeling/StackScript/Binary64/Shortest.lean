import StackScript.Binary64

/-!
# The shortest decimal of a float

A decimal reads back as a float exactly if it lies in the float's rounding
interval: between the midpoints to its two neighbours, the midpoints included
when the significand is even. `shortest` tries the grids of one, two, three
digits and so on, and on each grid the two points around the value; the first
grid with a point in the interval has the fewest digits.
-/

namespace StackScript

/-- The number `digits * 10 ^ exponent`. -/
structure Decimal where
  digits : Nat
  exponent : Int
  deriving DecidableEq, Inhabited

namespace Decimal

/-- The decimal digits of a natural number, leading one first. -/
def digitsOf (n : Nat) : List Char :=
  Nat.toDigits 10 n

/-- Moves the trailing zeros of the digits into the exponent. -/
def trim (d : Decimal) : Decimal :=
  if d.digits ≠ 0 ∧ d.digits % 10 = 0 then trim ⟨d.digits / 10, d.exponent + 1⟩ else d
termination_by d.digits
decreasing_by omega

/-- Compares `a * 10 ^ i` with `b * 2 ^ j`, without rounding. -/
def compareScaled (a : Nat) (i : Int) (b : Nat) (j : Int) : Ordering :=
  compare ((a * Nat.pow 10 i.toNat) <<< (-j).toNat) ((b * Nat.pow 10 (-i).toNat) <<< j.toNat)

end Decimal

namespace Binary64

/-- The magnitude of a finite float is `numerator / denominator`. -/
def numerator (x : Binary64) : Nat :=
  x.significand <<< x.exponent.toNat

/-- The power of two under the numerator. -/
def denominator (x : Binary64) : Nat :=
  1 <<< (-x.exponent).toNat

/-- Four times the significand at the lower midpoint. Just above a power of two
the neighbour below is only half as far away as the one above. -/
def lowerMidpoint (x : Binary64) : Nat :=
  if x.fraction = 0 ∧ 1 < x.biasedExponent then 4 * x.significand - 1
  else 4 * x.significand - 2

/-- Four times the significand at the upper midpoint. -/
def upperMidpoint (x : Binary64) : Nat :=
  4 * x.significand + 2

/-- The decimal lies in the rounding interval of the magnitude of `x`. -/
def readsBack (x : Binary64) (d : Decimal) : Bool :=
  let even := x.significand % 2 == 0
  let low := Decimal.compareScaled d.digits d.exponent x.lowerMidpoint (x.exponent - 2)
  let high := Decimal.compareScaled d.digits d.exponent x.upperMidpoint (x.exponent - 2)
  (low == .gt || even && low == .eq) && (high == .lt || even && high == .eq)

/-- The least `k` with `|x| < 10 ^ k`, for `x` other than zero. From one on it
counts the digits of the whole part; below one it counts the zeros that the
whole part of the reciprocal stands for. -/
def decimalScale (x : Binary64) : Int :=
  if x.denominator ≤ x.numerator then
    (Decimal.digitsOf (x.numerator / x.denominator)).length
  else
    let zeros := (Decimal.digitsOf (x.denominator / x.numerator)).length - 1
    if x.numerator * Nat.pow 10 zeros < x.denominator then -(zeros : Int) else 1 - (zeros : Int)

/-- The point of the grid `10 ^ e` that reads back as `x`. If the points below
and above both do, the nearer one, and the upper one if they are equally near. -/
def onGrid (x : Binary64) (e : Int) : Option Decimal :=
  let num := x.numerator * Nat.pow 10 (-e).toNat
  let den := x.denominator * Nat.pow 10 e.toNat
  let below : Decimal := ⟨num / den, e⟩
  let above : Decimal := ⟨num / den + 1, e⟩
  match x.readsBack below, x.readsBack above with
  | true, true => if 2 * (num % den) < den then some below else some above
  | true, false => some below
  | false, true => some above
  | false, false => none

/-- The exact value as a decimal; every finite binary fraction has one. -/
def exactDecimal (x : Binary64) : Decimal :=
  ⟨x.numerator * Nat.pow 5 (-x.exponent).toNat, -((-x.exponent).toNat : Int)⟩

/-- The shortest decimal that reads back as the magnitude of a finite `x`,
without trailing zeros; seventeen digits are enough for every word. -/
def shortest (x : Binary64) : Decimal :=
  if x.significand = 0 then ⟨0, 0⟩
  else
    let found := (List.range 17).findSome? fun places =>
      x.onGrid (x.decimalScale - (places + 1 : Nat))
    (found.getD x.exactDecimal).trim

end Binary64

end StackScript
