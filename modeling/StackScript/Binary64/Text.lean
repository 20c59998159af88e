import StackScript.Binary64.Shortest

/-!
# Text of a float

The shortest digits are written in full where the leading digit has an
exponent from -4 to 15, with at least one digit on each side of the point, and
with an exponent mark otherwise. Where floats are written, a `FloatStyle` holds
what is left to decide: how the exponent and a NaN look.
-/

namespace StackScript

/-- The choices that one place of output makes for its floats. -/
structure FloatStyle where
  /-- A plus sign stands before an exponent that is not negative. -/
  signedExponent : Bool
  /-- The exponent has at least this many digits. -/
  exponentWidth : Nat
  /-- The text of every NaN. -/
  nan : String

namespace Decimal

/-- The exponent of the leading digit. -/
def leadingExponent (d : Decimal) : Int :=
  ((digitsOf d.digits).length : Int) - 1 + d.exponent

/-- Digits with a point, and zeros where the digits do not reach. -/
def plainText (d : Decimal) : List Char :=
  let digits := digitsOf d.digits
  if 0 ≤ d.exponent then
    digits ++ List.replicate d.exponent.toNat '0' ++ ['.', '0']
  else if 0 ≤ d.leadingExponent then
    let whole := (d.leadingExponent + 1).toNat
    digits.take whole ++ '.' :: digits.drop whole
  else
    ['0', '.'] ++ List.replicate (-d.leadingExponent - 1).toNat '0' ++ digits

/-- One digit, a point if more digits follow, and the exponent of the first. -/
def scientificText (style : FloatStyle) (d : Decimal) : List Char :=
  let digits := digitsOf d.digits
  let fraction := if digits.length ≤ 1 then [] else '.' :: digits.drop 1
  let sign := if d.leadingExponent < 0 then ['-'] else if style.signedExponent then ['+'] else []
  let exponent := digitsOf d.leadingExponent.natAbs
  let padding := List.replicate (style.exponentWidth - exponent.length) '0'
  digits.take 1 ++ fraction ++ 'e' :: sign ++ padding ++ exponent

/-- Plain from `0.0001` on and below ten to the sixteenth. -/
def text (style : FloatStyle) (d : Decimal) : List Char :=
  if -4 ≤ d.leadingExponent ∧ d.leadingExponent < 16 then d.plainText
  else d.scientificText style

end Decimal

namespace Binary64

/-- The text of a float: a minus sign if its sign bit is set, then the shortest
digits. -/
def text (style : FloatStyle) (x : Binary64) : String :=
  if x.isNaN then style.nan
  else
    let sign := if x.isNegative then ['-'] else []
    let magnitude := if x.isFinite then x.shortest.text style else ['i', 'n', 'f']
    String.ofList (sign ++ magnitude)

end Binary64

end StackScript
