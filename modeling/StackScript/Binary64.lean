/-!
# Floats as 64-bit words

A float is kept as its binary64 word, so that equality of floats is equality
of bits and a NaN keeps the bits it was given. A finite word stands for
`significand * 2 ^ exponent` with the sign in front. Conversions from decimals
and integers go through exact naturals: `nearestMagnitude` rounds a quotient
once, to the nearest word, and a half goes to the even one.
-/

namespace StackScript

/-- A binary64 float. -/
structure Binary64 where
  /-- Sign, eleven bits of exponent and fifty-two of fraction. -/
  bits : UInt64
  deriving DecidableEq, Inhabited

namespace Binary64

/-! ## Fields of the word -/

/-- The highest of the sixty-four bits. -/
def signBit : Nat := 0x8000000000000000

/-- The bit above the fraction; a normal word has it without storing it. -/
def hiddenBit : Nat := 0x10000000000000

/-- The sign bit; a zero and a NaN have one too. -/
def isNegative (x : Binary64) : Bool :=
  signBit ≤ x.bits.toNat

/-- The eleven bits below the sign. -/
def biasedExponent (x : Binary64) : Nat :=
  x.bits.toNat / hiddenBit % 2048

/-- The fifty-two low bits. -/
def fraction (x : Binary64) : Nat :=
  x.bits.toNat % hiddenBit

/-- Neither infinite nor a NaN. -/
def isFinite (x : Binary64) : Bool :=
  x.biasedExponent != 2047

/-- All exponent bits and some fraction bit are set. -/
def isNaN (x : Binary64) : Bool :=
  x.biasedExponent == 2047 && x.fraction != 0

/-- Either zero. -/
def isZero (x : Binary64) : Bool :=
  x.biasedExponent == 0 && x.fraction == 0

/-- The whole number that a finite word scales; a subnormal has no hidden bit. -/
def significand (x : Binary64) : Nat :=
  if x.biasedExponent = 0 then x.fraction else hiddenBit + x.fraction

/-- The power of two that a finite word is scaled by. -/
def exponent (x : Binary64) : Int :=
  if x.biasedExponent = 0 then -1074 else (x.biasedExponent : Int) - 1075

/-! ## Rounding to a word -/

/-- The word below the sign of the infinities. -/
def infinityMagnitude : Nat := 2047 * hiddenBit

/-- Puts a sign before the sixty-three bits of a magnitude. -/
def ofMagnitude (negative : Bool) (magnitude : Nat) : Binary64 :=
  ⟨UInt64.ofNat (if negative then signBit + magnitude else magnitude)⟩

/-- The whole number nearest to `num / den`; a half goes to the even neighbour. -/
def roundHalfEven (num den : Nat) : Nat :=
  let whole := num / den
  let twice := 2 * (num % den)
  if den < twice ∨ twice = den ∧ whole % 2 = 1 then whole + 1 else whole

/-- The largest `e` with `2 ^ e ≤ num / den`, for positive `num` and `den`. -/
def floorLog2 (num den : Nat) : Int :=
  let guess : Int := (num.log2 : Int) - (den.log2 : Int)
  if den <<< guess.toNat ≤ num <<< (-guess).toNat then guess else guess - 1

/-- The sixty-three bits nearest to `num / den`. The significand is rounded
at the scale of the result; a significand that rounds up to the next power of
two carries into the exponent by itself, and what is too large is infinite. -/
def nearestMagnitude (num den : Nat) : Nat :=
  if num = 0 then 0
  else
    let scale := max (-1074) (floorLog2 num den - 52)
    let significand := roundHalfEven (num <<< (-scale).toNat) (den <<< scale.toNat)
    min ((scale + 1074).toNat * hiddenBit + significand) infinityMagnitude

/-- The float nearest to `digits / 10 ^ places`, with a sign in front. -/
def ofDecimal (negative : Bool) (digits places : Nat) : Binary64 :=
  ofMagnitude negative (nearestMagnitude digits (Nat.pow 10 places))

/-- The float nearest to an integer; zero is positive. -/
def ofInt (n : Int) : Binary64 :=
  ofMagnitude (n < 0) (nearestMagnitude n.natAbs 1)

/-! ## Arithmetic -/

/-- The machine float with these bits. -/
def toFloat (x : Binary64) : Float :=
  Float.ofBits x.bits

/-- The word of a machine float. -/
def ofFloat (x : Float) : Binary64 :=
  ⟨x.toBits⟩

/-- Sum, rounded once. -/
def add (x y : Binary64) : Binary64 :=
  ofFloat (x.toFloat + y.toFloat)

/-- Difference, rounded once. -/
def sub (x y : Binary64) : Binary64 :=
  ofFloat (x.toFloat - y.toFloat)

/-- Product, rounded once. -/
def mul (x y : Binary64) : Binary64 :=
  ofFloat (x.toFloat * y.toFloat)

/-- Quotient, rounded once. -/
def div (x y : Binary64) : Binary64 :=
  ofFloat (x.toFloat / y.toFloat)

/-- The largest whole float that is not above `x`. Whole floats, the infinities
and NaNs are their own floor, so the sign of a zero stays. -/
def floor (x : Binary64) : Binary64 :=
  if x.isFinite = false ∨ 0 ≤ x.exponent then x
  else
    let unit := 1 <<< (-x.exponent).toNat
    let whole := x.significand / unit
    if x.significand % unit = 0 then x
    else if x.isNegative then ofMagnitude true (nearestMagnitude (whole + 1) 1)
    else ofMagnitude false (nearestMagnitude whole 1)

end Binary64

end StackScript
