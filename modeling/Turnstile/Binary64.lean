import Turnstile.Text.Decimal

/-!
Binary floating-point numbers of 64 bits, kept as their bits, so that the
payload of a NaN is not lost. The value of a finite one is `significand * 2 ^ exponent`,
which `percentText` writes with two places, exactly rounded.
-/

namespace Turnstile

structure Binary64 where
  bits : UInt64
  deriving DecidableEq, Repr

namespace Binary64

def ofFloat (value : Float) : Binary64 := ⟨value.toBits⟩

def toFloat (number : Binary64) : Float := Float.ofBits number.bits

/-- Counts are turned into floating-point numbers by rounding to nearest, ties to even. -/
def ofCount (count : Nat) : Float := count.toUInt64.toFloat

def isNegative (number : Binary64) : Bool := 1 <<< 63 ≤ number.bits.toNat

def exponentField (number : Binary64) : Nat := (number.bits.toNat >>> 52) % 2048

def fractionField (number : Binary64) : Nat := number.bits.toNat % (1 <<< 52)

def isFinite (number : Binary64) : Bool := number.exponentField < 2047

def isNaN (number : Binary64) : Bool :=
  number.exponentField = 2047 ∧ number.fractionField ≠ 0

/-- Numeric equality: a NaN equals nothing, and the two zeros are equal. -/
def same (left right : Binary64) : Bool :=
  !left.isNaN && !right.isNaN &&
    (left.bits == right.bits ||
      left.bits.toNat % (1 <<< 63) == 0 && right.bits.toNat % (1 <<< 63) == 0)

def significand (number : Binary64) : Nat :=
  if number.exponentField = 0 then number.fractionField
  else (1 <<< 52) + number.fractionField

/-- The power of two that the significand is multiplied by, plus 1074. -/
def scale (number : Binary64) : Nat := number.exponentField - 1

/-- The magnitude in units of `10 ^ -places`, rounded to the nearest whole
number, a half to the even one. -/
def roundedParts (places : Nat) (number : Binary64) : Nat :=
  Decimal.roundHalfEven ((number.significand <<< number.scale) * Nat.pow 10 places) (1 <<< 1074)

def fixedText (places : Nat) (number : Binary64) : String :=
  if number.isNaN then "NaN"
  else
    let magnitude :=
      if number.isFinite then Decimal.fixed places (number.roundedParts places) else "inf"
    if number.isNegative then "-" ++ magnitude else magnitude

end Binary64

def percentText (ratio : Float) : String :=
  (Binary64.ofFloat (ratio * 100.0)).fixedText 2 ++ "%"

end Turnstile
