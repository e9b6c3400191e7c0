/-
This file rounds quotients to the nearest integer and to the nearest double, and takes doubles
apart.
-/

namespace ParitySat.Numeral

/-- This function divides and rounds to the nearest number, and a half to an even one. -/
def roundedQuotient (dividend divisor : Nat) : Nat :=
  let quotient := dividend / divisor
  let rest := dividend % divisor
  if 2 * rest < divisor then quotient
  else if divisor < 2 * rest then quotient + 1
  else quotient + quotient % 2

def infinityBits : Nat := 0x7FF0000000000000

/-- The unit is the power of two with this exponent, and no unit is below the least double. -/
def scaledQuotient (dividend divisor : Nat) (exponent : Int) : Nat :=
  if exponent < 0 then roundedQuotient (dividend <<< (-exponent).toNat) divisor
  else roundedQuotient dividend (divisor <<< exponent.toNat)

/-- The quotient has 53 bits or 54 bits in this unit. -/
def leadingExponent (dividend divisor : Nat) : Int :=
  (Nat.log2 dividend : Int) - Nat.log2 divisor - 53

/-- A unit leaves a quotient of at least 2^52, unless it is the least double. -/
def unitExponent (dividend divisor : Nat) : Int :=
  let exponent := leadingExponent dividend divisor
  let tooFine :=
    if exponent < 0 then divisor <<< 53 ≤ dividend <<< (-exponent).toNat
    else divisor <<< (53 + exponent.toNat) ≤ dividend
  max (if tooFine then exponent + 1 else exponent) (-1074)

/-- A quotient that rounds up to 2^53 carries into the exponent field. -/
def nearestBits (dividend divisor : Nat) : Nat :=
  let exponent := unitExponent dividend divisor
  min ((exponent + 1074).toNat <<< 52 + scaledQuotient dividend divisor exponent) infinityBits

/-- Every quotient beyond the greatest double is infinite. -/
def nearestDouble (dividend divisor : Nat) : Float :=
  if dividend = 0 then 0.0 else Float.ofBits (UInt64.ofNat (nearestBits dividend divisor))

/-- A finite double is its significand times a power of two, and this function gives both. -/
def significand (bits : Nat) : Nat × Int :=
  let field : Nat := (bits >>> 52) % 0x800
  let fraction : Nat := bits % 0x10000000000000
  if field = 0 then (fraction, -1074) else (fraction + 0x10000000000000, (field : Int) - 1075)

/-- This function is the value of a double that is a whole number. -/
def whole? (number : Float) : Option Int :=
  let (digits, exponent) := significand number.toBits.toNat
  let magnitude : Option Nat :=
    if exponent < 0 then
      let unit := 1 <<< (-exponent).toNat
      if digits % unit = 0 then some (digits / unit) else none
    else some (digits <<< exponent.toNat)
  if number.isFinite then
    magnitude.map fun size => if number < 0.0 then -(size : Int) else (size : Int)
  else none

end ParitySat.Numeral
