/-
This file converts seconds to whole nanoseconds.
-/

import ParitySat.Numeral.Nearest

namespace ParitySat.Duration

def perSecond : Nat := 1000000000

/-- This function rounds a scaled number of seconds to nanoseconds. -/
def nanoseconds (fraction : Nat) (exponent : Int) : Nat :=
  if 0 ≤ exponent then (fraction <<< exponent.toNat) * perSecond
  else Numeral.roundedQuotient (fraction * perSecond) (1 <<< (-exponent).toNat)

/-- The seconds have to be finite, not negative and below 2^64. -/
def ofSeconds? (seconds : Float) : Option Nat :=
  if 0.0 ≤ seconds && seconds < 18446744073709551616.0 then
    let parts := Numeral.significand seconds.toBits.toNat
    if parts.1 = 0 then some 0 else some (nanoseconds parts.1 parts.2)
  else none

end ParitySat.Duration
