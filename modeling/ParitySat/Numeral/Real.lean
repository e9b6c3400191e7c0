/-
This file reads decimal fractions and rounds them to the nearest double.
-/

import ParitySat.Numeral.Integer
import ParitySat.Numeral.Nearest

namespace ParitySat.Numeral

/-- A scaled number is the digits times a power of ten. -/
structure Scaled where
  digits : Nat
  exponent : Int
  deriving DecidableEq, Repr

def infinity : Float := Float.ofBits (UInt64.ofNat infinityBits)

def notANumber : Float := Float.ofBits 0x7FF8000000000000

/-- Numbers far outside the range of doubles are infinite or zero. -/
def Scaled.toFloat (scaled : Scaled) : Float :=
  let length : Int := (Nat.toDigits 10 scaled.digits).length
  if scaled.digits = 0 then 0.0
  else if 310 < length + scaled.exponent then infinity
  else if length + scaled.exponent < -330 then 0.0
  else if scaled.exponent < 0 then nearestDouble scaled.digits (Nat.pow 10 scaled.exponent.natAbs)
  else nearestDouble (scaled.digits * Nat.pow 10 scaled.exponent.natAbs) 1

/-- The exponent follows the letter e of either case. -/
def exponent? : List Char → Option Int
  | [] => some 0
  | mark :: rest => if mark = 'e' ∨ mark = 'E' then integer? rest else none

/-- A point needs a digit on at least one side. -/
def scaled? (characters : List Char) : Option Scaled :=
  let whole := characters.takeWhile isDigit
  let rest := characters.dropWhile isDigit
  match rest with
  | '.' :: more =>
    let fraction := more.takeWhile isDigit
    if whole.isEmpty && fraction.isEmpty then none
    else (exponent? (more.dropWhile isDigit)).map fun exponent =>
      ⟨digitsValue (whole ++ fraction), exponent - fraction.length⟩
  | _ =>
    if whole.isEmpty then none
    else (exponent? rest).map fun exponent => ⟨digitsValue whole, exponent⟩

/-- The names of infinity and of the missing number are read in either case. -/
def magnitude? (characters : List Char) : Option Float :=
  let name := String.ofList (characters.map Char.toLower)
  if name = "inf" ∨ name = "infinity" then some infinity
  else if name = "nan" then some notANumber
  else (scaled? characters).map Scaled.toFloat

/-- The number may have one sign. -/
def real? : List Char → Option Float
  | '-' :: rest => (magnitude? rest).map fun number => -number
  | '+' :: rest => magnitude? rest
  | characters => magnitude? characters

end ParitySat.Numeral
