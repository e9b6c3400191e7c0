/-
This file reads decimal integers of bounded size.
-/

namespace ParitySat.Numeral

def isDigit (character : Char) : Bool :=
  '0' ≤ character && character ≤ '9'

def digitValue (character : Char) : Nat :=
  character.toNat - '0'.toNat

/-- This function reads digits from the most significant one on. -/
def digitsValue (digits : List Char) : Nat :=
  digits.foldl (fun number digit => 10 * number + digitValue digit) 0

/-- This function reads a number of one digit or more. -/
def natural? (characters : List Char) : Option Nat :=
  if !characters.isEmpty && characters.all isDigit then some (digitsValue characters) else none

/-- The number may have one sign. -/
def integer? : List Char → Option Int
  | '-' :: rest => (natural? rest).map fun number => -(number : Int)
  | '+' :: rest => (natural? rest).map fun number => (number : Int)
  | characters => (natural? characters).map fun number => (number : Int)

/-- Half the integers of 64 bits with a sign are below zero. -/
def signedBound : Int := 0x8000000000000000

def unsignedBound : Nat := 0x10000000000000000

/-- This function accepts the integers of 64 bits with a sign. -/
def signed64? (characters : List Char) : Option Int :=
  (integer? characters).filter fun number => -signedBound ≤ number && number < signedBound

/-- The size of the least integer of 64 bits is out of range and wraps around to it. -/
def magnitude64 (number : Int) : Int :=
  (number.natAbs : Int).bmod unsignedBound

/-- This function accepts the integers of 64 bits without a sign, but for a plus. -/
def unsigned64? : List Char → Option Nat
  | '+' :: rest => (natural? rest).filter (· < unsignedBound)
  | characters => (natural? characters).filter (· < unsignedBound)

end ParitySat.Numeral
