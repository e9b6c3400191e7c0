/-
This file decodes the literals of a loosely typed host.
-/

import ParitySat.Error
import ParitySat.Literal

namespace ParitySat

/-- A host value is an integer, or its printed form is kept. -/
inductive HostLiteral where
  | integer (value : Int)
  | other (text : String)
  deriving DecidableEq, Repr

namespace HostLiteral

/-- Half the integers of 128 bits are below zero. -/
def hostBound : Int := 0x80000000000000000000000000000000

/-- A wider integer counts as the nearest one of 128 bits. -/
def ofInteger (value : Int) : HostLiteral :=
  .integer (max (-hostBound) (min value (hostBound - 1)))

def text : HostLiteral → String
  | .integer value => toString value
  | .other text => text

/-- The safe range is half the range of a 32-bit integer. -/
def maximumExternal : Int := 1073741823

def minimumExternal : Int := -1073741824

/-- This function accepts the non-zero integers of the safe range. -/
def decode : HostLiteral → Except Error Literal
  | .other text => .error (.invalidLiteral text .notAnInteger)
  | .integer value =>
    if value = 0 then .error (.invalidLiteral "0" .zero)
    else if minimumExternal ≤ value ∧ value ≤ maximumExternal then
      .ok ⟨value.natAbs - 1, value < 0⟩
    else .error (.invalidLiteral (toString value) .outOfRange)

end HostLiteral

end ParitySat
