/-
This file defines the Luby sequence 1, 1, 2, 1, 1, 2, 4, ... with an arbitrary base.
-/

namespace ParitySat.Luby

/-- A block holds two copies of the block one order below and one last entry, the largest. -/
def blockSize : Nat → Nat
  | 0 => 1
  | order + 1 => 2 * blockSize order + 1

/-- An entry that does not end the block repeats the entry of a smaller block. -/
def exponentWithin : Nat → Nat → Nat
  | 0, _ => 0
  | order + 1, position =>
    if position + 1 = blockSize (order + 1) then order + 1
    else exponentWithin order (position % blockSize order)

/-- This function is the exponent of the entry at a position, counted from zero. -/
def exponent (position : Nat) : Nat :=
  exponentWithin (Nat.log2 (position + 1)) position

/-- The product is taken by repeated squaring, from the lowest bit of the exponent upwards. -/
def powerLoop : Nat → Float → Float → Nat → Float
  | 0, _, result, _ => result
  | fuel + 1, base, result, exponent =>
    let result := if exponent % 2 = 1 then result * base else result
    if exponent / 2 = 0 then result
    else powerLoop fuel (base * base) result (exponent / 2)

def power (base : Float) (exponent : Nat) : Float :=
  powerLoop (exponent + 1) base 1.0 exponent

/-- This function is the entry of the sequence at a position. -/
def value (base : Float) (position : Nat) : Float :=
  power base (exponent position)

end ParitySat.Luby
