/-
This file computes the Luby exponent on 32-bit words and refuses every step that would overflow.
-/

import ParitySat.Luby

namespace ParitySat.Luby

/-- The enclosing block is doubled until it holds the target number of entries. -/
def growWord : Nat → UInt32 → Nat → UInt32 → Option (UInt32 × Nat)
  | 0, _, _, _ => none
  | fuel + 1, size, order, target =>
    if size < target then
      if size < 0x80000000 then growWord fuel (2 * size + 1) (order + 1) target else none
    else some (size, order)

/-- The block is halved until the position is its last entry. -/
def descendWord : Nat → UInt32 → Nat → UInt32 → Option Nat
  | 0, _, _, _ => none
  | fuel + 1, size, order, position =>
    if size = 0 then none
    else if size - 1 = position then some order
    else
      let half := (size - 1) >>> 1
      if half = 0 ∨ order = 0 then none
      else descendWord fuel half (order - 1) (position % half)

/-- This function has no answer where a word would overflow or a divisor would be zero. -/
def wordExponent? (position : UInt32) : Option Nat :=
  if position = 0xFFFFFFFF then none
  else
    (growWord 33 1 0 (position + 1)).bind fun block =>
      descendWord 33 block.1 block.2 position

def wordValue? (base : Float) (position : UInt32) : Option Float :=
  (wordExponent? position).map (power base)

end ParitySat.Luby
