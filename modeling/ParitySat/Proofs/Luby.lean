/-
This file shows that the Luby sequence has no upper bound when its base is at least two.
-/

import ParitySat.Luby
import ParitySat.Proofs.Numeral.Double

namespace ParitySat.Luby

open Double

theorem blockSizeSucc (order : Nat) : blockSize order + 1 = 2 ^ (order + 1) := by
  induction order with
  | zero => rfl
  | succ order inductionHypothesis =>
      rw [blockSize, Nat.pow_succ, ← inductionHypothesis]
      omega

/-- The last entry of a block is the first entry with its exponent. -/
theorem exponentLast (order : Nat) : exponent (blockSize order - 1) = order := by
  have size := blockSizeSucc order
  have positive : 2 ^ 1 ≤ 2 ^ (order + 1) :=
    Nat.pow_le_pow_right Nat.two_pos (Nat.le_add_left 1 order)
  have last : blockSize order - 1 + 1 = blockSize order := by omega
  have within : Nat.log2 (blockSize order) = order := by
    refine (Nat.log2_eq_iff (by omega)).mpr ?_
    rw [Nat.pow_succ] at *
    omega
  rw [exponent, last, within]
  cases order with
  | zero => rfl
  | succ order => rw [exponentWithin, if_pos last]

example : (List.range 15).map exponent = [0, 0, 1, 0, 0, 1, 2, 0, 0, 1, 0, 0, 1, 2, 3] := by
  decide

/-- The number is a product of so many factors, taken in any order and rounded at every step. -/
inductive Product (base : Float) : Nat → Float → Prop where
  | one : Product base 0 1.0
  | factor : Product base 1 base
  | times {first second : Nat} {left right : Float} (leftProduct : Product base first left)
      (rightProduct : Product base second right) : Product base (first + second) (left * right)

/-- Repeated squaring doubles the number of factors while it halves the exponent. -/
theorem powerLoopProduct {base : Float} {first second : Nat} (fuel : Nat) {factor result : Float}
    {exponent : Nat} (enough : exponent < fuel) (squared : Product base first factor)
    (found : Product base second result) :
    Product base (second + first * exponent) (powerLoop fuel factor result exponent) := by
  induction fuel generalizing first second factor result exponent with
  | zero => exact absurd enough (Nat.not_lt_zero _)
  | succ fuel inductionHypothesis =>
      have halves := Nat.div_add_mod exponent 2
      have next : Product base (second + first * (exponent % 2))
          (if exponent % 2 = 1 then result * factor else result) := by
        split
        · rename_i odd
          rw [odd, Nat.mul_one]
          exact found.times squared
        · rename_i even
          rw [show exponent % 2 = 0 by omega, Nat.mul_zero]
          exact found
      rw [powerLoop]
      split
      · rename_i last
        have whole : exponent % 2 = exponent := by omega
        rwa [whole] at next ⊢
      · have fewer : exponent / 2 < fuel := by omega
        have later := inductionHypothesis fewer (squared.times squared) next
        have total : second + first * (exponent % 2) + (first + first) * (exponent / 2) =
            second + first * exponent := by
          conv_rhs => rw [← halves]
          ring
        rwa [total] at later

theorem powerProduct (base : Float) (exponent : Nat) :
    Product base exponent (power base exponent) := by
  have single : Product base 1 base := .factor
  have product := powerLoopProduct _ (Nat.lt_succ_self exponent) single .one
  rwa [Nat.zero_add, Nat.one_mul] at product

/-- A product of numbers that are at least two is at least a power of two. -/
theorem Product.atLeast {base : Float} (large : 2.0 ≤ base) {count : Nat} {number : Float}
    (product : Product base count number) : AtLeast count number.toModel.unpack := by
  induction product with
  | one => exact .one
  | factor => exact .ofCompare large
  | times _ _ leftBound rightBound => exact leftBound.times rightBound

/-- Every entry is at least the power of two with its exponent. -/
theorem valueAtLeast {base : Float} (large : 2.0 ≤ base) (position : Nat) :
    AtLeast (exponent position) (value base position).toModel.unpack :=
  (powerProduct base (exponent position)).atLeast large

end ParitySat.Luby
