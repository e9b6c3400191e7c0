/-
This file shows that rounding to the nearest floating-point number never reverses an order.
-/

import ParitySat.Proofs.Numeral.Double

namespace ParitySat.Double

open Float.Model Float.Model.UnpackedFloat

section Quarters

/-- This function counts quarters of the last place, and what is below them counts as one. -/
def quarters (extended : ExtendedMantissa) : Nat :=
  4 * extended.mantissa + 2 * extended.roundBit.toNat + extended.stickyBit.toNat

theorem quartersExact (mantissa : Nat) :
    quarters (ExtendedMantissa.ofMantissaAndAccuracy mantissa .exact) = 4 * mantissa := rfl

theorem quartersShift (extended : ExtendedMantissa) :
    quarters extended.shiftRightOne =
      2 * (quarters extended / 4) + min 1 (quarters extended % 4) := by
  obtain ⟨mantissa, roundBit, stickyBit⟩ := extended
  have digit : (mantissa % 2 != 0).toNat = mantissa % 2 := by
    rcases Nat.mod_two_eq_zero_or_one mantissa with even | odd
    · rw [even]
      rfl
    · rw [odd]
      rfl
  simp only [quarters, ExtendedMantissa.shiftRightOne, digit]
  cases roundBit <;> cases stickyBit <;> simp <;> omega

/-- Half a place is rounded to an even mantissa. -/
theorem roundedQuarters (extended : ExtendedMantissa) :
    extended.roundedMantissa = quarters extended / 4 +
      if quarters extended % 4 = 2 then quarters extended / 4 % 2
      else quarters extended % 4 / 3 := by
  obtain ⟨mantissa, roundBit, stickyBit⟩ := extended
  have whole : quarters ⟨mantissa, roundBit, stickyBit⟩ / 4 = mantissa := by
    cases roundBit <;> cases stickyBit <;>
      simp only [quarters, Bool.toNat_true, Bool.toNat_false] <;> omega
  have part : quarters ⟨mantissa, roundBit, stickyBit⟩ % 4 =
      2 * roundBit.toNat + stickyBit.toNat := by
    cases roundBit <;> cases stickyBit <;>
      simp only [quarters, Bool.toNat_true, Bool.toNat_false] <;> omega
  rw [whole, part]
  cases roundBit <;> cases stickyBit <;> rfl

theorem roundedMantissaMonotone {first second : ExtendedMantissa}
    (less : quarters first ≤ quarters second) :
    first.roundedMantissa ≤ second.roundedMantissa := by
  rw [roundedQuarters, roundedQuarters]
  split <;> split <;> omega

theorem shiftMonotone {first second : ExtendedMantissa}
    (less : quarters first ≤ quarters second) (count : Nat) :
    quarters (first >>> count) ≤ quarters (second >>> count) := by
  induction count with
  | zero => exact less
  | succ count inductionHypothesis =>
      change quarters (first >>> count).shiftRightOne ≤ quarters (second >>> count).shiftRightOne
      rw [quartersShift, quartersShift]
      omega

end Quarters

section Rounded

/-- This function drops so many digits and rounds what is left. -/
def rounded (mantissa count : Nat) : Nat :=
  (ExtendedMantissa.ofMantissaAndAccuracy mantissa .exact >>> count).roundedMantissa

theorem roundedMonotone {first second : Nat} (less : first ≤ second) (count : Nat) :
    rounded first count ≤ rounded second count := by
  refine roundedMantissaMonotone (shiftMonotone ?_ count)
  rw [quartersExact, quartersExact]
  exact Nat.mul_le_mul_left 4 less

@[simp] theorem roundedNothing (mantissa : Nat) : rounded mantissa 0 = mantissa := rfl

theorem shiftFirst (extended : ExtendedMantissa) (count : Nat) :
    extended >>> (count + 1) = extended.shiftRightOne >>> count := by
  induction count with
  | zero => rfl
  | succ count inductionHypothesis =>
      change (extended >>> (count + 1)).shiftRightOne = _
      rw [inductionHypothesis]
      rfl

/-- Zeros at the end are dropped without a trace. -/
theorem roundedScaled (mantissa count more : Nat) :
    rounded (mantissa * 2 ^ more) (count + more) = rounded mantissa count := by
  induction more with
  | zero => rw [Nat.pow_zero, Nat.mul_one, Nat.add_zero]
  | succ more inductionHypothesis =>
      have even : (ExtendedMantissa.ofMantissaAndAccuracy (mantissa * 2 ^ (more + 1))
          .exact).shiftRightOne =
          ExtendedMantissa.ofMantissaAndAccuracy (mantissa * 2 ^ more) .exact := by
        rw [Nat.pow_succ, ← Nat.mul_assoc]
        simp [ExtendedMantissa.ofMantissaAndAccuracy, ExtendedMantissa.shiftRightOne]
      rw [← inductionHypothesis, rounded, ← Nat.add_assoc, shiftFirst, even]
      rfl

theorem roundedMultiple (mantissa count : Nat) :
    rounded (mantissa * 2 ^ count) count = mantissa := by
  have scaled := roundedScaled mantissa 0 count
  rwa [Nat.zero_add, roundedNothing] at scaled

theorem roundedAtMost {mantissa count bound : Nat} (below : mantissa ≤ bound * 2 ^ count) :
    rounded mantissa count ≤ bound := by
  rw [← roundedMultiple bound count]
  exact roundedMonotone below count

theorem roundedAtLeastBound {mantissa count bound : Nat} (above : bound * 2 ^ count ≤ mantissa) :
    bound ≤ rounded mantissa count := by
  rw [← roundedMultiple bound count]
  exact roundedMonotone above count

end Rounded

section Rank

/-- The last place of a number has this exponent after rounding. -/
def lastPlace (mantissa : Nat) (exponent : Int) : Int :=
  max (mantissa.log2 - 52 + exponent) (-1074)

theorem targetLastPlace (mantissa : Nat) (exponent : Int) :
    Format.binary64.targetExponent (totalExponent mantissa exponent) =
      lastPlace mantissa exponent := by
  simp only [Format.targetExponent, totalExponent, Format.mantissaBits, Format.minExponent,
    lastPlace]
  omega

/-- This function is the place of the rounded number in the order of all the numbers.

The numbers of one exponent are consecutive, and so are those of adjacent exponents. -/
def roundedRank (mantissa : Nat) (exponent : Int) : Nat :=
  (lastPlace mantissa exponent + 1074).toNat * 2 ^ 52 +
    rounded (mantissa * 2 ^ (exponent - lastPlace mantissa exponent).toNat)
      (lastPlace mantissa exponent - exponent).toNat

variable {mantissa : Nat} {exponent : Int}

/-- A rounded mantissa has at most 53 digits, or it is the least number with 54 digits. -/
theorem roundedShort (mantissa : Nat) (exponent : Int) :
    rounded (mantissa * 2 ^ (exponent - lastPlace mantissa exponent).toNat)
      (lastPlace mantissa exponent - exponent).toNat ≤ 2 ^ 53 := by
  refine roundedAtMost ?_
  have digits : mantissa.log2 + 1 + (exponent - lastPlace mantissa exponent).toNat ≤
      53 + (lastPlace mantissa exponent - exponent).toNat := by
    unfold lastPlace
    omega
  calc mantissa * 2 ^ (exponent - lastPlace mantissa exponent).toNat
      ≤ 2 ^ (mantissa.log2 + 1) * 2 ^ (exponent - lastPlace mantissa exponent).toNat :=
        Nat.mul_le_mul_right _ (Nat.le_of_lt Nat.lt_log2_self)
    _ ≤ 2 ^ 53 * 2 ^ (lastPlace mantissa exponent - exponent).toNat := by
        rw [← Nat.pow_add, ← Nat.pow_add]
        exact Nat.pow_le_pow_right Nat.two_pos digits

/-- A rounded mantissa has 53 digits unless the exponent is the least one. -/
theorem roundedLong (positive : 0 < mantissa) (above : -1074 < lastPlace mantissa exponent) :
    2 ^ 52 ≤ rounded (mantissa * 2 ^ (exponent - lastPlace mantissa exponent).toNat)
      (lastPlace mantissa exponent - exponent).toNat := by
  refine roundedAtLeastBound ?_
  have digits : 52 + (lastPlace mantissa exponent - exponent).toNat =
      mantissa.log2 + (exponent - lastPlace mantissa exponent).toNat := by
    unfold lastPlace at above ⊢
    omega
  calc 2 ^ 52 * 2 ^ (lastPlace mantissa exponent - exponent).toNat
      = 2 ^ mantissa.log2 * 2 ^ (exponent - lastPlace mantissa exponent).toNat := by
        rw [← Nat.pow_add, ← Nat.pow_add, digits]
    _ ≤ mantissa * 2 ^ (exponent - lastPlace mantissa exponent).toNat :=
        Nat.mul_le_mul_right _ (Nat.log2_self_le (Nat.ne_of_gt positive))

theorem log2Monotone {first second : Nat} (positive : 0 < first) (less : first ≤ second) :
    first.log2 ≤ second.log2 :=
  (Nat.le_log2 (Nat.ne_of_gt (Nat.lt_of_lt_of_le positive less))).2
    (Nat.le_trans (Nat.log2_self_le (Nat.ne_of_gt positive)) less)

/-- Rounding does not reverse the order of two numbers. -/
theorem roundedRankMonotone {first second : Nat} (positive : 0 < first) (less : first ≤ second)
    (exponent : Int) : roundedRank first exponent ≤ roundedRank second exponent := by
  have digits := log2Monotone positive less
  have places : lastPlace first exponent ≤ lastPlace second exponent := by
    unfold lastPlace
    omega
  rcases Int.lt_or_eq_of_le places with lower | same
  · -- The carry of the smaller number is at most the least number of the next exponent.
    have short := roundedShort first exponent
    have low : -1074 ≤ lastPlace first exponent := Int.le_max_right _ _
    have long := @roundedLong second exponent (Nat.lt_of_lt_of_le positive less) (by omega)
    unfold roundedRank
    omega
  · unfold roundedRank
    rw [same]
    exact Nat.add_le_add_left (roundedMonotone (Nat.mul_le_mul_right _ less) _) _

theorem lastPlaceScaled (positive : 0 < mantissa) (exponent : Int) (count : Nat) :
    lastPlace (mantissa * 2 ^ count) (exponent - count) = lastPlace mantissa exponent := by
  have digits : (mantissa * 2 ^ count).log2 = mantissa.log2 + count := by
    rw [← Nat.shiftLeft_eq, shiftedLeading positive]
  unfold lastPlace
  rw [digits]
  omega

/-- The same number can be written with a smaller exponent. -/
theorem roundedRankScaled (positive : 0 < mantissa) (exponent : Int) (count : Nat) :
    roundedRank (mantissa * 2 ^ count) (exponent - count) = roundedRank mantissa exponent := by
  unfold roundedRank
  rw [lastPlaceScaled positive]
  generalize lastPlace mantissa exponent = place
  congr 1
  rcases Int.lt_or_le exponent place with dropped | extended
  · -- Both mantissas lose digits, and the longer one loses its zeros as well.
    have none : (exponent - place).toNat = 0 := by omega
    have noneEither : (exponent - count - place).toNat = 0 := by omega
    have more : (place - (exponent - count)).toNat = (place - exponent).toNat + count := by omega
    rw [none, noneEither, more, Nat.pow_zero, Nat.mul_one, Nat.mul_one, roundedScaled]
  · have none : (place - exponent).toNat = 0 := by omega
    have total : count + (exponent - count - place).toNat =
        (exponent - place).toNat + (place - (exponent - count)).toNat := by omega
    rw [none, roundedNothing, Nat.mul_assoc, ← Nat.pow_add, total, Nat.pow_add, ← Nat.mul_assoc,
      roundedMultiple]

end Rank

end ParitySat.Double
