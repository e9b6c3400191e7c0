/-
This file bounds floating-point numbers from below by powers of two.
-/

import Mathlib

namespace ParitySat.Double

open Float.Model Float.Model.UnpackedFloat

/-- A number beyond the range of finite numbers counts as large enough. -/
inductive AtLeast (power : Nat) : UnpackedFloat → Prop where
  | infinity : AtLeast power (.infinity .positive)
  | finite {mantissa : Nat} {exponent : Int} (positive : 0 < mantissa)
      (leading : mantissa.log2 = 52) (large : (power : Int) ≤ 52 + exponent) :
      AtLeast power (.finite .positive mantissa exponent positive)

theorem shiftedMantissa (mantissa count : Nat) :
    (ExtendedMantissa.ofMantissaAndAccuracy mantissa .exact >>> count).mantissa =
      mantissa / 2 ^ count := by
  induction count with
  | zero => exact (Nat.div_one _).symm
  | succ count inductionHypothesis =>
      change (ExtendedMantissa.ofMantissaAndAccuracy mantissa .exact >>> count).mantissa / 2 = _
      rw [inductionHypothesis, Nat.div_div_eq_div_mul, Nat.pow_succ]

theorem roundedAtLeast (extended : ExtendedMantissa) :
    extended.mantissa ≤ extended.roundedMantissa := by
  unfold ExtendedMantissa.roundedMantissa
  cases extended.accuracy with
  | exact => exact Nat.le_refl _
  | inexact order =>
      cases order with
      | lt => exact Nat.le_refl _
      | eq => exact Nat.le_add_right _ _
      | gt => exact Nat.le_succ _

/-- The leading digits of a long mantissa fill the format. -/
theorem leadingQuotient {mantissa : Nat} (long : 52 ≤ mantissa.log2) :
    2 ^ 52 ≤ mantissa / 2 ^ (mantissa.log2 - 52) ∧
      mantissa / 2 ^ (mantissa.log2 - 52) < 2 ^ 53 := by
  have nonzero : mantissa ≠ 0 := by
    rintro rfl
    exact absurd long (by decide)
  obtain ⟨low, high⟩ := (Nat.log2_eq_iff nonzero).mp rfl
  constructor
  · rw [Nat.le_div_iff_mul_le (Nat.two_pow_pos _), ← Nat.pow_add]
    rwa [show 52 + (mantissa.log2 - 52) = mantissa.log2 by omega]
  · rw [Nat.div_lt_iff_lt_mul (Nat.two_pow_pos _), ← Nat.pow_add]
    rwa [show 53 + (mantissa.log2 - 52) = mantissa.log2 + 1 by omega]

/-- A number of normal size is shifted until 53 digits are left. -/
theorem shiftNormal {mantissa : Nat} (exponent : Int) (long : 52 ≤ mantissa.log2)
    (normal : -1022 ≤ (mantissa.log2 : Int) + exponent) :
    shiftToTargetExponent Format.binary64 mantissa exponent .exact =
      (ExtendedMantissa.ofMantissaAndAccuracy mantissa .exact >>> (mantissa.log2 - 52),
        exponent + (mantissa.log2 - 52 : Nat)) := by
  have target : Format.binary64.targetExponent (totalExponent mantissa exponent) - exponent =
      (mantissa.log2 - 52 : Nat) := by
    simp only [Format.targetExponent, totalExponent, Format.mantissaBits, Format.minExponent]
    omega
  simp only [shiftToTargetExponent, shiftToExponent, target, Int.toNat_natCast]

/-- Rounding never crosses a power of two downwards. -/
theorem AtLeast.round {power mantissa : Nat} {exponent : Int} (long : 52 ≤ mantissa.log2)
    (large : (power : Int) ≤ mantissa.log2 + exponent) :
    AtLeast power (roundWithAccuracy .binary64 .positive mantissa exponent .exact) := by
  rw [roundWithAccuracy, shiftNormal exponent long (by omega)]
  have above := roundedAtLeast
    (ExtendedMantissa.ofMantissaAndAccuracy mantissa .exact >>> (mantissa.log2 - 52))
  rw [shiftedMantissa] at above
  dsimp only
  generalize (ExtendedMantissa.ofMantissaAndAccuracy mantissa .exact >>>
    (mantissa.log2 - 52)).roundedMantissa = rounded at above ⊢
  have atLeast : 2 ^ 52 ≤ rounded := Nat.le_trans (leadingQuotient long).1 above
  have nonzero : rounded ≠ 0 := by
    rintro rfl
    exact absurd atLeast (by decide)
  -- A carry into the next power of two is shifted away like any other digit.
  have full : 52 ≤ rounded.log2 := (Nat.le_log2 nonzero).mpr atLeast
  obtain ⟨least, most⟩ := leadingQuotient full
  have carried := shiftNormal (exponent + (mantissa.log2 - 52 : Nat)) full (by omega)
  simp only [carried, shiftedMantissa]
  have positive : 0 < rounded / 2 ^ (rounded.log2 - 52) :=
    Nat.lt_of_lt_of_le (Nat.two_pow_pos 52) least
  rw [dif_neg (Nat.ne_of_gt positive)]
  refine .finite positive ?_ (by omega)
  exact (Nat.log2_eq_iff (Nat.ne_of_gt positive)).mpr ⟨least, most⟩

theorem AtLeast.mul {first second : Nat} {left right : UnpackedFloat}
    (leftLarge : AtLeast first left) (rightLarge : AtLeast second right) :
    AtLeast (first + second) (UnpackedFloat.mul .binary64 left right) := by
  cases leftLarge with
  | infinity => cases rightLarge with
    | infinity => exact .infinity
    | finite => exact .infinity
  | @finite mantissa exponent positive leading large => cases rightLarge with
    | infinity => exact .infinity
    | @finite other otherExponent otherPositive otherLeading otherLarge =>
        have low := ((Nat.log2_eq_iff (Nat.ne_of_gt positive)).mp leading).1
        have otherLow := ((Nat.log2_eq_iff (Nat.ne_of_gt otherPositive)).mp otherLeading).1
        have product : 2 ^ 52 * 2 ^ 52 ≤ mantissa * other := Nat.mul_le_mul low otherLow
        have digits : 104 ≤ (mantissa * other).log2 :=
          (Nat.le_log2 (Nat.ne_of_gt (Nat.mul_pos positive otherPositive))).mpr (by omega)
        exact .round (by omega) (by omega)

/-- The leading digit of a normal number is not stored. -/
theorem leadingDigit (fraction : BitVec 52) :
    (1#1 ++ fraction).toNat = 2 ^ 52 + fraction.toNat := by
  rw [BitVec.toNat_append, ← Nat.shiftLeft_add_eq_or_of_lt fraction.isLt]
  rfl

theorem biasedExponent (exponent : Int) :
    (exponent + Format.binary64.exponentBias +
      Format.binary64.mantissaBitsWithoutImplicit).toNat = (exponent + 1075).toNat := by
  simp only [Format.exponentBias]
  omega

/-- A normal number within the range is unpacked as it was packed. -/
theorem unpackPackNormal {mantissa : Nat} {exponent : Int} (positive : 0 < mantissa)
    (leading : mantissa.log2 = 52) (low : -1074 ≤ exponent) (high : exponent < 972) :
    (Float.Model.pack (.finite .positive mantissa exponent positive)).unpack =
      .finite .positive mantissa exponent positive := by
  obtain ⟨least, most⟩ := (Nat.log2_eq_iff (Nat.ne_of_gt positive)).mp leading
  have range : ¬2 ^ 11 ≤ (exponent + 1075).toNat + 1 := by omega
  have stored : (BitVec.ofNat 11 (exponent + 1075).toNat).toNat = (exponent + 1075).toNat := by
    rw [BitVec.toNat_ofNat]
    exact Nat.mod_eq_of_lt (by omega)
  have implicit : (1#1 ++ BitVec.ofNat 52 mantissa).toNat = mantissa := by
    rw [leadingDigit, BitVec.toNat_ofNat]
    omega
  have nonzero : BitVec.ofNat 11 (exponent + 1075).toNat ≠ 0#11 := fun zero => by
    have none := congrArg BitVec.toNat zero
    rw [stored] at none
    change _ = 0 at none
    omega
  have finite : BitVec.ofNat 11 (exponent + 1075).toNat ≠ -1#11 := fun ones => by
    have all := congrArg BitVec.toNat ones
    rw [stored] at all
    change _ = 2047 at all
    omega
  change UnpackedFloat.unpack .binary64 (UnpackedFloat.pack .binary64 _) = _
  rw [UnpackedFloat.pack, biasedExponent, if_neg range, if_pos (by rw [leading]; rfl)]
  simp only [UnpackedFloat.unpack, unpackMantissa_packComponents,
    unpackExponent_packComponents, unpackSign_packComponents, if_neg finite, if_neg nonzero,
    Sign.ofBitVec_toBitVec, UnpackedFloat.finite.injEq, Format.exponentBias]
  refine ⟨trivial, implicit, ?_⟩
  rw [stored]
  omega

/-- Packing keeps the lower bound, also where it overflows. -/
theorem AtLeast.unpackPack {power : Nat} {number : UnpackedFloat} (large : AtLeast power number) :
    AtLeast power (Float.Model.pack number).unpack := by
  have overflow : AtLeast power (Float.Model.pack (.infinity .positive)).unpack := .infinity
  cases large with
  | infinity => exact overflow
  | @finite mantissa exponent positive leading large =>
      rcases lt_or_ge exponent 972 with inside | outside
      · rw [unpackPackNormal positive leading (by omega) inside]
        exact .finite positive leading large
      · have range : 2 ^ 11 ≤ (exponent + 1075).toNat + 1 := by omega
        change AtLeast power (UnpackedFloat.unpack .binary64 (UnpackedFloat.pack .binary64 _))
        rw [UnpackedFloat.pack, biasedExponent, if_pos range]
        exact overflow

theorem clampedWord (number : Nat) :
    (UInt64.ofNatClamp number).toNat = min number (2 ^ 64 - 1) := by
  unfold UInt64.ofNatClamp
  split
  · rename_i inside
    change number < 2 ^ 64 at inside
    rw [UInt64.toNat_ofNatLT]
    omega
  · rename_i outside
    change ¬number < 2 ^ 64 at outside
    rw [UInt64.toNat_ofNatLT]
    change 2 ^ 64 - 1 = _
    omega

/-- Truncation to a word keeps the lower bound up to the largest word. -/
theorem AtLeast.toUInt64 {power : Nat} {number : UnpackedFloat} (large : AtLeast power number) :
    min (2 ^ power) (2 ^ 64 - 1) ≤ number.toUInt64.toNat := by
  cases large with
  | infinity => exact Nat.min_le_right _ _
  | @finite mantissa exponent positive leading large =>
      have low := ((Nat.log2_eq_iff (Nat.ne_of_gt positive)).mp leading).1
      have truncated : 2 ^ power ≤ (toInt 0 (UInt64.size - 1)
          (.finite .positive mantissa exponent positive)).toNat := by
        simp only [toInt, roundToInt, decreaseExponent, shiftToExponent, shiftedMantissa,
          Sign.apply, Int.toNat_natCast, Nat.shiftLeft_eq]
        rw [Nat.le_div_iff_mul_le (Nat.two_pow_pos _), ← Nat.pow_add]
        refine Nat.le_trans (Nat.pow_le_pow_right Nat.two_pos ?_)
          (Nat.pow_add .. ▸ Nat.mul_le_mul_right _ low)
        omega
      rw [UnpackedFloat.toUInt64, clampedWord]
      omega

theorem shiftedLeading {number : Nat} (positive : 0 < number) (count : Nat) :
    (number <<< count).log2 = number.log2 + count := by
  have nonzero := Nat.ne_of_gt positive
  obtain ⟨low, high⟩ := (Nat.log2_eq_iff nonzero).mp rfl
  rw [Nat.shiftLeft_eq]
  have product := Nat.mul_pos positive (Nat.two_pow_pos count)
  refine (Nat.log2_eq_iff (Nat.ne_of_gt product)).mpr ⟨?_, ?_⟩
  · rw [Nat.pow_add]
    exact Nat.mul_le_mul_right _ low
  · rw [Nat.add_right_comm, Nat.pow_add]
    exact Nat.mul_lt_mul_of_pos_right high (Nat.two_pow_pos count)

/-- A positive whole number keeps its leading digit. -/
theorem AtLeast.ofNat {number : Nat} (positive : 0 < number) :
    AtLeast number.log2 (UnpackedFloat.ofNat .binary64 number) := by
  have target : Format.binary64.targetExponent (totalExponent number 0) =
      (number.log2 : Int) - 52 := by
    simp only [Format.targetExponent, totalExponent, Format.mantissaBits, Format.minExponent]
    omega
  have order : compare (number : Int) 0 = .gt := by
    rw [compare_gt_iff_gt]
    omega
  rw [UnpackedFloat.ofNat, UnpackedFloat.ofInt, UnpackedFloat.normalize, order]
  simp only [UnpackedFloat.round, target, decreaseExponent, Int.toNat_natCast]
  have digits := shiftedLeading positive (0 - ((number.log2 : Int) - 52)).toNat
  exact .round (by omega) (by omega)

/-- A stored number with an exponent above the least one is normal. -/
theorem normalMantissa {number : Float.Model} {sign : Sign} {mantissa : Nat} {exponent : Int}
    {positive : 0 < mantissa} (stored : number.unpack = .finite sign mantissa exponent positive)
    (above : -1074 < exponent) : mantissa.log2 = 52 := by
  rw [Float.Model.unpack, UnpackedFloat.unpack] at stored
  dsimp only at stored
  split at stored
  · split at stored <;> contradiction
  · split at stored
    · rename_i least
      split at stored
      · contradiction
      · injection stored with _ _ same
        rw [least] at same
        simp only [Format.exponentBias] at same
        change (0 : Int) - (1023 + 52) + 1 = _ at same
        omega
    · injection stored with _ same
      have inside : (@unpackMantissa .binary64 number.toBits.toBitVec).toNat < 2 ^ 52 :=
        BitVec.isLt _
      rw [← same]
      refine (Nat.log2_eq_iff (by omega)).mpr ?_
      rw [leadingDigit]
      omega

theorem two : (2.0 : Float).toModel.unpack = .finite .positive (2 ^ 52) (-51) (by decide) := by
  rfl

/-- A number is at least two if it compares so. -/
theorem AtLeast.ofCompare {number : Float} (large : 2.0 ≤ number) :
    AtLeast 1 number.toModel.unpack := by
  have compared : UnpackedFloat.le (2.0 : Float).toModel.unpack number.toModel.unpack = true :=
    of_decide_eq_true large
  rw [two] at compared
  cases stored : number.toModel.unpack with
  | notANumber => rw [stored] at compared; contradiction
  | infinity sign =>
      cases sign with
      | positive => exact .infinity
      | negative => rw [stored] at compared; contradiction
  | zero sign => rw [stored] at compared; contradiction
  | finite sign mantissa exponent positive =>
      rw [stored] at compared
      cases sign with
      | negative => contradiction
      | positive =>
          have above : -51 ≤ exponent := by
            change Ordering.isLE ((compare (-51) exponent).then (compare (2 ^ 52) mantissa)) =
              true at compared
            by_contra below
            rw [compare_gt_iff_gt.mpr (Int.not_le.mp below)] at compared
            contradiction
          exact .finite positive (normalMantissa stored (by omega)) (by omega)

theorem AtLeast.times {first second : Nat} {left right : Float}
    (leftLarge : AtLeast first left.toModel.unpack)
    (rightLarge : AtLeast second right.toModel.unpack) :
    AtLeast (first + second) (left * right).toModel.unpack :=
  (leftLarge.mul rightLarge).unpackPack

theorem AtLeast.one : AtLeast 0 (1.0 : Float).toModel.unpack := by
  have unpacked : (1.0 : Float).toModel.unpack =
      .finite .positive (2 ^ 52) (-52) (by decide) := rfl
  rw [unpacked]
  exact .finite _ Nat.log2_two_pow (by decide)

/-- A large number is converted without words. -/
theorem AtLeast.ofWhole {number : Nat} (positive : 0 < number) :
    AtLeast number.log2 (Float.ofNat number).toModel.unpack := by
  change AtLeast number.log2 (Float.ofScientific number false 0).toModel.unpack
  rw [Float.ofScientific]
  split
  · rename_i small
    have word : number.toUInt64.toNat = number := by
      rw [Nat.toUInt64_eq, UInt64.toNat_ofNat']
      exact Nat.mod_eq_of_lt (by omega)
    have converted : AtLeast number.log2 number.toUInt64.toFloat.toModel.unpack := by
      change AtLeast _ (Float.Model.pack (UnpackedFloat.ofNat _ number.toUInt64.toNat)).unpack
      rw [word]
      exact (AtLeast.ofNat positive).unpackPack
    exact converted.times .one
  · change AtLeast number.log2 (Float.Model.pack (UnpackedFloat.ofScientific _ number 0)).unpack
    refine AtLeast.unpackPack ?_
    have nonzero := Nat.ne_of_gt positive
    have range : ¬(0 : Int) < -(2 ^ 11 + number.log2) := by omega
    rw [UnpackedFloat.ofScientific, dif_neg nonzero, if_neg (by decide), if_neg range,
      if_pos (Int.le_refl 0), UnpackedFloat.mul]
    have digits := shiftedLeading positive 53
    have product : (number <<< 53 * 10 ^ Int.toNat 0).log2 = number.log2 + 53 := by
      rw [Int.toNat_zero, Nat.pow_zero, Nat.mul_one, digits]
    change AtLeast _ (roundWithAccuracy .binary64 .positive (number <<< 53 * 10 ^ Int.toNat 0)
      (-53 + 0) .exact)
    exact .round (by omega) (by omega)

end ParitySat.Double
