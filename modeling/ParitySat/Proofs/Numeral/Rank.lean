/-
This file orders the floating-point numbers without a sign by their bits.
-/

import ParitySat.Proofs.Numeral.Rounding

namespace ParitySat.Double

open Float.Model Float.Model.UnpackedFloat

/-- This is the rank of infinity. -/
def greatestRank : Nat := 2047 * 2 ^ 52

/-- The bits of a number tell its place among the numbers without a sign. -/
def rank (number : Float) : Nat :=
  number.toModel.toBits.toNat

/-- This function is the rank of a number once it is packed. -/
def packedRank (number : UnpackedFloat) : Nat :=
  (Float.Model.pack number).toBits.toNat

/-- The number is zero, positive or infinite. -/
def Unsigned (number : Float) : Prop :=
  rank number ≤ greatestRank

/-- A mantissa has 53 digits, or fewer at the least exponent. -/
structure Canonical (mantissa : Nat) (exponent : Int) : Prop where
  low : -1074 ≤ exponent
  short : mantissa < 2 ^ 53
  full : 2 ^ 52 ≤ mantissa ∨ exponent = -1074

/-- The parts of a number without a sign, by its rank. -/
inductive Ranked : Nat → UnpackedFloat → Prop where
  | zero : Ranked 0 (.zero .positive)
  | finite {mantissa : Nat} {exponent : Int} (positive : 0 < mantissa)
      (canonical : Canonical mantissa exponent) (high : exponent ≤ 971) :
      Ranked ((exponent + 1074).toNat * 2 ^ 52 + mantissa)
        (.finite .positive mantissa exponent positive)
  | infinity : Ranked greatestRank (.infinity .positive)

theorem Ranked.ofParts {place mantissa : Nat} {exponent : Int} {positive : 0 < mantissa}
    (canonical : Canonical mantissa exponent) (high : exponent ≤ 971)
    (same : place = (exponent + 1074).toNat * 2 ^ 52 + mantissa) :
    Ranked place (.finite .positive mantissa exponent positive) :=
  same ▸ .finite positive canonical high

theorem Ranked.unsigned {place : Nat} {number : UnpackedFloat} (ranked : Ranked place number) :
    place ≤ greatestRank := by
  cases ranked with
  | zero => exact Nat.zero_le _
  | finite positive canonical high =>
      have short := canonical.short
      unfold greatestRank
      omega
  | infinity => exact Nat.le_refl _

section Pack

theorem componentsRank (exponent : BitVec 11) (mantissa : BitVec 52) :
    (packComponents .binary64 .positive exponent mantissa).toNat =
      exponent.toNat * 2 ^ 52 + mantissa.toNat := by
  change ((0#1 ++ exponent) ++ mantissa).toNat = _
  rw [BitVec.toNat_append, BitVec.toNat_append, ← Nat.shiftLeft_add_eq_or_of_lt mantissa.isLt,
    Nat.shiftLeft_eq]
  simp

theorem packedInfinityRank : packedRank (.infinity .positive) = greatestRank := by
  change (packComponents .binary64 .positive (-1#11) 0#52).toNat = _
  rw [componentsRank]
  rfl

theorem packedZeroRank : packedRank (.zero .positive) = 0 := by
  change (packComponents .binary64 .positive 0#11 0#52).toNat = _
  rw [componentsRank]
  rfl

/-- A number that is too large becomes infinite. -/
theorem packedFiniteRank {mantissa : Nat} {exponent : Int} (positive : 0 < mantissa)
    (canonical : Canonical mantissa exponent) :
    packedRank (.finite .positive mantissa exponent positive) =
      min greatestRank ((exponent + 1074).toNat * 2 ^ 52 + mantissa) := by
  obtain ⟨low, short, full⟩ := canonical
  have digits : mantissa.log2 + 1 = Format.binary64.mantissaBits ↔ 2 ^ 52 ≤ mantissa := by
    change mantissa.log2 + 1 = 53 ↔ _
    rw [← Nat.le_log2 (Nat.ne_of_gt positive)]
    have below := (Nat.log2_lt (Nat.ne_of_gt positive)).2 short
    omega
  change (UnpackedFloat.pack .binary64 _).toNat = _
  rw [UnpackedFloat.pack, biasedExponent]
  split
  · next large =>
      change (packComponents .binary64 .positive (-1#11) 0#52).toNat = _
      rw [componentsRank]
      change 2047 * 2 ^ 52 = min (2047 * 2 ^ 52) _
      change 2 ^ 11 ≤ _ at large
      omega
  · next small =>
      change ¬2 ^ 11 ≤ _ at small
      split
      · next normal =>
          rw [digits] at normal
          rw [componentsRank, BitVec.toNat_ofNat, BitVec.toNat_ofNat]
          unfold greatestRank
          omega
      · next subnormal =>
          rw [digits] at subnormal
          rw [componentsRank, BitVec.toNat_ofNat, BitVec.toNat_ofNat]
          unfold greatestRank
          omega

theorem Ranked.packed {place : Nat} {number : UnpackedFloat} (ranked : Ranked place number) :
    packedRank number = place := by
  have unsigned := ranked.unsigned
  cases ranked with
  | zero => exact packedZeroRank
  | infinity => exact packedInfinityRank
  | finite positive canonical high =>
      rw [packedFiniteRank positive canonical]
      omega

end Pack

section Unpack

theorem mantissaBits (bits : BitVec 64) :
    (@unpackMantissa .binary64 bits).toNat = bits.toNat % 2 ^ 52 := by
  simp [unpackMantissa]

theorem exponentBits (bits : BitVec 64) :
    (@unpackExponent .binary64 bits).toNat = bits.toNat / 2 ^ 52 % 2 ^ 11 := by
  simp [unpackExponent, Nat.shiftRight_eq_div_pow]

theorem signBits (bits : BitVec 64) :
    (@unpackSign .binary64 bits).toNat = bits.toNat / 2 ^ 63 % 2 := by
  simp [unpackSign, Nat.shiftRight_eq_div_pow]

theorem unpackBitsRanked {bits : BitVec 64} (unsigned : bits.toNat ≤ 2047 * 2 ^ 52) :
    Ranked bits.toNat (UnpackedFloat.unpack .binary64 bits) := by
  have mantissa := mantissaBits bits
  have exponent := exponentBits bits
  have sign := signBits bits
  have positive : Sign.ofBitVec (@unpackSign .binary64 bits) = .positive := by
    refine if_pos (BitVec.eq_of_toNat_eq ?_)
    change _ = 0
    omega
  have bias : (Format.binary64.exponentBias : Int) +
      (Format.binary64.mantissaBitsWithoutImplicit : Nat) = 1075 := rfl
  rw [UnpackedFloat.unpack, bias]
  dsimp only
  rw [positive]
  split
  · next ones =>
      have all : _ = 2047 := congrArg BitVec.toNat ones
      have none : @unpackMantissa .binary64 bits = 0#52 := by
        refine BitVec.eq_of_toNat_eq ?_
        change _ = 0
        omega
      have place : bits.toNat = greatestRank := by
        change _ = 2047 * 2 ^ 52
        omega
      rw [if_pos none, place]
      exact .infinity
  · next finite =>
      have below : bits.toNat / 2 ^ 52 ≠ 2047 := by
        refine fun all => finite (BitVec.eq_of_toNat_eq ?_)
        change _ = 2047
        omega
      split
      · next zeros =>
          have none : _ = 0 := congrArg BitVec.toNat zeros
          split
          · next empty =>
              have nothing : _ = 0 := congrArg BitVec.toNat empty
              have place : bits.toNat = 0 := by omega
              rw [place]
              exact .zero
          · next filled =>
              rw [none]
              exact .ofParts ⟨by omega, by omega, .inr (by omega)⟩ (by omega) (by omega)
      · next normal =>
          have some : bits.toNat / 2 ^ 52 ≠ 0 := by
            refine fun none => normal (BitVec.eq_of_toNat_eq ?_)
            change _ = 0
            omega
          have leading := leadingDigit (@unpackMantissa .binary64 bits)
          have short : (@unpackMantissa .binary64 bits).toNat < 2 ^ 52 := BitVec.isLt _
          exact .ofParts ⟨by omega, by omega, .inl (by omega)⟩ (by omega) (by omega)

/-- The parts of a number without a sign are those of its rank. -/
theorem unpackRanked {number : Float} (unsigned : Unsigned number) :
    Ranked (rank number) number.toModel.unpack :=
  unpackBitsRanked unsigned

end Unpack

section Compare

/-- A greater exponent outweighs every mantissa. -/
theorem finiteCompared {first second : Nat} {exponent other : Int}
    (canonical : Canonical first exponent) (otherCanonical : Canonical second other) :
    (compare exponent other).then (compare first second) =
      compare ((exponent + 1074).toNat * 2 ^ 52 + first)
        ((other + 1074).toNat * 2 ^ 52 + second) := by
  obtain ⟨low, short, full⟩ := canonical
  obtain ⟨otherLow, otherShort, otherFull⟩ := otherCanonical
  rcases Int.lt_trichotomy exponent other with less | same | greater
  · rw [compare_lt_iff_lt.2 less]
    refine (compare_lt_iff_lt.2 ?_).symm
    omega
  · subst same
    rw [compare_eq_iff_eq.2 rfl, Ordering.eq_then]
    rcases Nat.lt_trichotomy first second with less | same | greater
    · rw [compare_lt_iff_lt.2 less, compare_lt_iff_lt.2 (Nat.add_lt_add_left less _)]
    · rw [same, compare_eq_iff_eq.2 rfl, compare_eq_iff_eq.2 rfl]
    · rw [compare_gt_iff_gt.2 greater, compare_gt_iff_gt.2 (Nat.add_lt_add_left greater _)]
  · rw [compare_gt_iff_gt.2 greater]
    refine (compare_gt_iff_gt.2 ?_).symm
    omega

theorem Ranked.compared {first second : Nat} {left right : UnpackedFloat}
    (ranked : Ranked first left) (otherRanked : Ranked second right) :
    UnpackedFloat.compare left right = some (compare first second) := by
  have above := ranked.unsigned
  have otherAbove := otherRanked.unsigned
  cases ranked with
  | zero => cases otherRanked with
    | zero => rfl
    | finite otherPositive otherCanonical otherHigh =>
        exact congrArg some (compare_lt_iff_lt.2 (by omega)).symm
    | infinity => rfl
  | finite positive canonical high => cases otherRanked with
    | zero => exact congrArg some (compare_gt_iff_gt.2 (by omega)).symm
    | finite otherPositive otherCanonical otherHigh =>
        exact congrArg some (finiteCompared canonical otherCanonical)
    | infinity =>
        have short := canonical.short
        refine congrArg some (compare_lt_iff_lt.2 ?_).symm
        unfold greatestRank
        omega
  | infinity => cases otherRanked with
    | zero => rfl
    | finite otherPositive otherCanonical otherHigh =>
        have short := otherCanonical.short
        refine congrArg some (compare_gt_iff_gt.2 ?_).symm
        unfold greatestRank
        omega
    | infinity => rfl

variable {first second : Float} (unsigned : Unsigned first) (otherUnsigned : Unsigned second)
include unsigned otherUnsigned

theorem lessIff : first < second ↔ rank first < rank second := by
  have meaning : first < second ↔
      UnpackedFloat.lt first.toModel.unpack second.toModel.unpack = true :=
    decide_eq_true_iff
  rw [meaning, UnpackedFloat.lt, (unpackRanked unsigned).compared (unpackRanked otherUnsigned)]
  simp [compare_lt_iff_lt]

theorem sameIff : (first == second) = true ↔ rank first = rank second := by
  change UnpackedFloat.beq first.toModel.unpack second.toModel.unpack = true ↔ _
  rw [UnpackedFloat.beq, (unpackRanked unsigned).compared (unpackRanked otherUnsigned)]
  simp

theorem atMostIff : first ≤ second ↔ rank first ≤ rank second := by
  have meaning : first ≤ second ↔
      UnpackedFloat.le first.toModel.unpack second.toModel.unpack = true :=
    decide_eq_true_iff
  rw [meaning, UnpackedFloat.le, (unpackRanked unsigned).compared (unpackRanked otherUnsigned)]
  simp [Nat.isLE_compare]

end Compare

end ParitySat.Double
