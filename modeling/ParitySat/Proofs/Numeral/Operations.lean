/-
This file shows which operations on floating-point numbers without a sign keep their order.
-/

import ParitySat.Proofs.Numeral.Rank

namespace ParitySat.Double

open Float.Model Float.Model.UnpackedFloat

section Round

variable {mantissa : Nat} {exponent : Int}

/-- This function shifts the digit away that a carry has added. -/
def carry (kept : Nat) (place : Int) : UnpackedFloat :=
  let shifted := shiftToTargetExponent .binary64 kept place .exact
  if empty : shifted.1.mantissa = 0 then .zero .positive
  else .finite .positive shifted.1.mantissa shifted.2 (Nat.pos_of_ne_zero empty)

theorem roundCarries (fine : exponent ≤ lastPlace mantissa exponent) :
    roundWithAccuracy .binary64 .positive mantissa exponent .exact =
      carry (rounded mantissa (lastPlace mantissa exponent - exponent).toNat)
        (lastPlace mantissa exponent) := by
  have same : exponent + ((lastPlace mantissa exponent - exponent).toNat : Nat) =
      lastPlace mantissa exponent := by
    omega
  rw [roundWithAccuracy, shiftToTargetExponent, targetLastPlace, shiftToExponent, same]
  rfl

theorem carryShifted (kept : Nat) (place : Int) :
    shiftToTargetExponent .binary64 kept place .exact =
      (ExtendedMantissa.ofMantissaAndAccuracy kept .exact >>> (lastPlace kept place - place).toNat,
        place + ((lastPlace kept place - place).toNat : Nat)) := by
  rw [shiftToTargetExponent, targetLastPlace, shiftToExponent]

/-- A carry into the next power of two leaves the rank of the rounded number as it is. -/
theorem carryRank {kept : Nat} {place : Int} (low : -1074 ≤ place) (short : kept ≤ 2 ^ 53)
    (full : 2 ^ 52 ≤ kept ∨ place = -1074) :
    packedRank (carry kept place) =
      min greatestRank ((place + 1074).toNat * 2 ^ 52 + kept) := by
  have shifted := carryShifted kept place
  rcases Nat.lt_or_eq_of_le short with digits | carried
  · have none : (lastPlace kept place - place).toNat = 0 := by
      have leading : kept.log2 ≤ 52 := by
        rcases Nat.eq_zero_or_pos kept with rfl | positive
        · exact Nat.zero_le _
        · exact Nat.lt_succ_iff.1 ((Nat.log2_lt (Nat.ne_of_gt positive)).2 digits)
      unfold lastPlace
      omega
    rw [none] at shifted
    rw [carry]
    simp only [shifted, shiftedMantissa, Nat.pow_zero, Nat.div_one, Int.natCast_zero, Int.add_zero]
    split
    · next empty =>
        rw [packedZeroRank]
        omega
    · next filled => exact packedFiniteRank (Nat.pos_of_ne_zero filled) ⟨low, digits, full⟩
  · have one : (lastPlace kept place - place).toNat = 1 := by
      unfold lastPlace
      rw [carried, Nat.log2_two_pow]
      omega
    rw [one, carried] at shifted
    rw [carried, carry]
    simp only [shifted, shiftedMantissa]
    have half : 2 ^ 53 / 2 ^ 1 = 2 ^ 52 := rfl
    simp only [half]
    rw [dif_neg (by decide), packedFiniteRank _ ⟨by omega, by decide, .inl (Nat.le_refl _)⟩]
    omega

theorem packedRoundExact (positive : 0 < mantissa)
    (fine : exponent ≤ lastPlace mantissa exponent) :
    packedRank (roundWithAccuracy .binary64 .positive mantissa exponent .exact) =
      min greatestRank (roundedRank mantissa exponent) := by
  have none : (exponent - lastPlace mantissa exponent).toNat = 0 := by omega
  have low : -1074 ≤ lastPlace mantissa exponent := Int.le_max_right _ _
  have short := roundedShort mantissa exponent
  have long := @roundedLong mantissa exponent positive
  unfold roundedRank
  rw [none, Nat.pow_zero, Nat.mul_one] at short long ⊢
  rw [roundCarries fine]
  exact carryRank low short (by omega)

theorem packedRound (positive : 0 < mantissa) (exponent : Int) :
    packedRank (UnpackedFloat.round .binary64 .positive mantissa exponent) =
      min greatestRank (roundedRank mantissa exponent) := by
  rw [UnpackedFloat.round, targetLastPlace, decreaseExponent]
  dsimp only
  rw [Nat.shiftLeft_eq, packedRoundExact (Nat.mul_pos positive (Nat.two_pow_pos _)),
    roundedRankScaled positive]
  rw [lastPlaceScaled positive]
  omega

/-- A number that fits the format is rounded to itself. -/
theorem roundedRankCanonical (positive : 0 < mantissa) (canonical : Canonical mantissa exponent) :
    roundedRank mantissa exponent = (exponent + 1074).toNat * 2 ^ 52 + mantissa := by
  obtain ⟨low, short, full⟩ := canonical
  have most := (Nat.log2_lt (Nat.ne_of_gt positive)).2 short
  have least : 2 ^ 52 ≤ mantissa ↔ 52 ≤ mantissa.log2 :=
    (Nat.le_log2 (Nat.ne_of_gt positive)).symm
  have same : lastPlace mantissa exponent = exponent := by
    unfold lastPlace
    omega
  unfold roundedRank
  rw [same, Int.sub_self]
  simp

end Round

section Signless

/-- The parts of a number that is not negative. -/
inductive Signless : UnpackedFloat → Prop where
  | zero : Signless (.zero .positive)
  | finite {mantissa : Nat} (exponent : Int) (positive : 0 < mantissa) :
      Signless (.finite .positive mantissa exponent positive)
  | infinity : Signless (.infinity .positive)

theorem Ranked.signless {place : Nat} {number : UnpackedFloat} (ranked : Ranked place number) :
    Signless number := by
  cases ranked with
  | zero => exact .zero
  | finite => exact .finite _ _
  | infinity => exact .infinity

theorem Signless.packed {number : UnpackedFloat} (signless : Signless number) :
    packedRank number ≤ greatestRank := by
  cases signless with
  | zero => exact packedZeroRank ▸ Nat.zero_le _
  | infinity => exact Nat.le_of_eq packedInfinityRank
  | finite exponent positive =>
      change (UnpackedFloat.pack .binary64 _).toNat ≤ _
      rw [UnpackedFloat.pack, biasedExponent]
      split
      · exact Nat.le_of_eq packedInfinityRank
      · next small =>
          change ¬2 ^ 11 ≤ _ at small
          have short (mantissa : BitVec 52) : mantissa.toNat < 2 ^ 52 := mantissa.isLt
          unfold greatestRank
          split
          · rw [componentsRank, BitVec.toNat_ofNat, BitVec.toNat_ofNat]
            omega
          · rw [componentsRank, BitVec.toNat_ofNat, BitVec.toNat_ofNat]
            omega

theorem Signless.rounded (mantissa : Nat) (exponent : Int) (accuracy : Accuracy) :
    Signless (roundWithAccuracy .binary64 .positive mantissa exponent accuracy) := by
  rw [roundWithAccuracy]
  dsimp only
  split
  · exact .zero
  · exact .finite _ _

theorem Signless.div {number : UnpackedFloat} (signless : Signless number) {mantissa : Nat}
    (exponent : Int) (positive : 0 < mantissa) :
    Signless (UnpackedFloat.div .binary64 number
      (.finite .positive mantissa exponent positive)) := by
  cases signless with
  | zero => exact .zero
  | infinity => exact .infinity
  | finite => exact .rounded _ _ _

/-- A number is positive and finite if it compares so. -/
theorem positiveFinite {number : Float} (positive : 0.0 < number) (small : number ≤ 1.0) :
    ∃ mantissa exponent nonzero,
      number.toModel.unpack = .finite .positive mantissa exponent nonzero := by
  have above : UnpackedFloat.lt (0.0 : Float).toModel.unpack number.toModel.unpack = true :=
    of_decide_eq_true positive
  have below : UnpackedFloat.le number.toModel.unpack (1.0 : Float).toModel.unpack = true :=
    of_decide_eq_true small
  have zero : (0.0 : Float).toModel.unpack = .zero .positive := rfl
  have one : (1.0 : Float).toModel.unpack = .finite .positive (2 ^ 52) (-52) (by decide) := rfl
  rw [zero] at above
  rw [one] at below
  cases stored : number.toModel.unpack with
  | notANumber => rw [stored] at above; contradiction
  | zero sign => rw [stored] at above; contradiction
  | infinity sign => cases sign with
    | positive => rw [stored] at below; contradiction
    | negative => rw [stored] at above; contradiction
  | finite sign mantissa exponent nonzero => cases sign with
    | positive => exact ⟨_, _, _, rfl⟩
    | negative => rw [stored] at above; contradiction

theorem unsignedDiv {number divisor : Float} (unsigned : Unsigned number)
    (positive : 0.0 < divisor) (small : divisor ≤ 1.0) : Unsigned (number / divisor) := by
  obtain ⟨mantissa, exponent, nonzero, stored⟩ := positiveFinite positive small
  change packedRank (UnpackedFloat.div .binary64 number.toModel.unpack divisor.toModel.unpack) ≤ _
  rw [stored]
  exact ((unpackRanked unsigned).signless.div exponent nonzero).packed

end Signless

section Sum

theorem normalizePositive {mantissa : Nat} (positive : 0 < mantissa) (exponent : Int) :
    UnpackedFloat.normalize .binary64 mantissa exponent .positive =
      UnpackedFloat.round .binary64 .positive mantissa exponent := by
  have order : compare (mantissa : Int) 0 = .gt := compare_gt_iff_gt.2 (Int.natCast_pos.2 positive)
  rw [UnpackedFloat.normalize, order]
  rfl

/-- The first mantissa is part of the sum once both numbers have the smaller exponent. -/
theorem addFinite {first second : Nat} {exponent other : Int} (positive : 0 < first)
    (otherPositive : 0 < second) :
    ∃ count total, first * 2 ^ count ≤ total ∧
      UnpackedFloat.add .binary64 (.finite .positive first exponent positive)
        (.finite .positive second other otherPositive) =
        UnpackedFloat.round .binary64 .positive total (exponent - (count : Nat)) := by
  have unfolded : UnpackedFloat.add .binary64 (.finite .positive first exponent positive)
      (.finite .positive second other otherPositive) =
      UnpackedFloat.normalize .binary64
        ((first <<< (exponent - min exponent other).toNat +
          second <<< (other - min exponent other).toNat : Nat) : Int)
        (min exponent other) .positive := rfl
  rw [Nat.shiftLeft_eq, Nat.shiftLeft_eq] at unfolded
  have part := Nat.le_add_right (first * 2 ^ (exponent - min exponent other).toNat)
    (second * 2 ^ (other - min exponent other).toNat)
  have lower : min exponent other = exponent - ((exponent - min exponent other).toNat : Nat) := by
    omega
  rw [normalizePositive (Nat.lt_of_lt_of_le (Nat.mul_pos positive (Nat.two_pow_pos _)) part)]
    at unfolded
  exact ⟨_, _, part, lower ▸ unfolded⟩

/-- The sum is not less than the first number. -/
theorem Ranked.sum {first second : Nat} {left right : UnpackedFloat}
    (ranked : Ranked first left) (otherRanked : Ranked second right) :
    Signless (UnpackedFloat.add .binary64 left right) ∧
      first ≤ packedRank (UnpackedFloat.add .binary64 left right) := by
  have unsigned := ranked.unsigned
  cases otherRanked with
  | zero => cases ranked with
    | zero => exact ⟨.zero, Nat.zero_le _⟩
    | finite positive canonical high =>
        exact ⟨.finite _ _, Nat.le_of_eq (Ranked.finite positive canonical high).packed.symm⟩
    | infinity => exact ⟨.infinity, Nat.le_of_eq packedInfinityRank.symm⟩
  | infinity => cases ranked with
    | zero => exact ⟨.infinity, Nat.zero_le _⟩
    | finite positive canonical high => exact ⟨.infinity, packedInfinityRank ▸ unsigned⟩
    | infinity => exact ⟨.infinity, Nat.le_of_eq packedInfinityRank.symm⟩
  | finite otherPositive otherCanonical otherHigh => cases ranked with
    | zero => exact ⟨.finite _ _, Nat.zero_le _⟩
    | infinity => exact ⟨.infinity, Nat.le_of_eq packedInfinityRank.symm⟩
    | @finite mantissa exponent positive canonical high =>
        obtain ⟨count, total, part, same⟩ := addFinite positive otherPositive
        have scaled : 0 < mantissa * 2 ^ count := Nat.mul_pos positive (Nat.two_pow_pos count)
        have greater := roundedRankMonotone scaled part (exponent - (count : Nat))
        rw [roundedRankScaled positive, roundedRankCanonical positive canonical] at greater
        rw [same]
        refine ⟨.rounded _ _ _, ?_⟩
        rw [packedRound (Nat.lt_of_lt_of_le scaled part)]
        omega

theorem unsignedSum {first second : Float} (unsigned : Unsigned first)
    (otherUnsigned : Unsigned second) : Unsigned (first + second) :=
  ((unpackRanked unsigned).sum (unpackRanked otherUnsigned)).1.packed

theorem sumAtLeast {first second : Float} (unsigned : Unsigned first)
    (otherUnsigned : Unsigned second) : rank first ≤ rank (first + second) :=
  ((unpackRanked unsigned).sum (unpackRanked otherUnsigned)).2

end Sum

section Product

variable {factor : Nat} {factorExponent : Int} {factorPositive : 0 < factor}

/-- A long factor leaves no need to lengthen the product before it is rounded. -/
theorem packedProduct {mantissa : Nat} {exponent : Int} (positive : 0 < mantissa)
    (long : 2 ^ 52 ≤ factor) :
    packedRank (UnpackedFloat.mul .binary64 (.finite .positive mantissa exponent positive)
      (.finite .positive factor factorExponent factorPositive)) =
        min greatestRank (roundedRank (mantissa * factor) (exponent + factorExponent)) := by
  have product : 0 < mantissa * factor := Nat.mul_pos positive factorPositive
  have digits : 52 ≤ (mantissa * factor).log2 :=
    (Nat.le_log2 (Nat.ne_of_gt product)).2 (Nat.le_trans long (Nat.le_mul_of_pos_left _ positive))
  refine packedRoundExact product ?_
  unfold lastPlace
  omega

/-- The lower one of two numbers is not greater once both have its exponent. -/
theorem commonExponent {first second : Nat} {exponent other : Int} (positive : 0 < first)
    (canonical : Canonical first exponent) (otherCanonical : Canonical second other)
    (less : (exponent + 1074).toNat * 2 ^ 52 + first ≤ (other + 1074).toNat * 2 ^ 52 + second) :
    ∃ count : Nat, exponent = other - count ∧ first ≤ second * 2 ^ count := by
  obtain ⟨low, short, full⟩ := canonical
  obtain ⟨otherLow, otherShort, otherFull⟩ := otherCanonical
  have exponents : exponent ≤ other := by omega
  obtain ⟨count, same⟩ := Int.le.dest exponents
  refine ⟨count, by omega, ?_⟩
  rcases Nat.eq_zero_or_pos count with rfl | more
  · rw [Nat.pow_zero, Nat.mul_one]
    omega
  · calc first ≤ 2 ^ 52 * 2 := Nat.le_of_lt short
      _ ≤ second * 2 ^ count :=
        Nat.mul_le_mul (by omega) (Nat.le_self_pow (Nat.ne_of_gt more) 2)

theorem productMonotone {first second : Nat} {exponent other : Int} (positive : 0 < first)
    (canonical : Canonical first exponent) (otherCanonical : Canonical second other)
    (less : (exponent + 1074).toNat * 2 ^ 52 + first ≤ (other + 1074).toNat * 2 ^ 52 + second)
    (long : 2 ^ 52 ≤ factor) (shift : Int) :
    roundedRank (first * factor) (exponent + shift) ≤
      roundedRank (second * factor) (other + shift) := by
  obtain ⟨count, rfl, below⟩ := commonExponent positive canonical otherCanonical less
  have factorPositive : 0 < factor := Nat.lt_of_lt_of_le (Nat.two_pow_pos 52) long
  have otherPositive : 0 < second :=
    Nat.pos_of_mul_pos_right (Nat.lt_of_lt_of_le positive below)
  rw [← roundedRankScaled (Nat.mul_pos otherPositive factorPositive) (other + shift) count,
    Nat.mul_right_comm, show other - count + shift = other + shift - count by omega]
  exact roundedRankMonotone (Nat.mul_pos positive factorPositive)
    (Nat.mul_le_mul_right factor below) _

/-- Multiplication by a positive number does not reverse an order. -/
theorem Ranked.product {first second : Nat} {left right : UnpackedFloat}
    (ranked : Ranked first left) (otherRanked : Ranked second right) (long : 2 ^ 52 ≤ factor)
    (less : first ≤ second) :
    packedRank (UnpackedFloat.mul .binary64 left
      (.finite .positive factor factorExponent factorPositive)) ≤
        packedRank (UnpackedFloat.mul .binary64 right
          (.finite .positive factor factorExponent factorPositive)) := by
  cases ranked with
  | zero => exact packedZeroRank ▸ Nat.zero_le _
  | infinity => cases otherRanked with
    | zero =>
        unfold greatestRank at less
        omega
    | infinity => exact Nat.le_refl _
    | finite otherPositive otherCanonical otherHigh =>
        have short := otherCanonical.short
        unfold greatestRank at less
        omega
  | finite positive canonical high => cases otherRanked with
    | zero => omega
    | infinity =>
        rw [packedProduct positive long]
        exact Nat.le_trans (Nat.min_le_left _ _) (Nat.le_of_eq packedInfinityRank.symm)
    | finite otherPositive otherCanonical otherHigh =>
        have greater :=
          productMonotone positive canonical otherCanonical less long factorExponent
        rw [packedProduct positive long, packedProduct otherPositive long]
        exact min_le_min_left _ greater

theorem Signless.product {number : UnpackedFloat} (signless : Signless number) :
    Signless (UnpackedFloat.mul .binary64 number
      (.finite .positive factor factorExponent factorPositive)) := by
  cases signless with
  | zero => exact .zero
  | infinity => exact .infinity
  | finite => exact .rounded _ _ _

variable {first second number : Float}

theorem unsignedProduct
    (stored : number.toModel.unpack = .finite .positive factor factorExponent factorPositive)
    (unsigned : Unsigned first) : Unsigned (first * number) := by
  change packedRank (UnpackedFloat.mul .binary64 first.toModel.unpack number.toModel.unpack) ≤ _
  rw [stored]
  exact (unpackRanked unsigned).signless.product.packed

theorem productAtMost
    (stored : number.toModel.unpack = .finite .positive factor factorExponent factorPositive)
    (long : 2 ^ 52 ≤ factor) (unsigned : Unsigned first) (otherUnsigned : Unsigned second)
    (less : rank first ≤ rank second) : rank (first * number) ≤ rank (second * number) := by
  change packedRank (UnpackedFloat.mul .binary64 first.toModel.unpack number.toModel.unpack) ≤
    packedRank (UnpackedFloat.mul .binary64 second.toModel.unpack number.toModel.unpack)
  rw [stored]
  exact (unpackRanked unsigned).product (unpackRanked otherUnsigned) long less

end Product

end ParitySat.Double
