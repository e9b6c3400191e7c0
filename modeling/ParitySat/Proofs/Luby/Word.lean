/-
This file shows that the Luby exponent of a word is found without overflow.
-/

import ParitySat.Luby.Word
import ParitySat.Proofs.Luby

namespace ParitySat.Luby

/-- The block grows until it is the first one that holds the target number of entries. -/
theorem growWordReaches (fuel : Nat) {order goal : Nat} {size target : UInt32}
    (sized : size.toNat = blockSize order) (reached : target.toNat ≤ blockSize goal)
    (first : ∀ lower, lower < goal → blockSize lower < target.toNat) (start : order ≤ goal)
    (enough : goal < order + fuel) (fits : goal < 32) :
    ∃ final, growWord fuel size order target = some (final, goal) ∧
      final.toNat = blockSize goal := by
  induction fuel generalizing order size with
  | zero => omega
  | succ fuel inductionHypothesis =>
      rw [growWord]
      by_cases small : size < target
      · have below : order < goal := by
          refine Nat.lt_of_le_of_ne start ?_
          rintro rfl
          rw [UInt32.lt_iff_toNat_lt] at small
          omega
        have room : size.toNat < 2 ^ 31 := by
          have power := blockSizeSucc order
          have bounded : 2 ^ (order + 1) ≤ 2 ^ 31 := Nat.pow_le_pow_right Nat.two_pos (by omega)
          omega
        have half : size < 0x80000000 := UInt32.lt_iff_toNat_lt.2 room
        have next : (2 * size + 1).toNat = blockSize (order + 1) := by
          rw [UInt32.toNat_add, UInt32.toNat_mul, blockSize, ← sized]
          change (2 * size.toNat % 2 ^ 32 + 1) % 2 ^ 32 = 2 * size.toNat + 1
          omega
        rw [if_pos small, if_pos half]
        exact inductionHypothesis next below (by omega)
      · rw [if_neg small]
        have equal : order = goal := by
          refine Nat.le_antisymm start (Nat.le_of_not_lt fun below => small ?_)
          rw [UInt32.lt_iff_toNat_lt, sized]
          exact first order below
        subst equal
        exact ⟨size, rfl, sized⟩

theorem blockPositive (order : Nat) : 0 < blockSize order := by
  cases order <;> exact Nat.succ_pos _

theorem lastOfBlock {order : Nat} {size : UInt32} (sized : size.toNat = blockSize order) :
    (size - 1).toNat = blockSize order - 1 := by
  have positive : (1 : UInt32) ≤ size := by
    rw [UInt32.le_iff_toNat_le, sized]
    exact blockPositive order
  rw [UInt32.toNat_sub_of_le _ _ positive, sized]
  rfl

theorem halfOfBlock {order : Nat} {size : UInt32} (sized : size.toNat = blockSize (order + 1)) :
    ((size - 1) >>> 1).toNat = blockSize order := by
  rw [UInt32.toNat_shiftRight, lastOfBlock sized, blockSize]
  change (2 * blockSize order + 1 - 1) >>> 1 = blockSize order
  rw [Nat.shiftRight_one]
  omega

/-- The descent goes through the blocks of lower orders, none of which is empty. -/
theorem descendWordFinds (fuel : Nat) {order : Nat} {size position : UInt32}
    (sized : size.toNat = blockSize order) (inside : position.toNat < blockSize order)
    (enough : order < fuel) :
    descendWord fuel size order position = some (exponentWithin order position.toNat) := by
  induction fuel generalizing order size position with
  | zero => omega
  | succ fuel inductionHypothesis =>
      have filled : size ≠ 0 := by
        rintro rfl
        rw [← sized] at inside
        exact Nat.not_lt_zero _ inside
      have last := lastOfBlock sized
      rw [descendWord, if_neg filled]
      by_cases ends : size - 1 = position
      · rw [if_pos ends]
        have final : position.toNat + 1 = blockSize order := by
          rw [← ends, last]
          omega
        cases order with
        | zero => rfl
        | succ order => rw [exponentWithin, if_pos final]
      · rw [if_neg ends]
        have early : position.toNat + 1 ≠ blockSize order := by
          intro final
          exact ends (UInt32.toNat_inj.1 (by omega))
        cases order with
        | zero =>
            rw [blockSize] at inside early
            omega
        | succ order =>
            have half := halfOfBlock sized
            have proper : ¬((size - 1) >>> 1 = 0 ∨ order + 1 = 0) := by
              rintro (empty | none)
              · rw [empty] at half
                exact absurd half (Nat.ne_of_lt (blockPositive order))
              · contradiction
            have remainder : (position % ((size - 1) >>> 1)).toNat =
                position.toNat % blockSize order := by
              rw [UInt32.toNat_mod, half]
            simp only [if_neg proper]
            rw [Nat.add_sub_cancel, inductionHypothesis half
              (by rw [remainder]; exact Nat.mod_lt _ (blockPositive order)) (by omega), remainder,
              exponentWithin, if_neg early]

/-- The exponent of a word is the exponent of its number, and only the greatest word has none. -/
theorem wordExponentFinds {position : Nat} (small : position < 0xFFFFFFFF) :
    wordExponent? (UInt32.ofNat position) = some (exponent position) := by
  have number : (UInt32.ofNat position).toNat = position := by
    rw [UInt32.toNat_ofNat']
    exact Nat.mod_eq_of_lt (by omega)
  have ordinary : UInt32.ofNat position ≠ 0xFFFFFFFF := by
    intro greatest
    rw [greatest] at number
    change 0xFFFFFFFF = position at number
    omega
  have next : (UInt32.ofNat position + 1).toNat = position + 1 := by
    rw [UInt32.toNat_add, number]
    change (position + 1) % 2 ^ 32 = position + 1
    omega
  have below : 2 ^ (position + 1).log2 ≤ position + 1 :=
    Nat.log2_self_le (Nat.succ_ne_zero position)
  have above : position + 1 < 2 ^ ((position + 1).log2 + 1) := Nat.lt_log2_self
  have goal := blockSizeSucc (position + 1).log2
  have fits : (position + 1).log2 < 32 :=
    (Nat.log2_lt (Nat.succ_ne_zero position)).2 (by omega)
  have first (lower : Nat) (less : lower < (position + 1).log2) :
      blockSize lower < position + 1 := by
    have size := blockSizeSucc lower
    have bounded : 2 ^ (lower + 1) ≤ 2 ^ (position + 1).log2 :=
      Nat.pow_le_pow_right Nat.two_pos less
    omega
  obtain ⟨final, grown, sized⟩ := @growWordReaches 33 0 (position + 1).log2 1
    (UInt32.ofNat position + 1) rfl (by omega) (by rwa [next]) (Nat.zero_le _) (by omega) fits
  rw [wordExponent?, if_neg ordinary, grown, Option.bind_some,
    descendWordFinds 33 sized (by rw [number]; omega) (by omega), number, exponent]

end ParitySat.Luby
