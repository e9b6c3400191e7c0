/-
This file shows that the entries of the Luby sequence obey its recurrence.
-/

import ParitySat.Proofs.Luby.Word

namespace ParitySat.Luby

/-- Entries are counted from one.  The last entry of a block has the greatest exponent, and the
entries between the last two blocks repeat the sequence from its first entry on. -/
structure Recurrence (exponentAt : Nat → Nat) : Prop where
  last : ∀ order, 1 ≤ order → exponentAt (2 ^ order - 1) = order - 1
  earlier : ∀ order entry, 2 ^ (order - 1) ≤ entry → entry < 2 ^ order - 1 →
    exponentAt entry = exponentAt (entry - 2 ^ (order - 1) + 1)

/-- Every block that holds an entry gives it the same exponent. -/
theorem exponentWithinInside {order position : Nat} (inside : position < blockSize order) :
    exponentWithin order position = exponent position := by
  induction order with
  | zero =>
      rw [blockSize] at inside
      rw [Nat.lt_one_iff.1 inside]
      rfl
  | succ order inductionHypothesis =>
      have size := blockSizeSucc order
      by_cases own : Nat.log2 (position + 1) = order + 1
      · rw [exponent, own]
      · -- The smallest block around the entry is a smaller one, which is followed by more entries.
        have nonzero : position + 1 ≠ 0 := Nat.succ_ne_zero position
        have bounded : Nat.log2 (position + 1) < order + 1 + 1 := by
          rw [Nat.log2_lt nonzero, ← blockSizeSucc]
          omega
        have smaller : Nat.log2 (position + 1) < order + 1 := by omega
        have lower : position < blockSize order := by
          rw [Nat.log2_lt nonzero, ← size] at smaller
          omega
        have early : position + 1 ≠ blockSize (order + 1) := by
          rw [blockSize]
          omega
        rw [exponentWithin, if_neg early, Nat.mod_eq_of_lt lower, inductionHypothesis lower]

theorem exponentRecurrence : Recurrence fun entry => exponent (entry - 1) := by
  constructor
  · intro order positive
    obtain ⟨lower, rfl⟩ := Nat.exists_eq_add_of_le' positive
    rw [← blockSizeSucc, Nat.add_sub_cancel, exponentLast, Nat.add_sub_cancel]
  · intro order entry least before
    match order with
    | 0 => exact absurd before (Nat.not_lt_zero entry)
    | 1 => omega
    | order + 2 =>
        have half := blockSizeSucc order
        have whole := blockSizeSucc (order + 1)
        have sizes : blockSize (order + 1) = 2 * blockSize order + 1 := rfl
        change 2 ^ (order + 1) ≤ entry at least
        change entry < 2 ^ (order + 1 + 1) - 1 at before
        have numbered : entry - 1 + 1 = entry := by omega
        have within : Nat.log2 entry = order + 1 :=
          (Nat.log2_eq_iff (by omega)).2 ⟨least, by omega⟩
        have early : entry ≠ blockSize (order + 1) := by omega
        have remainder : (entry - 1) % blockSize order = entry - 2 ^ (order + 1) := by
          rw [Nat.mod_eq_sub_mod (by omega), Nat.mod_eq_of_lt (by omega)]
          omega
        have inside : entry - 2 ^ (order + 1) < blockSize order := by omega
        rw [exponent, numbered, within, exponentWithin, numbered, if_neg early, remainder,
          exponentWithinInside inside]
        rfl

/-- The recurrence leaves no choice. -/
theorem Recurrence.unique {first second : Nat → Nat} (recurrence : Recurrence first)
    (another : Recurrence second) {entry : Nat} (positive : 1 ≤ entry) :
    first entry = second entry := by
  induction entry using Nat.strong_induction_on with
  | h entry inductionHypothesis =>
      have least : 2 ^ entry.log2 ≤ entry := Nat.log2_self_le (by omega)
      have before : entry < 2 ^ (entry.log2 + 1) := Nat.lt_log2_self
      by_cases last : entry = 2 ^ (entry.log2 + 1) - 1
      · rw [last, recurrence.last _ (Nat.le_add_left 1 _), another.last _ (Nat.le_add_left 1 _)]
      · have several : 2 ^ 1 ≤ 2 ^ entry.log2 := by
          refine Nat.pow_le_pow_right Nat.two_pos (Nat.one_le_iff_ne_zero.2 fun none => last ?_)
          rw [none] at least before ⊢
          omega
        have earlier : entry - 2 ^ entry.log2 + 1 < entry := by omega
        rw [recurrence.earlier (entry.log2 + 1) entry least (by omega),
          another.earlier (entry.log2 + 1) entry least (by omega)]
        exact inductionHypothesis _ earlier (Nat.le_add_left 1 _)

/-- The recurrence has a solution.  Up to the greatest word but one, no word overflows in the
computation of an entry, which is a product of as many factors as any solution says. -/
theorem wordValueExact :
    (Recurrence fun entry => exponent (entry - 1)) ∧
      ∀ exponentAt, Recurrence exponentAt →
        ∀ (base : Float) (position : UInt32), position ≤ 0xFFFFFFFE →
          wordValue? base position = some (power base (exponentAt (position.toNat + 1))) ∧
          value base position.toNat = power base (exponentAt (position.toNat + 1)) ∧
          Product base (exponentAt (position.toNat + 1)) (value base position.toNat) := by
  refine ⟨exponentRecurrence, fun exponentAt recurrence base position small => ?_⟩
  have inside : position.toNat < 0xFFFFFFFF := Nat.lt_succ_of_le (UInt32.le_iff_toNat_le.1 small)
  have found := wordExponentFinds inside
  rw [UInt32.ofNat_toNat] at found
  have same : exponent position.toNat = exponentAt (position.toNat + 1) :=
    exponentRecurrence.unique recurrence (Nat.le_add_left 1 _)
  refine ⟨?_, ?_, ?_⟩
  · rw [wordValue?, found, same]
    rfl
  · rw [value, same]
  · rw [← same]
    exact powerProduct base _

/-- A word can count the greatest block to its end, and its second half begins like the first. -/
theorem wordValueExactLimits :
    wordValue? 2.0 0xFFFFFFFE = some (power 2.0 31) ∧
      wordValue? 2.0 0x7FFFFFFF = some (power 2.0 0) := by
  obtain ⟨recurrence, exactly⟩ := wordValueExact
  have greatest : exponent 0xFFFFFFFE = 31 := recurrence.last 32 (by decide)
  have first : exponent 0 = 0 := recurrence.last 1 (by decide)
  have again : exponent 0x7FFFFFFF = exponent 0 :=
    recurrence.earlier 32 0x80000000 (by decide) (by decide)
  constructor
  · rw [← greatest]
    exact (exactly _ recurrence 2.0 0xFFFFFFFE (by decide)).1
  · rw [← first, ← again]
    exact (exactly _ recurrence 2.0 0x7FFFFFFF (by decide)).1

end ParitySat.Luby
