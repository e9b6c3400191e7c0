/-
This file shows that a sorted clause without tautology has distinct atoms.
-/

import ParitySat.Clause

namespace ParitySat.Clause

/-- The indices of the literals increase. -/
def Increasing (literals : List Literal) : Prop :=
  literals.Pairwise fun first second => first.index < second.index

theorem memberInsertSorted {literal other : Literal} {literals : List Literal} :
    other ∈ insertSorted literal literals ↔ other = literal ∨ other ∈ literals := by
  induction literals with
  | nil => simp [insertSorted]
  | cons first rest inductionHypothesis =>
      rw [insertSorted]
      split
      · exact List.mem_cons
      · split
        · next same =>
            subst same
            simp
        · rw [List.mem_cons, inductionHypothesis, List.mem_cons]
          exact or_left_comm

theorem insertSortedIncreasing {literal : Literal} {literals : List Literal}
    (increasing : Increasing literals) : Increasing (insertSorted literal literals) := by
  induction literals with
  | nil => simp [insertSorted, Increasing]
  | cons first rest inductionHypothesis =>
      obtain ⟨lowest, restIncreasing⟩ := List.pairwise_cons.1 increasing
      rw [insertSorted]
      split
      · next below =>
          refine List.pairwise_cons.2 ⟨fun other member => ?_, increasing⟩
          rcases List.mem_cons.1 member with rfl | inRest
          · exact below
          · exact Nat.lt_trans below (lowest other inRest)
      · next notBelow =>
          split
          · exact increasing
          · next different =>
              refine List.pairwise_cons.2 ⟨fun other member => ?_, inductionHypothesis restIncreasing⟩
              rcases memberInsertSorted.1 member with rfl | inRest
              · have apart : other.index ≠ first.index := fun same =>
                  different (Literal.indexInjective same)
                omega
              · exact lowest other inRest

theorem sortedIncreasing (literals : List Literal) : Increasing (sorted literals) := by
  induction literals with
  | nil => exact List.Pairwise.nil
  | cons first rest inductionHypothesis => exact insertSortedIncreasing inductionHypothesis

theorem memberSorted {literal : Literal} {literals : List Literal} :
    literal ∈ sorted literals ↔ literal ∈ literals := by
  induction literals with
  | nil => rfl
  | cons first rest inductionHypothesis =>
      change literal ∈ insertSorted first (sorted rest) ↔ _
      rw [memberInsertSorted, inductionHypothesis, List.mem_cons]

/-- A tautology holds under every assignment. -/
theorem holdsTautological (assignment : Nat → Bool) {literals : List Literal}
    (tautology : tautological literals = true) : holds assignment literals = true := by
  induction literals with
  | nil => simp [tautological] at tautology
  | cons first rest inductionHypothesis =>
      cases rest with
      | nil => simp [tautological] at tautology
      | cons second others =>
          rw [tautological, Bool.or_eq_true, decide_eq_true_eq] at tautology
          rcases tautology with negated | later
          · subst negated
            simp only [holds, List.any_cons, Literal.holdsNegate]
            cases second.holds assignment <;> simp
          · have tail := inductionHypothesis later
            rw [holds, List.any_cons, ← holds, tail, Bool.or_true]

/-- The two signs of an atom would be neighbours. -/
theorem distinctAtoms {literals : List Literal} (increasing : Increasing literals)
    (plain : tautological literals = false) : (literals.map Literal.atom).Nodup := by
  induction literals with
  | nil => exact List.nodup_nil
  | cons first rest inductionHypothesis =>
      obtain ⟨lowest, restIncreasing⟩ := List.pairwise_cons.1 increasing
      cases rest with
      | nil => simp
      | cons second others =>
          rw [tautological, Bool.or_eq_false_iff, decide_eq_false_iff_not] at plain
          obtain ⟨different, restPlain⟩ := plain
          refine List.nodup_cons.2 ⟨fun member => ?_, inductionHypothesis restIncreasing restPlain⟩
          obtain ⟨other, listed, same⟩ := List.mem_map.1 member
          have above := lowest other listed
          have secondAbove := lowest second List.mem_cons_self
          have least : second.index ≤ other.index := by
            rcases List.mem_cons.1 listed with rfl | later
            · exact Nat.le_refl _
            · exact Nat.le_of_lt ((List.pairwise_cons.1 restIncreasing).1 other later)
          refine different (Literal.indexInjective ?_)
          simp only [Literal.index, Literal.atomNegate, Literal.negatedNegate] at *
          revert above secondAbove least
          cases first.negated <;> cases second.negated <;> cases other.negated <;>
            simp only [Bool.toNat_true, Bool.toNat_false, Bool.not_true, Bool.not_false] <;> omega

end ParitySat.Clause
