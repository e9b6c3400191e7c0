/-
This file shows that normalizing keeps exactly the atoms that occur an odd number of times.
-/

import Mathlib.Algebra.Ring.Parity
import Mathlib.Data.Finset.Sort
import Mathlib.Data.Finset.SymmDiff
import ParitySat.Proofs.Parity

namespace ParitySat.ParityConstraint

/-- The normal form lists the atoms that occur an odd number of times, in increasing order. -/
structure NormalForm (atoms normal : List Nat) : Prop where
  ascending : normal.Pairwise (· < ·)
  odd : ∀ atom, atom ∈ normal ↔ Odd (atoms.count atom)

/-- The kept atoms are a stack, and an atom equal to the top of the stack removes it. -/
def cancelInto : List Nat → List Nat → List Nat
  | kept, [] => kept.reverse
  | kept, atom :: rest =>
    if kept.head? = some atom then cancelInto kept.tail rest else cancelInto (atom :: kept) rest

/-- This function cancels pairs of neighbours in one pass. -/
def cancelPairs (atoms : List Nat) : List Nat :=
  cancelInto [] atoms

section NormalForm

variable {atoms normal : List Nat}

theorem NormalForm.nothing : NormalForm [] [] :=
  ⟨List.Pairwise.nil, by simp⟩

/-- One more occurrence of an atom decides anew whether it is kept, and concerns no other atom. -/
theorem NormalForm.next {added : Nat} {after : List Nat} (form : NormalForm atoms normal)
    (ascending : after.Pairwise (· < ·)) (own : added ∈ after ↔ added ∉ normal)
    (others : ∀ atom, atom ≠ added → (atom ∈ after ↔ atom ∈ normal)) :
    NormalForm (added :: atoms) after := by
  refine ⟨ascending, fun atom => ?_⟩
  by_cases same : atom = added
  · subst same
    rw [own, form.odd, List.count_cons_self, Nat.odd_add_one]
  · rw [others atom same, form.odd, List.count_cons_of_ne (Ne.symm same)]

theorem NormalForm.perm {other : List Nat} (form : NormalForm atoms normal)
    (permuted : List.Perm atoms other) : NormalForm other normal :=
  ⟨form.ascending, fun atom => by rw [form.odd, permuted.count_eq]⟩

/-- The counts of the atoms determine the list. -/
theorem NormalForm.unique {other : List Nat} (form : NormalForm atoms normal)
    (another : NormalForm atoms other) : normal = other :=
  form.ascending.eq_of_mem_iff another.ascending fun atom => by rw [form.odd, another.odd]

end NormalForm

section Toggle

theorem memberToggleOwn {atom : Nat} {atoms : List Nat} (ascending : atoms.Pairwise (· < ·)) :
    atom ∈ toggle atom atoms ↔ atom ∉ atoms := by
  induction atoms with
  | nil => simp [toggle]
  | cons first rest inductionHypothesis =>
      obtain ⟨lowest, restAscending⟩ := List.pairwise_cons.1 ascending
      have tail := inductionHypothesis restAscending
      rw [toggle]
      by_cases below : atom < first
      · have absent : atom ∉ rest := fun listed => absurd (lowest atom listed) (by omega)
        simp [below, absent, Nat.ne_of_lt below]
      · by_cases same : atom = first
        · subst same
          have absent : atom ∉ rest := fun listed => Nat.lt_irrefl _ (lowest atom listed)
          simpa using absent
        · simp [below, same, tail]

theorem NormalForm.toggled {atoms normal : List Nat} (form : NormalForm atoms normal)
    (atom : Nat) : NormalForm (atom :: atoms) (toggle atom normal) :=
  form.next (toggleAscending form.ascending) (memberToggleOwn form.ascending)
    fun _ different => memberToggleOther different normal

theorem normalizeForm (atoms : List Nat) : NormalForm atoms (normalize atoms) := by
  induction atoms with
  | nil => exact .nothing
  | cons first rest inductionHypothesis => exact inductionHypothesis.toggled first

/-- An atom is left of two lists together if it is left of exactly one of them. -/
theorem normalizeAppend (first second : List Nat) :
    normalize (first ++ second) =
      (symmDiff (normalize first).toFinset (normalize second).toFinset).sort (· ≤ ·) := by
  refine (normalizeAscending _).eq_of_mem_iff (Finset.sortedLT_sort _).pairwise fun atom => ?_
  rw [Finset.mem_sort, Finset.mem_symmDiff, List.mem_toFinset, List.mem_toFinset,
    (normalizeForm _).odd, (normalizeForm _).odd, (normalizeForm _).odd, List.count_append,
    Nat.odd_add, ← Nat.not_odd_iff_even]
  tauto

end Toggle

section Stack

/-- The stack holds the normal form of the atoms seen so far, and these are not greater than those
to come. -/
structure Kept (seen kept rest : List Nat) : Prop where
  form : NormalForm seen kept.reverse
  sorted : rest.Pairwise (· ≤ ·)
  bounded : ∀ atom ∈ kept, ∀ later ∈ rest, atom ≤ later

variable {seen kept rest : List Nat} {atom : Nat}

theorem Kept.descending (state : Kept seen kept rest) :
    kept.Pairwise fun upper lower => lower < upper :=
  List.pairwise_reverse.1 state.form.ascending

/-- The top of the stack is its greatest atom, so that an atom not on top is not below it either. -/
theorem Kept.below (state : Kept seen kept (atom :: rest)) (fresh : kept.head? ≠ some atom) :
    ∀ other ∈ kept, other < atom := by
  cases kept with
  | nil => exact fun _ listed => absurd listed List.not_mem_nil
  | cons top lower =>
      have bound := state.bounded top List.mem_cons_self atom List.mem_cons_self
      have different : top ≠ atom := fun same => fresh (congrArg some same)
      have topBelow : top < atom := Nat.lt_of_le_of_ne bound different
      have lowerBelow := (List.pairwise_cons.1 state.descending).1
      rw [List.forall_mem_cons]
      exact ⟨topBelow, fun other listed => Nat.lt_trans (lowerBelow other listed) topBelow⟩

theorem Kept.pop (state : Kept seen (atom :: kept) (atom :: rest)) :
    Kept (atom :: seen) kept rest := by
  obtain ⟨below, descending⟩ := List.pairwise_cons.1 state.descending
  have absent : atom ∉ kept := fun listed => Nat.lt_irrefl _ (below atom listed)
  constructor
  · refine state.form.next (List.pairwise_reverse.2 descending) ?_ ?_
    · simp [absent]
    · intro other different
      simp [different]
  · exact state.sorted.of_cons
  · intro other listed later member
    exact state.bounded other (List.mem_cons_of_mem _ listed) later (List.mem_cons_of_mem _ member)

theorem Kept.push (state : Kept seen kept (atom :: rest)) (fresh : kept.head? ≠ some atom) :
    Kept (atom :: seen) (atom :: kept) rest := by
  have below := state.below fresh
  have absent : atom ∉ kept := fun listed => Nat.lt_irrefl _ (below atom listed)
  obtain ⟨lowest, sorted⟩ := List.pairwise_cons.1 state.sorted
  constructor
  · refine state.form.next (List.pairwise_reverse.2 (state.descending.cons below)) ?_ ?_
    · simp [absent]
    · intro other different
      simp [different]
  · exact sorted
  · rw [List.forall_mem_cons]
    refine ⟨lowest, fun other listed later member => ?_⟩
    exact state.bounded other listed later (List.mem_cons_of_mem _ member)

/-- Every atom of the rest is pushed or popped. -/
theorem Kept.cancelInto (state : Kept seen kept rest) :
    NormalForm (rest.reverse ++ seen) (cancelInto kept rest) := by
  induction rest generalizing seen kept with
  | nil => exact state.form
  | cons atom rest inductionHypothesis =>
      -- The atoms seen stand in reverse, which does not matter to a normal form.
      rw [ParityConstraint.cancelInto, List.reverse_cons, List.append_assoc]
      split
      · next top =>
          obtain ⟨lower, rfl⟩ := List.head?_eq_some_iff.1 top
          exact inductionHypothesis state.pop
      · next fresh => exact inductionHypothesis (state.push fresh)

theorem cancelPairsForm {sorted : List Nat} (ascending : sorted.Pairwise (· ≤ ·)) :
    NormalForm sorted (cancelPairs sorted) := by
  have start : Kept [] [] sorted :=
    ⟨.nothing, ascending, fun _ listed => absurd listed List.not_mem_nil⟩
  have form := start.cancelInto
  rw [List.append_nil] at form
  exact form.perm (List.reverse_perm sorted)

end Stack

/-- Normalizing keeps the atoms that occur an odd number of times, in increasing order and whatever
their order before.  One pass over the sorted atoms finds the same. -/
theorem normalizeExact (atoms : List Nat) :
    NormalForm atoms (normalize atoms) ∧
      (∀ assignment, oddness assignment (normalize atoms) = oddness assignment atoms) ∧
      (∀ other, List.Perm atoms other → normalize other = normalize atoms) ∧
      (∀ other, normalize (atoms ++ other) =
        (symmDiff (normalize atoms).toFinset (normalize other).toFinset).sort (· ≤ ·)) ∧
      ∀ sorted, List.Perm atoms sorted → sorted.Pairwise (· ≤ ·) →
        cancelPairs sorted = normalize atoms := by
  refine ⟨normalizeForm atoms, fun assignment => oddnessNormalize assignment atoms, ?_,
    normalizeAppend atoms, ?_⟩
  · intro other permuted
    exact ((normalizeForm other).perm permuted.symm).unique (normalizeForm atoms)
  · intro sorted permuted ascending
    exact ((cancelPairsForm ascending).perm permuted.symm).unique (normalizeForm atoms)

/-- Runs of one, two and three equal atoms leave one atom, none and one. -/
theorem normalizeExactRuns :
    List.Perm [4, 2, 4, 0, 2, 4] [0, 2, 2, 4, 4, 4] ∧
      [0, 2, 2, 4, 4, 4].Pairwise (· ≤ ·) ∧
      cancelPairs [0, 2, 2, 4, 4, 4] = normalize [4, 2, 4, 0, 2, 4] ∧
      normalize [4, 2, 4, 0, 2, 4] = [0, 4] := by
  have permuted : List.Perm [4, 2, 4, 0, 2, 4] [0, 2, 2, 4, 4, 4] := by decide
  have ascending : [0, 2, 2, 4, 4, 4].Pairwise (· ≤ ·) := by decide
  exact ⟨permuted, ascending,
    (normalizeExact [4, 2, 4, 0, 2, 4]).2.2.2.2 _ permuted ascending, by decide⟩

end ParitySat.ParityConstraint
