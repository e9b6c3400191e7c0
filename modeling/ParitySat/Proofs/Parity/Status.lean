/-
This file says exactly when a parity constraint is violated, forces a literal or is undecided.
-/

import Mathlib.Logic.Function.Basic
import ParitySat.Proofs.Parity

namespace ParitySat.ParityConstraint

/-- The atom is the only one of the constraint without a value. -/
structure Lone (value : Nat → Truth) (constraint : ParityConstraint) (atom : Nat) : Prop where
  member : atom ∈ constraint.atoms
  unknown : value atom = none
  others : ∀ other ∈ constraint.atoms, other ≠ atom → value other ≠ none

/-- All atoms of the constraint have values, and these have the wrong parity. -/
def Wrong (value : Nat → Truth) (constraint : ParityConstraint) : Prop :=
  (∀ atom ∈ constraint.atoms, value atom ≠ none) ∧
    oddness (Truth.total value) constraint.atoms ≠ constraint.parity

/-- The assignment agrees with the values that the atoms of the constraint have. -/
def Completes (value : Nat → Truth) (constraint : ParityConstraint) (assignment : Nat → Bool) :
    Prop :=
  ∀ atom ∈ constraint.atoms, ∀ truth, value atom = some truth → assignment atom = truth

/-- The status says no more and no less than the values do. -/
structure StatusExact (value : Nat → Truth) (constraint : ParityConstraint) : Prop where
  violated : constraint.status value = .violated ↔ Wrong value constraint
  forces : ∀ literal, constraint.status value = .forces literal ↔
    Lone value constraint literal.atom ∧ ∀ assignment, Completes value constraint assignment →
      constraint.holds assignment = true → literal.holds assignment = true
  unit : (∃ literal, constraint.status value = .forces literal) ↔
    ∃ atom, Lone value constraint atom
  undecided : constraint.status value = .undecided ↔
    ¬Wrong value constraint ∧ ¬∃ atom, Lone value constraint atom

section Status

variable {value : Nat → Truth} {constraint : ParityConstraint}

theorem Lone.notWrong {atom : Nat} (lone : Lone value constraint atom) :
    ¬Wrong value constraint :=
  fun wrong => wrong.1 atom lone.member lone.unknown

theorem Lone.unique {first second : Nat} (left : Lone value constraint first)
    (right : Lone value constraint second) : first = second :=
  Decidable.byContradiction fun different =>
    right.others first left.member different left.unknown

theorem Forced.lone {literal : Literal} (forced : Forced value constraint literal) :
    Lone value constraint literal.atom :=
  ⟨forced.member, forced.unknown, forced.others⟩

/-- In a completion the other atoms have their values. -/
theorem Lone.agrees {atom : Nat} (lone : Lone value constraint atom) {assignment : Nat → Bool}
    (completes : Completes value constraint assignment) (other : Nat)
    (member : other ∈ constraint.atoms) (different : other ≠ atom) :
    value other = some (assignment other) := by
  obtain ⟨truth, known⟩ := Option.ne_none_iff_exists'.1 (lone.others other member different)
  rw [known, completes other member truth known]

/-- This assignment makes a literal true and leaves the other atoms as they are. -/
def satisfying (literal : Literal) (assignment : Nat → Bool) : Nat → Bool :=
  Function.update assignment literal.atom !literal.negated

theorem satisfyingHolds (literal : Literal) (assignment : Nat → Bool) :
    literal.holds (satisfying literal assignment) = true := by
  simp [Literal.holds, satisfying]

/-- Every forced literal can be made true. -/
theorem Forced.completable {literal : Literal} (forced : Forced value constraint literal) :
    ∃ assignment, Completes value constraint assignment ∧ constraint.holds assignment = true ∧
      literal.holds assignment = true := by
  let assignment := satisfying literal (Truth.total value)
  have known (atom : Nat) (member : atom ∈ constraint.atoms) (different : atom ≠ literal.atom) :
      value atom = some (assignment atom) := by
    obtain ⟨truth, same⟩ := Option.ne_none_iff_exists'.1 (forced.others atom member different)
    simp only [assignment, satisfying, Function.update_of_ne different, Truth.total, same]
    cases truth <;> rfl
  refine ⟨assignment, fun atom member truth same => ?_,
    forced.restores assignment (satisfyingHolds _ _) known, satisfyingHolds _ _⟩
  have different : atom ≠ literal.atom := by
    rintro rfl
    rw [forced.unknown] at same
    cases same
  rw [known atom member different] at same
  exact Option.some.inj same

theorem Forced.unique {first second : Literal} (forced : Forced value constraint first)
    (lone : Lone value constraint second.atom)
    (implied : ∀ assignment, Completes value constraint assignment →
      constraint.holds assignment = true → second.holds assignment = true) : first = second := by
  obtain ⟨assignment, completes, holds, own⟩ := forced.completable
  have other := implied assignment completes holds
  have same : first.atom = second.atom := forced.lone.unique lone
  obtain ⟨atom, negated⟩ := first
  obtain ⟨otherAtom, otherNegated⟩ := second
  obtain rfl : atom = otherAtom := same
  rw [Literal.holds] at own other
  simp only at own other
  congr
  revert own other
  cases assignment atom <;> cases negated <;> cases otherNegated <;> simp

variable (distinct : constraint.atoms.Nodup)
include distinct

/-- Only the forced literal completes the constraint. -/
theorem Forced.implied {literal : Literal} (forced : Forced value constraint literal)
    {assignment : Nat → Bool} (completes : Completes value constraint assignment)
    (holds : constraint.holds assignment = true) : literal.holds assignment = true := by
  refine Decidable.byContradiction fun wrong => ?_
  have agree (atom : Nat) (member : atom ∈ constraint.atoms) (different : atom ≠ literal.atom) :
      value atom = some (satisfying literal assignment atom) := by
    rw [satisfying, Function.update_of_ne different]
    exact forced.lone.agrees completes atom member different
  have restored := forced.restores _ (satisfyingHolds literal assignment) agree
  -- Both assignments satisfy the constraint, but they differ on a single atom of it.
  have differ := oddnessDiffer assignment (satisfying literal assignment) distinct forced.member
    fun atom _ different => by rw [satisfying, Function.update_of_ne different]
  rw [ParityConstraint.holds, beq_iff_eq] at holds restored
  rw [holds, restored, satisfying, Function.update_self, bne_self_eq_false] at differ
  rw [Literal.holds] at wrong
  revert differ wrong
  cases assignment literal.atom <;> cases literal.negated <;> simp

theorem wrongOfViolated (known : constraint.status value = .violated) :
    Wrong value constraint := by
  have spec := statusSpec value distinct
  rw [known] at spec
  obtain ⟨all, wrong⟩ := spec
  exact ⟨all, by simpa [ParityConstraint.holds] using wrong⟩

theorem forcedOfForces {literal : Literal} (known : constraint.status value = .forces literal) :
    Forced value constraint literal := by
  have spec := statusSpec value distinct
  rwa [known] at spec

/-- An undecided constraint is satisfied, or two of its atoms have no value. -/
theorem openOfUndecided (known : constraint.status value = .undecided) :
    ¬Wrong value constraint ∧ ¬∃ atom, Lone value constraint atom := by
  have spec := statusSpec value distinct
  rw [known] at spec
  rcases spec with ⟨all, right⟩ | ⟨first, firstIn, second, secondIn, different, left, right⟩
  · refine ⟨fun wrong => wrong.2 (by simpa [ParityConstraint.holds] using right), ?_⟩
    rintro ⟨atom, lone⟩
    exact all atom lone.member lone.unknown
  · refine ⟨fun wrong => wrong.1 first firstIn left, ?_⟩
    rintro ⟨atom, lone⟩
    have only (other : Nat) (member : other ∈ constraint.atoms) (free : value other = none) :
        other = atom :=
      Decidable.byContradiction fun apart => lone.others other member apart free
    exact different (by rw [only first firstIn left, only second secondIn right])

/-- The status of a constraint over distinct atoms is exact, whatever the values are. -/
theorem statusExact : StatusExact value constraint := by
  have forced {literal : Literal} (known : constraint.status value = .forces literal) :
      Forced value constraint literal := forcedOfForces distinct known
  refine ⟨⟨wrongOfViolated distinct, ?_⟩, fun literal => ⟨?_, ?_⟩, ⟨?_, ?_⟩,
    ⟨openOfUndecided distinct, ?_⟩⟩
  · intro wrong
    cases known : constraint.status value with
    | undecided => exact absurd wrong (openOfUndecided distinct known).1
    | forces literal => exact absurd wrong (forced known).lone.notWrong
    | violated => rfl
  · intro known
    exact ⟨(forced known).lone, fun _ => (forced known).implied distinct⟩
  · rintro ⟨lone, implied⟩
    cases known : constraint.status value with
    | undecided => exact absurd ⟨_, lone⟩ (openOfUndecided distinct known).2
    | forces other => rw [(forced known).unique lone implied]
    | violated => exact absurd (wrongOfViolated distinct known) lone.notWrong
  · rintro ⟨literal, known⟩
    exact ⟨_, (forced known).lone⟩
  · rintro ⟨atom, lone⟩
    cases known : constraint.status value with
    | undecided => exact absurd ⟨atom, lone⟩ (openOfUndecided distinct known).2
    | forces literal => exact ⟨literal, rfl⟩
    | violated => exact absurd (wrongOfViolated distinct known) lone.notWrong
  · rintro ⟨notWrong, noLone⟩
    cases known : constraint.status value with
    | undecided => rfl
    | forces literal => exact absurd ⟨_, (forced known).lone⟩ noLone
    | violated => exact absurd (wrongOfViolated distinct known) notWrong

end Status

end ParitySat.ParityConstraint
