/-
This file shows that undone assignments leave phases which lead back to them, and that nothing but
undoing a level changes a phase.
-/

import ParitySat.Proofs.Engine.Branching
import ParitySat.Proofs.Engine.Constraints
import ParitySat.Proofs.Engine.Reduction

namespace ParitySat

namespace Trail

/-- More atoms may have values than before, and all phases are the same. -/
structure Prolongs (before after : Trail) : Prop where
  size : after.atoms.size = before.atoms.size
  longer : before.literals.size ≤ after.literals.size
  unknown : ∀ atom, after.atomValue atom = none → before.atomValue atom = none
  phases : ∀ atom, (after.atom atom).phase = (before.atom atom).phase

theorem Prolongs.refl (trail : Trail) : trail.Prolongs trail :=
  ⟨rfl, Nat.le_refl _, fun _ missing => missing, fun _ => rfl⟩

theorem Prolongs.trans {first second third : Trail} (left : first.Prolongs second)
    (right : second.Prolongs third) : first.Prolongs third where
  size := right.size.trans left.size
  longer := Nat.le_trans left.longer right.longer
  unknown atom missing := left.unknown atom (right.unknown atom missing)
  phases atom := (right.phases atom).trans (left.phases atom)

/-- The head and the levels have nothing to do with values and phases. -/
theorem Prolongs.ofSame {before after : Trail} (atoms : after.atoms = before.atoms)
    (literals : after.literals = before.literals) : before.Prolongs after where
  size := congrArg Array.size atoms
  longer := Nat.le_of_eq (congrArg Array.size literals).symm
  unknown atom missing := by
    rw [atomValue, Trail.atom, ← atoms]
    exact missing
  phases atom := by rw [Trail.atom, Trail.atom, atoms]

theorem prolongsEnqueue (trail : Trail) (literal : Literal) (reason : Option Reason) :
    trail.Prolongs (trail.enqueue literal reason) where
  size := sizeEnqueue trail literal reason
  longer := by
    rw [← Array.length_toList, ← Array.length_toList, literalsEnqueue, List.length_append]
    exact Nat.le_add_right _ _
  unknown atom missing := by
    rw [atomValue, atomEnqueue] at missing
    split at missing
    · contradiction
    · exact missing
  phases atom := by
    rw [atomEnqueue]
    split <;> rfl

/-- The trail agrees with the assignment, and the atoms without values have the phases that lead
to it. -/
structure Favors (trail : Trail) (assignment : Nat → Bool) : Prop where
  holds : trail.Holds assignment
  phases : ∀ atom, atom < trail.atoms.size → trail.atomValue atom = none →
    (trail.atom atom).phase = !assignment atom

/-- Where no phase changes, only the new literals have to agree with the assignment. -/
theorem Favors.prolong {before after : Trail} {assignment : Nat → Bool}
    (favors : before.Favors assignment) (prolongs : before.Prolongs after)
    (holds : after.Holds assignment) : after.Favors assignment where
  holds
  phases atom inside missing := by
    rw [prolongs.phases]
    rw [prolongs.size] at inside
    exact favors.phases atom inside (prolongs.unknown atom missing)

/-- The phase of such an atom is the sign of a literal that holds. -/
theorem Favors.phaseHolds {trail : Trail} {assignment : Nat → Bool}
    (favors : trail.Favors assignment) {atom : Nat} (inside : atom < trail.atoms.size)
    (unknown : trail.atomValue atom = none) :
    Literal.holds assignment ⟨atom, (trail.atom atom).phase⟩ = true := by
  rw [Literal.holds, favors.phases atom inside unknown]
  cases assignment atom <;> rfl

theorem holdsEnqueue {trail : Trail} {assignment : Nat → Bool} {literal : Literal}
    (holds : trail.Holds assignment) (isTrue : literal.holds assignment = true)
    (reason : Option Reason) : (trail.enqueue literal reason).Holds assignment := by
  intro other member
  rw [literalsEnqueue, List.mem_append, List.mem_singleton] at member
  rcases member with old | rfl
  · exact holds other old
  · exact isTrue

/-- A decision that agrees with the assignment leaves it within reach. -/
theorem Favors.decide {trail : Trail} {assignment : Nat → Bool}
    (favors : trail.Favors assignment) {literal : Literal}
    (isTrue : literal.holds assignment = true) :
    (trail.openLevel.enqueue literal none).Favors assignment := by
  have opened : trail.Prolongs trail.openLevel := .ofSame rfl rfl
  have holds : trail.openLevel.Holds assignment := favors.holds
  exact favors.prolong (opened.trans (prolongsEnqueue _ literal none))
    (holdsEnqueue holds isTrue none)

/-- A released atom gets the sign of its literal as the phase. -/
theorem phaseReleaseAll (literals : List Literal) (atoms : Array AtomState) {other : Nat}
    (inside : other < atoms.size) (listed : ∃ literal ∈ literals, literal.atom = other) :
    ∃ literal ∈ literals, literal.atom = other ∧
      ((literals.foldl release atoms).getD other {}).phase = literal.negated := by
  induction literals generalizing atoms with
  | nil =>
      obtain ⟨literal, member, -⟩ := listed
      exact absurd member List.not_mem_nil
  | cons first rest inductionHypothesis =>
      rw [List.foldl_cons]
      by_cases again : ∃ literal ∈ rest, literal.atom = other
      · obtain ⟨literal, member, same, phase⟩ :=
          inductionHypothesis (release atoms first) (by simpa [release] using inside) again
        exact ⟨literal, List.mem_cons_of_mem _ member, same, phase⟩
      · have own : first.atom = other := by
          obtain ⟨literal, member, same⟩ := listed
          rcases List.mem_cons.1 member with rfl | later
          · exact same
          · exact absurd ⟨literal, later, same⟩ again
        refine ⟨first, List.mem_cons_self, own, ?_⟩
        rw [(releaseAll rest _ other).2.2 fun literal member same => again ⟨literal, member, same⟩]
        simp [release, own, inside, Array.getElem_modify]

/-- What has been undone is repeated by the phases. -/
theorem Favors.cancelUntil {trail : Trail} {assignment : Nat → Bool}
    (favors : trail.Favors assignment) (level : Nat) :
    (trail.cancelUntil level).Favors assignment where
  holds literal member := by
    rw [literalsCancelUntil] at member
    exact favors.holds literal (initialMember member)
  phases atom inside missing := by
    rw [sizeCancelUntil] at inside
    by_cases open_ : level < trail.level
    · rw [Trail.cancelUntil, if_pos open_] at missing ⊢
      by_cases released : ∃ literal ∈ trail.above level, literal.atom = atom
      · obtain ⟨literal, member, same, phase⟩ :=
          phaseReleaseAll (trail.above level) trail.atoms inside released
        have holds := favors.holds literal (aboveMember member)
        rw [Literal.holds, same] at holds
        rw [Trail.atom, phase]
        revert holds
        cases assignment atom <;> cases literal.negated <;> simp
      · have kept := (releaseAll (trail.above level) trail.atoms atom).2.2
          fun literal member same => released ⟨literal, member, same⟩
        rw [atomValue, Trail.atom, kept] at missing
        rw [Trail.atom, kept]
        exact favors.phases atom inside missing
    · rw [cancelUntilLow (by omega)] at missing ⊢
      exact favors.phases atom inside missing

/-- A trail without gaps favors its own assignment. -/
theorem Total.favors {trail : Trail} (total : trail.Total) (coherent : trail.Coherent) :
    trail.Favors trail.assignment where
  holds _ member := Network.holdsAssignment coherent member
  phases atom inside missing := absurd missing (total atom inside)

/-- A trail without gaps leaves no choice. -/
theorem Total.agrees {trail : Trail} (total : trail.Total) (coherent : trail.Coherent)
    {assignment : Nat → Bool} (holds : trail.Holds assignment) {atom : Nat}
    (inside : atom < trail.atoms.size) : trail.assignment atom = assignment atom := by
  have listed := Network.listsOfKnown coherent (total atom inside)
  exact (Network.agrees coherent (fun literal member => holds literal (initialMember member))
    listed).symm

end Trail

namespace Network

/-- Propagation changes no phase. -/
theorem Propagates.prolongs {start network : Network} (propagates : start.Propagates network) :
    start.trail.Prolongs network.trail := by
  induction propagates with
  | refl => exact .refl _
  | rearrange _ _ _ _ inductionHypothesis => exact inductionHypothesis
  | force _ literal reason _ _ _ _ inductionHypothesis =>
      exact inductionHypothesis.trans (Trail.prolongsEnqueue _ literal (some reason))
  | advance _ _ _ _ _ inductionHypothesis =>
      exact inductionHypothesis.trans (.ofSame rfl rfl)

/-- Whatever is forced in a model holds in it. -/
theorem Propagates.holds {start network : Network} (propagates : start.Propagates network)
    (shaped : start.Shaped) {models : (Nat → Bool) → Prop} (sound : start.Sound models)
    {assignment : Nat → Bool} (model : models assignment) (holds : start.trail.Holds assignment) :
    network.trail.Holds assignment := by
  induction propagates with
  | refl => exact holds
  | rearrange _ _ _ _ inductionHypothesis => exact inductionHypothesis
  | @force network earlier literal reason inside unknown later forced inductionHypothesis =>
      have propagates := earlier.force literal reason inside unknown later forced
      have after := propagates.shaped shaped
      refine Trail.holdsEnqueue inductionHypothesis ?_ (some reason)
      refine forced.holds after.trail after.parities.distinct ?_
        ((propagates.sound shaped sound).reason model forced) fun other member => ?_
      · rw [trailAssign, Trail.literalsEnqueue]
        exact List.mem_append_right _ List.mem_cons_self
      · rw [trailAssign, Trail.initialEnqueue _ _ _ (Nat.le_refl _)] at member
        exact inductionHypothesis other (Trail.initialMember member)
  | advance _ _ _ _ _ inductionHypothesis => exact inductionHypothesis

end Network

end ParitySat
