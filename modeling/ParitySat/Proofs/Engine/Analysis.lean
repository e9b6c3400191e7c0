/-
This file shows that the analysis of a conflict always finds an implication point, and that the
clause it derives holds in all the models.
-/

import ParitySat.Engine.Analysis
import ParitySat.Proofs.Engine.Propagation

namespace ParitySat

theorem marksSet (marks : Array Bool) (atom : Nat) (mark : Bool) (other : Nat) :
    (marks.setIfInBounds atom mark).getD other false =
      if atom = other ∧ atom < marks.size then mark else marks.getD other false := by
  simp only [Array.getD_eq_getD_getElem?, Array.getElem?_setIfInBounds]
  by_cases same : atom = other
  · subst same
    by_cases inside : atom < marks.size
    · simp [inside]
    · simp [inside]
  · simp [same]

namespace Network

section Explain

variable {network : Network} (shaped : network.Shaped)
include shaped

/-- The known value of an atom yields the false literal over it. -/
theorem falsifiedNegate {literal : Literal} (member : literal ∈ network.trail.literals.toList) :
    (⟨literal.atom, network.trail.atomValue literal.atom == some true⟩ : Literal) =
      literal.negate := by
  rw [shaped.trail.known member, Literal.negate]
  cases literal.negated <;> rfl

theorem falsifiedInitial {atoms : List Nat} {bound : Nat}
    (listed : ∀ atom ∈ atoms, network.trail.Lists bound atom) :
    ∀ literal ∈ ParityConstraint.falsified network.trail.atomValue atoms,
      literal.negate ∈ network.trail.initial bound := by
  intro literal member
  obtain ⟨atom, inside, rfl⟩ := List.mem_map.1 member
  obtain ⟨own, initial, rfl⟩ := listed atom inside
  rw [falsifiedNegate shaped (Trail.initialMember initial), Literal.negateNegate]
  exact initial

/-- An assignment that differs from the trail at one of the atoms satisfies a false literal. -/
theorem falsifiedHolds {atoms : List Nat} {bound : Nat}
    (listed : ∀ atom ∈ atoms, network.trail.Lists bound atom) {assignment : Nat → Bool} {atom : Nat}
    (inside : atom ∈ atoms) (differs : assignment atom ≠ network.trail.assignment atom) :
    Clause.holds assignment (ParityConstraint.falsified network.trail.atomValue atoms) = true := by
  obtain ⟨own, initial, rfl⟩ := listed atom inside
  have member := Trail.initialMember initial
  rw [Clause.holds, List.any_eq_true]
  refine ⟨own.negate, List.mem_map.2 ⟨own.atom, inside, falsifiedNegate shaped member⟩, ?_⟩
  have onTrail := holdsAssignment shaped.trail member
  rw [Literal.holdsNegate]
  simp only [Literal.holds] at onTrail ⊢
  revert onTrail differs
  cases assignment own.atom <;> cases network.trail.assignment own.atom <;>
    cases own.negated <;> simp

/-- The literals that explain a conflict are all false. -/
theorem conflictFalse {conflict : Reason} (violated : network.Violated conflict) :
    ∀ literal ∈ network.explain none conflict, literal.negate ∈ network.trail.literals.toList := by
  intro literal member
  cases conflict with
  | clause reference => exact violated.2 literal (List.mem_filter.1 member).1
  | parity index =>
      have listed (atom : Nat) (inside : atom ∈ (network.parities.constraint index).atoms.filter
          (fun atom => some atom != none)) :=
        violated.1 atom (List.mem_filter.1 inside).1
      exact Trail.initialMember (falsifiedInitial shaped listed literal member)

/-- The explanation of a conflict follows from the violated constraint. -/
theorem conflictHolds {conflict : Reason} (violated : network.Violated conflict)
    {assignment : Nat → Bool} (satisfied : network.SatisfiesReason assignment conflict) :
    Clause.holds assignment (network.explain none conflict) = true := by
  cases conflict with
  | clause reference =>
      have whole : network.explain none (.clause reference) =
          network.store.literals reference := by
        rw [explain, List.filter_eq_self]
        simp
      rw [whole]
      exact satisfied
  | parity index =>
      have whole : (network.parities.constraint index).atoms.filter
          (fun atom => some atom != none) = (network.parities.constraint index).atoms := by
        rw [List.filter_eq_self]
        simp
      rw [explain, whole]
      by_cases same : ∀ atom ∈ (network.parities.constraint index).atoms,
          assignment atom = network.trail.assignment atom
      · have wrong := violated.2
        simp only [SatisfiesReason, ParityConstraint.holds] at satisfied wrong
        rw [ParityConstraint.oddnessCongr same, wrong] at satisfied
        contradiction
      · simp only [Classical.not_forall] at same
        obtain ⟨atom, inside, differs⟩ := same
        exact falsifiedHolds shaped violated.1 inside differs

variable {position : Nat} {literal : Literal} {reason : Reason}
  (forced : network.Forces position literal reason)
include forced

/-- The literals that explain an implied literal became false before it. -/
theorem reasonFalse : ∀ other ∈ network.explain (some literal.atom) reason,
    other.negate ∈ network.trail.initial position := by
  intro other member
  cases reason with
  | clause reference =>
      obtain ⟨rest, same, others⟩ := forced
      rw [explain, same, List.mem_filter, List.mem_cons] at member
      rcases member with ⟨rfl | inRest, different⟩
      · simp at different
      · exact others other inRest
  | parity index =>
      obtain ⟨-, others, -⟩ := forced
      refine falsifiedInitial shaped ?_ other member
      intro atom inside
      rw [List.mem_filter] at inside
      exact others atom inside.1 (by simpa using inside.2)

/-- The explanation holds wherever the reason holds and the implied literal does not. -/
theorem reasonHolds (member : literal ∈ network.trail.literals.toList) {assignment : Nat → Bool}
    (satisfied : network.SatisfiesReason assignment reason)
    (wrong : literal.holds assignment = false) :
    Clause.holds assignment (network.explain (some literal.atom) reason) = true := by
  cases reason with
  | clause reference =>
      obtain ⟨rest, same, -⟩ := forced
      have distinct := (shaped.store.properOfCons same).distinct
      rw [List.map_cons, List.nodup_cons] at distinct
      rw [SatisfiesReason, same, Clause.holds, List.any_cons, wrong, Bool.false_or,
        List.any_eq_true] at satisfied
      obtain ⟨other, inRest, isTrue⟩ := satisfied
      rw [Clause.holds, List.any_eq_true]
      refine ⟨other, List.mem_filter.2 ⟨same ▸ List.mem_cons_of_mem _ inRest, ?_⟩, isTrue⟩
      rw [bne_iff_ne, ne_eq, Option.some.injEq]
      intro equal
      exact distinct.1 (List.mem_map.2 ⟨other, inRest, equal⟩)
  | parity index =>
      obtain ⟨inside, others, right⟩ := forced
      have listed (atom : Nat) (kept : atom ∈ (network.parities.constraint index).atoms.filter
          (fun atom => some atom != some literal.atom)) : network.trail.Lists position atom := by
        rw [List.mem_filter] at kept
        exact others atom kept.1 (by simpa using kept.2)
      by_cases same : ∀ atom ∈ (network.parities.constraint index).atoms, atom ≠ literal.atom →
          assignment atom = network.trail.assignment atom
      · -- Only the implied atom differs, so the parities would differ as well.
        have differ := ParityConstraint.oddnessDiffer assignment network.trail.assignment
          (shaped.parities.distinct index) inside same
        have onTrail := holdsAssignment shaped.trail member
        simp only [SatisfiesReason, ParityConstraint.holds, beq_iff_eq] at satisfied right
        rw [satisfied, right] at differ
        simp only [Literal.holds] at wrong onTrail
        revert differ wrong onTrail
        cases assignment literal.atom <;> cases network.trail.assignment literal.atom <;>
          cases literal.negated <;> simp
      · simp only [Classical.not_forall] at same
        obtain ⟨atom, atomInside, different, differs⟩ := same
        refine falsifiedHolds shaped listed (List.mem_filter.2 ⟨atomInside, ?_⟩) differs
        simpa using different

end Explain

/-- A violated constraint has an atom of the current level. -/
theorem conflictCurrent {network : Network} (stable : network.Stable)
    (deep : 0 < network.trail.level) {conflict : Reason} (violated : network.Violated conflict) :
    ∃ literal ∈ network.explain none conflict,
      network.trail.level ≤ network.trail.atomLevel literal.atom := by
  have shaped := stable.shaped
  by_cases current : ∃ literal ∈ network.explain none conflict,
      network.trail.level ≤ network.trail.atomLevel literal.atom
  · exact current
  · exfalso
    simp only [not_exists, not_and, Nat.not_le] at current
    -- Otherwise the constraint was violated when the current level began.
    have last : network.trail.level - 1 < network.trail.level := by omega
    obtain ⟨-, start⟩ := Trail.boundaryInside last
    have limit := List.mem_of_getElem? start
    have early : ∀ literal ∈ network.explain none conflict,
        literal.negate ∈ network.trail.initial
          (network.trail.boundary (network.trail.level - 1)) := by
      intro literal member
      refine shaped.trail.memberBoundary.2 ⟨conflictFalse shaped violated literal member, ?_⟩
      have below := current literal member
      rw [Literal.atomNegate]
      omega
    cases conflict with
    | clause reference =>
        obtain ⟨first, second, rest, same⟩ := shaped.store.split violated.1
        have member (literal : Literal) (listed : literal ∈ [first, second]) :
            literal ∈ network.explain none (.clause reference) := by
          rw [explain, List.mem_filter, same]
          refine ⟨?_, by simp⟩
          rcases List.mem_cons.1 listed with rfl | last
          · exact List.mem_cons_self
          · rw [List.mem_singleton.1 last]
            exact List.mem_cons_of_mem _ List.mem_cons_self
        obtain ⟨guards, -⟩ := stable.quiet _ limit reference first second rest same
        obtain ⟨isTrue, -⟩ := guards (early first (member first (by simp)))
        exact shaped.trail.consistent isTrue
          (conflictFalse shaped violated second (member second (by simp)))
    | parity index =>
        have listed : ∀ atom ∈ (network.parities.constraint index).atoms,
            network.trail.Lists (network.trail.boundary (network.trail.level - 1)) atom := by
          intro atom inside
          obtain ⟨own, initial, rfl⟩ := violated.1 atom inside
          refine ⟨own.negate.negate, early own.negate ?_, by simp⟩
          refine List.mem_map.2 ⟨own.atom, List.mem_filter.2 ⟨inside, by simp⟩, ?_⟩
          exact falsifiedNegate shaped (Trail.initialMember initial)
        obtain ⟨-, right⟩ := shaped.settled _ limit index (network.atomCount)
          fun atom inside _ => listed atom inside
        rw [violated.2] at right
        contradiction

end Network

namespace Exploration

/-- This function tells whether an atom is marked. -/
def marked (exploration : Exploration) (atom : Nat) : Prop :=
  exploration.marks.getD atom false = true

/-- The pending atoms are the marked ones of the conflict level, and all lie before the position.

The lower literals are the false literals over the other marked atoms. -/
structure Marking (trail : Trail) (position : Nat) (exploration : Exploration) : Prop where
  width : exploration.marks.size = trail.atoms.size
  pending : ∃ points : List Nat, points.Nodup ∧ points.length = exploration.pending ∧
    ∀ atom, atom ∈ points ↔ exploration.marked atom ∧ trail.level ≤ trail.atomLevel atom
  listed : ∀ atom, exploration.marked atom → trail.level ≤ trail.atomLevel atom →
    trail.Lists position atom
  lower : ∀ atom, atom ∈ exploration.lower.toList.map Literal.atom ↔
    exploration.marked atom ∧ trail.atomLevel atom < trail.level
  distinct : (exploration.lower.toList.map Literal.atom).Nodup
  falsified : ∀ literal ∈ exploration.lower.toList,
    literal.negate ∈ trail.literals.toList ∧ 0 < trail.atomLevel literal.atom
  touched : ∀ atom ∈ exploration.touched.toList, atom < trail.atoms.size

/-- The clause that is being derived has the negations of the marked literals. -/
def Derives (models : (Nat → Bool) → Prop) (trail : Trail) (exploration : Exploration) : Prop :=
  ∀ assignment, models assignment → ∃ literal ∈ trail.literals.toList,
    exploration.marked literal.atom ∧ literal.holds assignment = false

theorem considerSkip {trail : Trail} {exploration : Exploration} {literal : Literal}
    (skip : exploration.marked literal.atom ∨ trail.atomLevel literal.atom = 0) :
    exploration.consider trail literal = exploration := by
  unfold consider
  apply if_neg
  rw [Bool.and_eq_true, decide_eq_true_eq, Bool.not_eq_true']
  rintro ⟨fresh, positive⟩
  rcases skip with marked | zero
  · exact Bool.false_ne_true (fresh.symm.trans marked)
  · omega

/-- A fresh atom of the conflict level is one more that is pending. -/
theorem considerPending {trail : Trail} {exploration : Exploration} {literal : Literal}
    (fresh : ¬exploration.marked literal.atom) (positive : 0 < trail.atomLevel literal.atom)
    (top : trail.level ≤ trail.atomLevel literal.atom) :
    exploration.consider trail literal =
      { exploration with
        marks := exploration.marks.setIfInBounds literal.atom true
        pending := exploration.pending + 1
        touched := exploration.touched.push literal.atom } := by
  unfold consider
  rw [if_pos (by simpa [marked] using And.intro fresh positive), if_pos top]

/-- A fresh literal of another level joins the lower ones. -/
theorem considerLower {trail : Trail} {exploration : Exploration} {literal : Literal}
    (fresh : ¬exploration.marked literal.atom) (positive : 0 < trail.atomLevel literal.atom)
    (below : ¬trail.level ≤ trail.atomLevel literal.atom) :
    exploration.consider trail literal =
      { exploration with
        marks := exploration.marks.setIfInBounds literal.atom true
        lower := exploration.lower.push literal
        touched := exploration.touched.push literal.atom } := by
  unfold consider
  rw [if_pos (by simpa [marked] using And.intro fresh positive), if_neg below]

section Consider

variable {trail : Trail} (coherent : trail.Coherent) {position : Nat} {exploration : Exploration}
  (marking : Marking trail position exploration)
include coherent marking

/-- A new mark is set for the considered atom and for no other one. -/
theorem markedFresh {literal : Literal} (member : literal.negate ∈ trail.literals.toList)
    (fresh : ¬exploration.marked literal.atom) (positive : 0 < trail.atomLevel literal.atom)
    (atom : Nat) : (exploration.consider trail literal).marked atom ↔
      exploration.marked atom ∨ atom = literal.atom := by
  have inside : literal.atom < exploration.marks.size := by
    rw [marking.width]
    exact (coherent.inside member : literal.negate.atom < trail.atoms.size)
  have marks : (exploration.consider trail literal).marks =
      exploration.marks.setIfInBounds literal.atom true := by
    unfold consider
    rw [if_pos (by simpa [marked] using And.intro fresh positive)]
    split <;> rfl
  rw [marked, marks, marksSet, marked]
  by_cases same : literal.atom = atom
  · simp [same, same ▸ inside]
  · simp [same, Ne.symm same]

/-- The touched atoms exist, the fresh one among them. -/
theorem touchedFresh {literal : Literal} (initial : literal.negate ∈ trail.initial position)
    {atom : Nat}
    (touched : atom ∈ (exploration.touched.push literal.atom).toList) :
    atom < trail.atoms.size := by
  rw [Array.toList_push, List.mem_append, List.mem_singleton] at touched
  rcases touched with old | rfl
  · exact marking.touched atom old
  · exact (coherent.inside (Trail.initialMember initial) : literal.negate.atom < trail.atoms.size)

section Fresh

variable {literal : Literal} (initial : literal.negate ∈ trail.initial position)
  (fresh : ¬exploration.marked literal.atom) (positive : 0 < trail.atomLevel literal.atom)
include initial fresh positive

theorem pendingMarking (top : trail.level ≤ trail.atomLevel literal.atom) :
    Marking trail position (exploration.consider trail literal) := by
  obtain ⟨points, nodup, length, pending⟩ := marking.pending
  have marks := markedFresh coherent marking (Trail.initialMember initial) fresh positive
  rw [considerPending fresh positive top] at marks ⊢
  refine ⟨by simpa using marking.width, ⟨literal.atom :: points, ?_, by simp [length], ?_⟩, ?_,
    ?_, marking.distinct, marking.falsified,
    fun _ => touchedFresh coherent marking initial⟩
  · exact List.nodup_cons.2 ⟨fun listed => fresh ((pending _).1 listed).1, nodup⟩
  · intro atom
    rw [List.mem_cons, marks, pending]
    by_cases same : atom = literal.atom
    · simp [same, top]
    · simp [same]
  · intro atom marked high
    rcases (marks atom).1 marked with old | rfl
    · exact marking.listed atom old high
    · exact ⟨literal.negate, initial, rfl⟩
  · intro atom
    rw [marks]
    change atom ∈ exploration.lower.toList.map Literal.atom ↔ _
    rw [marking.lower]
    by_cases same : atom = literal.atom
    · simp [same, Nat.not_lt.2 top]
    · simp [same]

theorem lowerMarking (below : ¬trail.level ≤ trail.atomLevel literal.atom) :
    Marking trail position (exploration.consider trail literal) := by
  obtain ⟨points, nodup, length, pending⟩ := marking.pending
  have marks := markedFresh coherent marking (Trail.initialMember initial) fresh positive
  rw [considerLower fresh positive below] at marks ⊢
  refine ⟨by simpa using marking.width, ⟨points, nodup, length, ?_⟩, ?_, ?_, ?_, ?_,
    fun _ => touchedFresh coherent marking initial⟩
  · intro atom
    rw [marks, pending]
    by_cases same : atom = literal.atom
    · simp [same, below]
    · simp [same]
  · intro atom marked high
    rcases (marks atom).1 marked with old | rfl
    · exact marking.listed atom old high
    · exact absurd high below
  · intro atom
    rw [marks, Array.toList_push, List.map_append, List.mem_append, marking.lower]
    by_cases same : atom = literal.atom
    · simp [same, Nat.not_le.1 below]
    · simp [same]
  · rw [Array.toList_push, List.map_append, List.nodup_append]
    refine ⟨marking.distinct, by simp, ?_⟩
    intro first old second last same
    rw [List.map_cons, List.map_nil, List.mem_singleton] at last
    subst last
    exact fresh ((marking.lower _).1 (same ▸ old)).1
  · intro other listed
    rw [Array.toList_push, List.mem_append, List.mem_singleton] at listed
    rcases listed with old | rfl
    · exact marking.falsified other old
    · exact ⟨Trail.initialMember initial, positive⟩

end Fresh

/-- Considering a literal marks its atom unless it belongs to the root level. -/
theorem considerMarking {literal : Literal} (initial : literal.negate ∈ trail.initial position) :
    Marking trail position (exploration.consider trail literal) ∧
      (∀ atom, exploration.marked atom → (exploration.consider trail literal).marked atom) ∧
      (0 < trail.atomLevel literal.atom →
        (exploration.consider trail literal).marked literal.atom) := by
  by_cases skip : exploration.marked literal.atom ∨ trail.atomLevel literal.atom = 0
  · rw [considerSkip skip]
    exact ⟨marking, fun _ marked => marked, fun positive => skip.resolve_right (by omega)⟩
  · obtain ⟨fresh, root⟩ := not_or.1 skip
    have positive : 0 < trail.atomLevel literal.atom := by omega
    have marks := markedFresh coherent marking (Trail.initialMember initial) fresh positive
    refine ⟨?_, fun atom marked => (marks atom).2 (Or.inl marked),
      fun _ => (marks literal.atom).2 (Or.inr rfl)⟩
    by_cases top : trail.level ≤ trail.atomLevel literal.atom
    · exact pendingMarking coherent marking initial fresh positive top
    · exact lowerMarking coherent marking initial fresh positive top

theorem considerAllMarking {literals : List Literal}
    (initial : ∀ literal ∈ literals, literal.negate ∈ trail.initial position) :
    Marking trail position (exploration.considerAll trail literals) ∧
      (∀ atom, exploration.marked atom → (exploration.considerAll trail literals).marked atom) ∧
      ∀ literal ∈ literals, 0 < trail.atomLevel literal.atom →
        (exploration.considerAll trail literals).marked literal.atom := by
  unfold considerAll
  induction literals generalizing exploration with
  | nil => exact ⟨marking, fun _ marked => marked, by simp⟩
  | cons first rest inductionHypothesis =>
      obtain ⟨firstMarking, firstKept, firstMarked⟩ :=
        considerMarking coherent marking (initial first List.mem_cons_self)
      obtain ⟨restMarking, restKept, restMarked⟩ :=
        inductionHypothesis firstMarking fun literal member =>
          initial literal (List.mem_cons_of_mem _ member)
      refine ⟨restMarking, fun atom marked => restKept atom (firstKept atom marked), ?_⟩
      intro literal member positive
      rcases List.mem_cons.1 member with rfl | inRest
      · exact restKept _ (firstMarked positive)
      · exact restMarked literal inRest positive

end Consider

theorem markedUnmark (exploration : Exploration) (atom other : Nat) :
    (exploration.unmark atom).marked other ↔ other ≠ atom ∧ exploration.marked other := by
  rw [marked, unmark, marksSet, marked]
  by_cases same : atom = other
  · subst same
    by_cases inside : atom < exploration.marks.size
    · simp [inside]
    · simp [inside, Array.getD]
  · simp [same, Ne.symm same]

/-- The clause forces the negation of the implication point once the conflict level is undone. -/
structure Resolved (models : (Nat → Bool) → Prop) (trail : Trail) (point : Literal)
    (exploration : Exploration) : Prop where
  member : point ∈ trail.literals.toList
  level : trail.atomLevel point.atom = trail.level
  width : exploration.marks.size = trail.atoms.size
  marked : ∀ atom, exploration.marked atom ↔ atom ∈ exploration.lower.toList.map Literal.atom
  distinct : (exploration.lower.toList.map Literal.atom).Nodup
  falsified : ∀ literal ∈ exploration.lower.toList, literal.negate ∈ trail.literals.toList ∧
    0 < trail.atomLevel literal.atom ∧ trail.atomLevel literal.atom < trail.level
  touched : ∀ atom ∈ exploration.touched.toList, atom < trail.atoms.size
  derives : ∀ assignment, models assignment → point.holds assignment = false ∨
    ∃ literal ∈ trail.literals.toList,
      exploration.marked literal.atom ∧ literal.holds assignment = false

/-- With two pending atoms there is another one besides any given one. -/
theorem otherPending {trail : Trail} {position : Nat} {exploration : Exploration}
    (marking : Marking trail position exploration) (many : 2 ≤ exploration.pending) (given : Nat) :
    ∃ atom, exploration.marked atom ∧ trail.level ≤ trail.atomLevel atom ∧ atom ≠ given := by
  obtain ⟨points, nodup, length, listed⟩ := marking.pending
  match points, length, nodup, listed with
  | [], length, _, _ => exact absurd length (by simp only [List.length_nil]; omega)
  | [_], length, _, _ =>
      exact absurd length (by simp only [List.length_cons, List.length_nil]; omega)
  | first :: second :: rest, _, nodup, listed =>
      by_cases same : first = given
      · obtain ⟨old, above⟩ := (listed second).1 (by simp)
        refine ⟨second, old, above, fun equal => ?_⟩
        simp [same, equal] at nodup
      · obtain ⟨old, above⟩ := (listed first).1 (by simp)
        exact ⟨first, old, above, same⟩

section Resolve

variable {network : Network} {index : Nat} {literal : Literal}
  (found : network.trail.literals.toList[index]? = some literal) {exploration : Exploration}
  (marking : Marking network.trail (index + 1) exploration)
include found marking

/-- An unmarked literal can be passed. -/
theorem passMarking (absent : ¬exploration.marked literal.atom) :
    Marking network.trail index exploration := by
  refine ⟨marking.width, marking.pending, fun atom marked high => ?_, marking.lower,
    marking.distinct, marking.falsified, marking.touched⟩
  obtain ⟨other, initial, rfl⟩ := marking.listed atom marked high
  refine ⟨other, ((Trail.memberInitialSucc found).1 initial).resolve_right ?_, rfl⟩
  rintro rfl
  exact absent marked

/-- Without its last marked literal the marking belongs to the earlier position. -/
theorem unmarkMarking (marked : exploration.marked literal.atom)
    (high : network.trail.level ≤ network.trail.atomLevel literal.atom) {pending : Nat}
    (many : exploration.pending = pending + 1) :
    Marking network.trail index { exploration.unmark literal.atom with pending } := by
  obtain ⟨points, nodup, length, listed⟩ := marking.pending
  have own : literal.atom ∈ points := (listed _).2 ⟨marked, high⟩
  have marks (atom : Nat) :
      Exploration.marked { exploration.unmark literal.atom with pending } atom ↔
        atom ≠ literal.atom ∧ exploration.marked atom := markedUnmark exploration literal.atom atom
  refine ⟨?_, ⟨points.erase literal.atom, nodup.erase _, ?_, ?_⟩, ?_, ?_, marking.distinct,
    marking.falsified, marking.touched⟩
  · simpa [unmark] using marking.width
  · rw [List.length_erase_of_mem own, length, many]
    rfl
  · intro atom
    rw [nodup.mem_erase_iff, listed, marks, and_assoc]
  · intro atom still above
    obtain ⟨different, old⟩ := (marks atom).1 still
    obtain ⟨other, initial, rfl⟩ := marking.listed atom old above
    refine ⟨other, ((Trail.memberInitialSucc found).1 initial).resolve_right ?_, rfl⟩
    rintro rfl
    exact different rfl
  · intro atom
    rw [marks]
    change atom ∈ exploration.lower.toList.map Literal.atom ↔ _
    rw [marking.lower]
    by_cases same : atom = literal.atom
    · simp [same, Nat.not_lt.2 high]
    · simp [same]

variable (shaped : network.Shaped)
include shaped

/-- While an atom of the conflict level is marked, the last marked literal is one of that level. -/
theorem lastLevel {atom : Nat} (marked : exploration.marked atom)
    (high : network.trail.level ≤ network.trail.atomLevel atom) :
    network.trail.atomLevel literal.atom = network.trail.level := by
  obtain ⟨other, initial, rfl⟩ := marking.listed atom marked high
  obtain ⟨position, below, atPosition⟩ := Trail.memberInitial.1 initial
  have coherent := shaped.trail
  rw [coherent.levels position other atPosition] at high
  have last := coherent.levels index literal found
  have rising : network.trail.levelAt position ≤ network.trail.levelAt index :=
    Trail.levelAtMono (by omega)
  have bounded := network.trail.levelAtLe index
  omega

/-- A decision is the first literal of its level. -/
theorem notDecision {atom : Nat} (marked : exploration.marked atom)
    (high : network.trail.level ≤ network.trail.atomLevel atom) (different : atom ≠ literal.atom) :
    index ∉ network.trail.limits.toList := by
  obtain ⟨other, initial, rfl⟩ := marking.listed atom marked high
  obtain ⟨position, below, atPosition⟩ := Trail.memberInitial.1 initial
  have before : position < index := by
    have apart : position ≠ index := by
      rintro rfl
      rw [found] at atPosition
      exact different (congrArg Literal.atom (Option.some.inj atPosition).symm)
    omega
  rw [shaped.trail.levels position other atPosition] at high
  intro limit
  have all := List.countP_eq_length.1 (Nat.le_antisymm List.countP_le_length (by
    rw [Trail.levelAt, Trail.level, ← Array.length_toList] at high
    exact high))
  have early := all index limit
  simp only [decide_eq_true_eq] at early
  omega

/-- The last pending literal is the implication point. -/
theorem resolvedPoint {models : (Nat → Bool) → Prop}
    (marked : exploration.marked literal.atom)
    (level : network.trail.atomLevel literal.atom = network.trail.level)
    (single : exploration.pending = 1) (derives : Derives models network.trail exploration) :
    Resolved models network.trail literal (exploration.unmark literal.atom) := by
  obtain ⟨points, nodup, length, listed⟩ := marking.pending
  have own : literal.atom ∈ points := (listed _).2 ⟨marked, Nat.le_of_eq level.symm⟩
  have only (atom : Nat) (old : exploration.marked atom)
      (high : network.trail.level ≤ network.trail.atomLevel atom) : atom = literal.atom := by
    rw [single] at length
    obtain ⟨point, rfl⟩ := List.length_eq_one_iff.1 length
    rw [List.mem_singleton] at own
    rw [own]
    exact List.mem_singleton.1 ((listed atom).2 ⟨old, high⟩)
  refine ⟨List.mem_of_getElem? found, level, ?_, ?_, marking.distinct, ?_, marking.touched, ?_⟩
  · simpa [unmark] using marking.width
  · intro atom
    rw [markedUnmark]
    change _ ↔ atom ∈ exploration.lower.toList.map Literal.atom
    rw [marking.lower]
    constructor
    · rintro ⟨different, old⟩
      refine ⟨old, Nat.lt_of_not_le fun high => different (only atom old high)⟩
    · rintro ⟨old, below⟩
      refine ⟨?_, old⟩
      rintro rfl
      omega
  · intro other member
    obtain ⟨isFalse, positive⟩ := marking.falsified other member
    exact ⟨isFalse, positive, ((marking.lower _).1 (List.mem_map.2 ⟨other, member, rfl⟩)).2⟩
  · intro assignment model
    obtain ⟨other, member, old, wrong⟩ := derives assignment model
    by_cases same : other.atom = literal.atom
    · rw [← shaped.trail.unique member (List.mem_of_getElem? found) same]
      exact Or.inl wrong
    · exact Or.inr ⟨other, member, (markedUnmark _ _ _).2 ⟨same, old⟩, wrong⟩

/-- A pending literal gives way to the literals that explain it. -/
theorem resolveReason {models : (Nat → Bool) → Prop} (sound : network.Sound models)
    (marked : exploration.marked literal.atom)
    (level : network.trail.atomLevel literal.atom = network.trail.level) {pending : Nat}
    (many : exploration.pending = pending + 2) {reason : Reason}
    (forced : network.Forces index literal reason)
    (derives : Derives models network.trail exploration) :
    let next := considerAll network.trail
      { exploration.unmark literal.atom with pending := pending + 1 }
      (network.explain (some literal.atom) reason)
    Marking network.trail index next ∧
      (∃ atom, next.marked atom ∧ network.trail.level ≤ network.trail.atomLevel atom) ∧
      Derives models network.trail next := by
  intro next
  have coherent := shaped.trail
  have high := Nat.le_of_eq level.symm
  have without := unmarkMarking found marking marked high many
  obtain ⟨considered, kept, fresh⟩ := considerAllMarking coherent without
    (Network.reasonFalse shaped forced)
  have still (atom : Nat) (old : exploration.marked atom) (different : atom ≠ literal.atom) :
      next.marked atom :=
    kept atom ((markedUnmark exploration literal.atom atom).2 ⟨different, old⟩)
  refine ⟨considered, ?_, fun assignment model => ?_⟩
  · obtain ⟨atom, old, above, different⟩ := otherPending marking (by omega) literal.atom
    exact ⟨atom, still atom old different, above⟩
  · obtain ⟨other, member, old, wrong⟩ := derives assignment model
    by_cases same : other.atom = literal.atom
    · have equal := coherent.unique member (List.mem_of_getElem? found) same
      subst equal
      have explained := Network.reasonHolds shaped forced member (sound.reason model forced) wrong
      rw [Clause.holds, List.any_eq_true] at explained
      obtain ⟨cause, listed, isTrue⟩ := explained
      have causeMember := Trail.initialMember (Network.reasonFalse shaped forced cause listed)
      have isFalse : cause.negate.holds assignment = false := by simp [isTrue]
      refine ⟨cause.negate, causeMember, fresh cause listed ?_, isFalse⟩
      -- The literals of the root level hold in every model.
      apply Nat.pos_of_ne_zero
      intro root
      have holds := sound.root assignment model cause.negate causeMember root
      rw [isFalse] at holds
      contradiction
    · exact ⟨other, member, still other.atom old same, wrong⟩

end Resolve

section Resolve

variable {network : Network} {exploration : Exploration} {index : Nat} {literal : Literal}
  (current : network.trail.literals.getD index default = literal)
  (marked : exploration.marked literal.atom)
include current marked

/-- The last pending literal is the point that the conflict goes through. -/
theorem resolveLast (many : exploration.pending = 1) :
    resolve network (index + 1) exploration = (some literal, exploration.unmark literal.atom) := by
  have last : (exploration.unmark literal.atom).pending = 1 := many
  have isMarked : exploration.marks.getD literal.atom false = true := marked
  rw [resolve, current]
  simp only [isMarked, if_true, last]

/-- A literal that is pending together with others gives way to its reason. -/
theorem resolveFurther {pending : Nat} {reason : Reason} (many : exploration.pending = pending + 2)
    (known : network.trail.reason literal.atom = some reason) :
    resolve network (index + 1) exploration =
      resolve network index
        (considerAll network.trail { exploration.unmark literal.atom with pending := pending + 1 }
          (network.explain (some literal.atom) reason)) := by
  have several : (exploration.unmark literal.atom).pending = pending + 2 := many
  have isMarked : exploration.marks.getD literal.atom false = true := marked
  rw [resolve, current]
  simp only [isMarked, if_true, several, known]

end Resolve

/-- The walk along the trail always ends at an implication point. -/
theorem resolveSpec {models : (Nat → Bool) → Prop} {network : Network} (shaped : network.Shaped)
    (sound : network.Sound models) (deep : 0 < network.trail.level) (position : Nat)
    (inside : position ≤ network.trail.literals.size) (exploration : Exploration)
    (marking : Marking network.trail position exploration)
    (open_ : ∃ atom, exploration.marked atom ∧
      network.trail.level ≤ network.trail.atomLevel atom)
    (derives : Derives models network.trail exploration) :
    ∃ point final, resolve network position exploration = (some point, final) ∧
      Resolved models network.trail point final := by
  have coherent := shaped.trail
  induction position generalizing exploration with
  | zero =>
      obtain ⟨atom, marked, high⟩ := open_
      obtain ⟨literal, initial, -⟩ := marking.listed atom marked high
      simp [Trail.initial] at initial
  | succ index inductionHypothesis =>
      obtain ⟨atom, marked, high⟩ := open_
      have below : index < network.trail.literals.toList.length := by
        rw [Array.length_toList]
        omega
      obtain ⟨literal, found⟩ : ∃ literal, network.trail.literals.toList[index]? = some literal :=
        ⟨_, List.getElem?_eq_getElem below⟩
      have current : network.trail.literals.getD index default = literal := by
        rw [Array.getElem?_toList] at found
        rw [Array.getD_eq_getD_getElem?, found, Option.getD_some]
      by_cases here : exploration.marked literal.atom
      · have level := lastLevel found marking shaped marked high
        cases many : exploration.pending with
        | zero =>
            obtain ⟨points, nodup, length, listed⟩ := marking.pending
            rw [many] at length
            have own := (listed literal.atom).2 ⟨here, Nat.le_of_eq level.symm⟩
            rw [List.eq_nil_of_length_eq_zero length] at own
            exact absurd own List.not_mem_nil
        | succ rest =>
            cases rest with
            | zero =>
                exact ⟨literal, _, resolveLast current here many,
                  resolvedPoint found marking shaped here level many derives⟩
            | succ pending =>
                obtain ⟨other, otherMarked, otherHigh, different⟩ := otherPending marking
                  (by omega) literal.atom
                have justified := shaped.reasons index literal found
                cases known : network.trail.reason literal.atom with
                | none =>
                    rcases justified.free known with decision | root
                    · exact absurd decision
                        (notDecision found marking shaped otherMarked otherHigh different)
                    · rw [← shaped.trail.levels index literal found] at root
                      omega
                | some reason =>
                    obtain ⟨next, nextOpen, nextDerives⟩ := resolveReason found marking shaped sound
                      here level many (justified.forced known).2 derives
                    rw [resolveFurther current here many known]
                    exact inductionHypothesis (by omega) _ next nextOpen nextDerives
      · have isUnmarked : exploration.marks.getD literal.atom false = false := by
          simpa [Exploration.marked] using here
        rw [resolve, current]
        simp only [isUnmarked, Bool.false_eq_true, if_false]
        exact inductionHypothesis (by omega) exploration (passMarking found marking here)
          ⟨atom, marked, high⟩ derives

end Exploration

namespace Analysis

/-- The last of the greatest keys is found among the literals or is the best one so far. -/
theorem lastMaximumSpec (key : Literal → Nat) (literals : List Literal)
    (index best bestKey : Nat) :
    ∃ greatest, bestKey ≤ greatest ∧ (∀ literal ∈ literals, key literal ≤ greatest) ∧
      ((lastMaximum key literals index best bestKey = best ∧ greatest = bestKey) ∨
        ∃ position literal, lastMaximum key literals index best bestKey = index + position ∧
          literals[position]? = some literal ∧ key literal = greatest) := by
  induction literals generalizing index best bestKey with
  | nil => exact ⟨bestKey, Nat.le_refl _, by simp, Or.inl ⟨rfl, rfl⟩⟩
  | cons first rest inductionHypothesis =>
      rw [lastMaximum]
      by_cases better : bestKey ≤ key first
      · rw [if_pos better]
        obtain ⟨greatest, atLeast, all, found⟩ := inductionHypothesis (index + 1) index (key first)
        refine ⟨greatest, Nat.le_trans better atLeast, ?_, Or.inr ?_⟩
        · intro literal member
          rcases List.mem_cons.1 member with rfl | inRest
          · exact atLeast
          · exact all literal inRest
        · rcases found with ⟨same, equal⟩ | ⟨position, literal, same, atPosition, equal⟩
          · exact ⟨0, first, by simpa using same, by simp, equal.symm⟩
          · exact ⟨position + 1, literal, by omega, by simpa using atPosition, equal⟩
      · rw [if_neg better]
        obtain ⟨greatest, atLeast, all, found⟩ := inductionHypothesis (index + 1) best bestKey
        refine ⟨greatest, atLeast, ?_, ?_⟩
        · intro literal member
          rcases List.mem_cons.1 member with rfl | inRest
          · omega
          · exact all literal inRest
        · rcases found with same | ⟨position, literal, same, atPosition, equal⟩
          · exact Or.inl same
          · exact Or.inr ⟨position + 1, literal, by omega, by simpa using atPosition, equal⟩

theorem promotePerm (key : Literal → Nat) (lower : Array Literal) :
    List.Perm (promote key lower).toList lower.toList := by
  unfold promote Array.swapIfInBounds
  split
  · split
    · exact (Array.swap_perm _ _).toList
    · exact List.Perm.refl _
  · exact List.Perm.refl _

/-- The maximum is found at a place of the array. -/
theorem lastMaximumInside (key : Literal → Nat) {lower : Array Literal} (size : 0 < lower.size) :
    ∃ inside : lastMaximum key lower.toList 0 0 0 < lower.size,
      ∀ literal ∈ lower.toList, key literal ≤ key lower[lastMaximum key lower.toList 0 0 0] := by
  obtain ⟨greatest, -, all, found⟩ := lastMaximumSpec key lower.toList 0 0 0
  -- Without a positive key the first literal stays where it is.
  rcases found with ⟨zero, equal⟩ | ⟨position, literal, equal, atPosition, own⟩
  · have none (literal : Literal) (member : literal ∈ lower.toList) : key literal = 0 := by
      have below := all literal member
      omega
    rw [zero]
    refine ⟨size, fun literal member => ?_⟩
    rw [none literal member]
    exact Nat.zero_le _
  · rw [Nat.zero_add] at equal
    rw [Array.getElem?_toList, Array.getElem?_eq_some_iff] at atPosition
    obtain ⟨inside, isLiteral⟩ := atPosition
    rw [← equal] at inside
    refine ⟨inside, fun other member => ?_⟩
    simp only [equal, isLiteral, own]
    exact all other member

/-- The first literal after the promotion has the greatest key. -/
theorem promoteFirst (key : Literal → Nat) {lower : Array Literal} {first : Literal}
    {rest : List Literal} (same : (promote key lower).toList = first :: rest) :
    ∀ literal ∈ lower.toList, key literal ≤ key first := by
  have size : 0 < lower.size := by
    have lengths := (promotePerm key lower).length_eq
    rw [same, List.length_cons] at lengths
    rw [← Array.length_toList]
    omega
  obtain ⟨inside, greatest⟩ := lastMaximumInside key size
  have isFirst : lower[lastMaximum key lower.toList 0 0 0] = first := by
    have head := congrArg List.head? same
    rw [List.head?_cons, List.head?_eq_getElem?, Array.getElem?_toList, promote,
      Array.getElem?_eq_getElem (by simpa using size),
      Array.getElem_swapIfInBounds_left inside] at head
    exact Option.some.inj head
  rwa [isFirst] at greatest

/-- The clause forces the negation of its implication point at the level it returns to. -/
structure Asserting (models : (Nat → Bool) → Prop) (trail : Trail) (point : Literal)
    (rest : List Literal) (analysis : Analysis) : Prop where
  literals : analysis.literals = point.negate :: rest
  member : point ∈ trail.literals.toList
  level : trail.atomLevel point.atom = trail.level
  returns : analysis.returnLevel < trail.level
  falsified : ∀ literal ∈ rest, literal.negate ∈ trail.literals.toList ∧
    trail.atomLevel literal.atom ≤ analysis.returnLevel
  positive : ∀ literal ∈ rest, 0 < trail.atomLevel literal.atom
  unit : rest = [] → analysis.returnLevel = 0
  second : ∀ literal others, rest = literal :: others →
    trail.atomLevel literal.atom = analysis.returnLevel ∧ 0 < analysis.returnLevel
  distinct : (analysis.literals.map Literal.atom).Nodup
  entailed : ∀ assignment, models assignment → Clause.holds assignment analysis.literals = true
  glue : analysis.glue = distinctLevels trail analysis.literals
  touched : ∀ atom ∈ analysis.touched, atom < trail.atoms.size

/-- The assembled clause has the negation of the point and the lower literals. -/
theorem assembleAsserting {models : (Nat → Bool) → Prop} {trail : Trail}
    (coherent : trail.Coherent) (deep : 0 < trail.level) {point : Literal}
    {exploration : Exploration} (resolved : Exploration.Resolved models trail point exploration) :
    ∃ rest, Asserting models trail point rest (assemble trail point exploration) := by
  let key := fun literal : Literal => trail.atomLevel literal.atom
  have permuted := promotePerm key exploration.lower
  have first {literal : Literal} {others : List Literal}
      (same : (promote key exploration.lower).toList = literal :: others) :=
    promoteFirst key same
  refine ⟨(promote key exploration.lower).toList, ?_⟩
  generalize same : (promote key exploration.lower).toList = lower at permuted first
  have literals : (assemble trail point exploration).literals = point.negate :: lower := by
    rw [← same]
    rfl
  have returnLevel : (assemble trail point exploration).returnLevel =
      (lower.head?.map key).getD 0 := by
    rw [← same]
    rfl
  have falsified (literal : Literal) (member : literal ∈ lower) :=
    resolved.falsified literal (permuted.mem_iff.1 member)
  have glue : (assemble trail point exploration).glue =
      distinctLevels trail (assemble trail point exploration).literals := rfl
  refine ⟨literals, resolved.member, resolved.level, ?_, ?_,
    fun literal member => (falsified literal member).2.1, ?_, ?_, ?_, ?_, glue, resolved.touched⟩
  · rw [returnLevel]
    cases lower with
    | nil => exact deep
    | cons second others => exact (falsified second List.mem_cons_self).2.2
  · intro literal member
    refine ⟨(falsified literal member).1, ?_⟩
    rw [returnLevel]
    cases lower with
    | nil => exact absurd member List.not_mem_nil
    | cons second others => exact first rfl literal (permuted.mem_iff.1 member)
  · rintro rfl
    exact returnLevel
  · rintro literal others rfl
    rw [returnLevel]
    exact ⟨rfl, (falsified literal List.mem_cons_self).2.1⟩
  · rw [literals, List.map_cons, List.nodup_cons]
    refine ⟨fun member => ?_, (permuted.map _).nodup_iff.2 resolved.distinct⟩
    obtain ⟨literal, inside, equal⟩ := List.mem_map.1 member
    have below := (falsified literal inside).2.2
    rw [equal, Literal.atomNegate, resolved.level] at below
    exact Nat.lt_irrefl _ below
  · intro assignment model
    rw [literals, Clause.holds, List.any_eq_true]
    rcases resolved.derives assignment model with wrong | ⟨other, member, marked, wrong⟩
    · exact ⟨point.negate, List.mem_cons_self, by simp [wrong]⟩
    · obtain ⟨literal, inside, equal⟩ := List.mem_map.1 ((resolved.marked _).1 marked)
      have onTrail := (resolved.falsified literal inside).1
      have negated : literal.negate = other := coherent.unique onTrail member equal
      refine ⟨literal, List.mem_cons_of_mem _ (permuted.mem_iff.2 inside), ?_⟩
      rw [← negated] at wrong
      simpa using wrong

end Analysis

theorem Exploration.clearAll (literals : List Literal) (marks : Array Bool) (atom : Nat) :
    (literals.foldl (fun marks literal => marks.setIfInBounds literal.atom false) marks).getD atom
        false =
      if atom ∈ literals.map Literal.atom then false else marks.getD atom false := by
  induction literals generalizing marks with
  | nil => simp
  | cons first rest inductionHypothesis =>
      rw [List.foldl_cons, inductionHypothesis, marksSet, List.map_cons]
      by_cases inRest : atom ∈ rest.map Literal.atom
      · simp [inRest]
      · by_cases same : first.atom = atom
        · subst same
          by_cases inside : first.atom < marks.size
          · simp [inside]
          · simp [inside, Array.getD]
        · simp [inRest, same, Ne.symm same]

theorem Exploration.clearSize (literals : List Literal) (marks : Array Bool) :
    (literals.foldl (fun marks literal => marks.setIfInBounds literal.atom false) marks).size =
      marks.size := by
  induction literals generalizing marks with
  | nil => rfl
  | cons first rest inductionHypothesis =>
      rw [List.foldl_cons, inductionHypothesis, Array.size_setIfInBounds]

/-- No atom is marked between two analyses. -/
structure Network.Unmarked (network : Network) (marks : Array Bool) : Prop where
  width : marks.size = network.atomCount
  clear : ∀ atom, marks.getD atom false = false

/-- An exploration without marks has nothing pending. -/
theorem Network.Unmarked.marking {network : Network} {marks : Array Bool}
    (unmarked : network.Unmarked marks) :
    (∀ atom, ¬Exploration.marked ⟨marks, 0, #[], #[]⟩ atom) ∧
      Exploration.Marking network.trail network.trail.literals.size ⟨marks, 0, #[], #[]⟩ := by
  have clear (atom : Nat) : ¬Exploration.marked ⟨marks, 0, #[], #[]⟩ atom := by
    rw [Exploration.marked, unmarked.clear]
    exact Bool.false_ne_true
  refine ⟨clear, unmarked.width, ⟨[], List.nodup_nil, rfl, ?_⟩, ?_, ?_, List.nodup_nil, by simp,
    by simp⟩
  · exact fun atom => ⟨by simp, fun both => absurd both.1 (clear atom)⟩
  · exact fun atom marked => absurd marked (clear atom)
  · exact fun atom => ⟨by simp, fun both => absurd both.1 (clear atom)⟩

/-- The causes of a conflict are marked first, and one of them is at the current level. -/
theorem Network.conflictMarking {network : Network} (stable : network.Stable)
    (deep : 0 < network.trail.level) {conflict : Reason} (violated : network.Violated conflict)
    {exploration : Exploration}
    (marking : Exploration.Marking network.trail network.trail.literals.size exploration) :
    let start := Exploration.considerAll network.trail exploration (network.explain none conflict)
    Exploration.Marking network.trail network.trail.literals.size start ∧
      (∃ atom, start.marked atom ∧ network.trail.level ≤ network.trail.atomLevel atom) ∧
      ∀ literal ∈ network.explain none conflict, 0 < network.trail.atomLevel literal.atom →
        start.marked literal.atom := by
  intro start
  have initial : ∀ literal ∈ network.explain none conflict,
      literal.negate ∈ network.trail.initial network.trail.literals.size := by
    rw [Trail.initialAll _ (Nat.le_refl _)]
    exact conflictFalse stable.shaped violated
  obtain ⟨started, -, fresh⟩ :=
    Exploration.considerAllMarking stable.shaped.trail marking initial
  obtain ⟨literal, member, high⟩ := conflictCurrent stable deep violated
  exact ⟨started, ⟨literal.atom, fresh literal member (by omega), high⟩, fresh⟩

/-- The analysis of a conflict above the root level always learns a clause. -/
theorem Network.analyzeSpec {models : (Nat → Bool) → Prop} {network : Network}
    (stable : network.Stable) (sound : network.Sound models) (deep : 0 < network.trail.level)
    {conflict : Reason} (violated : network.Violated conflict) {marks : Array Bool}
    (unmarked : network.Unmarked marks) :
    ∃ analysis point rest, (network.analyze marks conflict).1 = some analysis ∧
      Analysis.Asserting models network.trail point rest analysis ∧
      network.Unmarked (network.analyze marks conflict).2 := by
  have shaped := stable.shaped
  have coherent := shaped.trail
  have isFalse := conflictFalse shaped violated
  obtain ⟨marking, open_, fresh⟩ := conflictMarking stable deep violated unmarked.marking.2
  obtain ⟨point, final, same, resolved⟩ := Exploration.resolveSpec shaped sound deep
    network.trail.literals.size (Nat.le_refl _) _ marking open_ (by
      intro assignment model
      have holds := conflictHolds shaped violated (sound.violated model violated)
      rw [Clause.holds, List.any_eq_true] at holds
      obtain ⟨literal, member, isTrue⟩ := holds
      have wrong : literal.negate.holds assignment = false := by simp [isTrue]
      refine ⟨literal.negate, isFalse literal member, fresh literal member ?_, wrong⟩
      apply Nat.pos_of_ne_zero
      intro root
      have right := sound.root assignment model literal.negate (isFalse literal member) root
      rw [wrong] at right
      contradiction)
  obtain ⟨rest, asserting⟩ := Analysis.assembleAsserting coherent deep resolved
  have cleared : (network.analyze marks conflict).2 = final.clearLower := by
    rw [analyze, same]
  refine ⟨_, point, rest, by rw [analyze, same], asserting, ?_, fun atom => ?_⟩
  · rw [cleared, Exploration.clearLower, Exploration.clearSize]
    exact resolved.width
  · rw [cleared, Exploration.clearLower, Exploration.clearAll]
    split
    · rfl
    · next absent =>
        have unmarked := mt (resolved.marked atom).1 absent
        simpa [Exploration.marked] using unmarked

end ParitySat
