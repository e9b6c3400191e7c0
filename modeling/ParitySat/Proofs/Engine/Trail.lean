/-
This file shows that the values, the levels and the order of the trail always agree.
-/

import ParitySat.Engine.Trail

namespace ParitySat

namespace Trail

/-- These literals are the first ones of the trail. -/
def initial (trail : Trail) (bound : Nat) : List Literal :=
  trail.literals.toList.take bound

/-- This function is the length of the trail up to the end of a level. -/
def boundary (trail : Trail) (level : Nat) : Nat :=
  trail.limits.getD level trail.literals.size

/-- The level of a position is the number of levels opened at it or before it. -/
def levelAt (trail : Trail) (position : Nat) : Nat :=
  trail.limits.toList.countP (· ≤ position)

/-- The values list exactly the literals of the trail, and levels rise along it.

Only literals of the current level wait for propagation. -/
structure Coherent (trail : Trail) : Prop where
  truth : ∀ literal, trail.value literal = some true ↔ literal ∈ trail.literals.toList
  distinct : (trail.literals.toList.map Literal.atom).Nodup
  ascending : trail.limits.toList.Pairwise (· ≤ ·)
  propagated : ∀ limit ∈ trail.limits.toList, limit ≤ trail.head
  bounded : trail.head ≤ trail.literals.size
  levels : ∀ position literal, trail.literals.toList[position]? = some literal →
    trail.atomLevel literal.atom = trail.levelAt position
  free : ∀ atom, trail.atomValue atom = none → trail.reason atom = none

theorem memberInitial {trail : Trail} {bound : Nat} {literal : Literal} :
    literal ∈ trail.initial bound ↔
      ∃ position, position < bound ∧ trail.literals.toList[position]? = some literal := by
  rw [initial, List.mem_take_iff_getElem]
  constructor
  · rintro ⟨position, inside, found⟩
    refine ⟨position, by omega, ?_⟩
    rw [← found, List.getElem?_eq_getElem]
  · rintro ⟨position, below, found⟩
    obtain ⟨inside, same⟩ := List.getElem?_eq_some_iff.1 found
    exact ⟨position, by omega, same⟩

theorem initialMember {trail : Trail} {bound : Nat} {literal : Literal}
    (member : literal ∈ trail.initial bound) : literal ∈ trail.literals.toList :=
  List.mem_of_mem_take member

theorem initialMono {trail : Trail} {low high : Nat} (below : low ≤ high) {literal : Literal}
    (member : literal ∈ trail.initial low) : literal ∈ trail.initial high := by
  rw [memberInitial] at member ⊢
  obtain ⟨position, inside, found⟩ := member
  exact ⟨position, by omega, found⟩

theorem initialAll (trail : Trail) {bound : Nat} (large : trail.literals.size ≤ bound) :
    trail.initial bound = trail.literals.toList :=
  List.take_of_length_le (by simpa using large)

theorem atomEnqueue (trail : Trail) (literal : Literal) (reason : Option Reason) (other : Nat) :
    (trail.enqueue literal reason).atom other =
      if literal.atom = other ∧ other < trail.atoms.size then
        { trail.atom other with
          value := some !literal.negated, level := trail.level, reason }
      else trail.atom other := by
  by_cases same : literal.atom = other
  · subst same
    by_cases inside : literal.atom < trail.atoms.size
    · simp [enqueue, atom, level, inside, Array.getElem_modify]
    · simp [enqueue, atom, inside]
  · simp [enqueue, atom, Array.getElem?_modify, same]

@[simp] theorem literalsEnqueue (trail : Trail) (literal : Literal) (reason : Option Reason) :
    (trail.enqueue literal reason).literals.toList = trail.literals.toList ++ [literal] := by
  simp [enqueue]

@[simp] theorem sizeEnqueue (trail : Trail) (literal : Literal) (reason : Option Reason) :
    (trail.enqueue literal reason).atoms.size = trail.atoms.size := by
  simp [enqueue]

@[simp] theorem headEnqueue (trail : Trail) (literal : Literal) (reason : Option Reason) :
    (trail.enqueue literal reason).head = trail.head := rfl

/-- An assignment leaves the beginning of the trail. -/
theorem initialEnqueue (trail : Trail) (literal : Literal) (reason : Option Reason) {bound : Nat}
    (below : bound ≤ trail.literals.size) :
    (trail.enqueue literal reason).initial bound = trail.initial bound := by
  rw [initial, literalsEnqueue, List.take_append_of_le_length (by simpa using below)]
  rfl

theorem valueEqAtomValue (trail : Trail) (literal : Literal) (truth : Bool) :
    trail.value literal = some truth ↔ trail.atomValue literal.atom = some (truth != literal.negated) := by
  unfold value
  rcases trail.atomValue literal.atom with _ | _ | _ <;> cases literal.negated <;> cases truth <;>
    decide

theorem valueNone (trail : Trail) (literal : Literal) :
    trail.value literal = none ↔ trail.atomValue literal.atom = none := by
  simp [value, Truth.flip]

namespace Coherent

variable {trail : Trail} (coherent : trail.Coherent)
include coherent

/-- A literal is false exactly if its negation is on the trail. -/
theorem falsehood (literal : Literal) :
    trail.value literal = some false ↔ literal.negate ∈ trail.literals.toList := by
  rw [← coherent.truth, valueEqAtomValue, valueEqAtomValue]
  simp

theorem known {literal : Literal} (member : literal ∈ trail.literals.toList) :
    trail.atomValue literal.atom = some !literal.negated := by
  have isTrue := (valueEqAtomValue trail literal true).1 ((coherent.truth literal).2 member)
  simpa using isTrue

/-- Every known value belongs to a literal of the trail. -/
theorem knownMember {atom : Nat} {truth : Bool} (known : trail.atomValue atom = some truth) :
    ⟨atom, !truth⟩ ∈ trail.literals.toList := by
  rw [← coherent.truth, valueEqAtomValue, known]
  simp

theorem inside {literal : Literal} (member : literal ∈ trail.literals.toList) :
    literal.atom < trail.atoms.size := by
  have known := coherent.known member
  by_cases inside : literal.atom < trail.atoms.size
  · exact inside
  · have outside : trail.atomValue literal.atom = none := by
      simp [atomValue, atom, inside]
    rw [outside] at known
    contradiction

theorem unique {first second : Literal} (firstMember : first ∈ trail.literals.toList)
    (secondMember : second ∈ trail.literals.toList) (same : first.atom = second.atom) :
    first = second := by
  have firstKnown := coherent.known firstMember
  have secondKnown := coherent.known secondMember
  rw [same, secondKnown] at firstKnown
  cases first
  cases second
  simp_all

/-- A literal and its negation are never both on the trail. -/
theorem consistent {literal : Literal} (member : literal ∈ trail.literals.toList) :
    literal.negate ∉ trail.literals.toList := by
  intro negated
  have same := coherent.unique member negated rfl
  have flipped := congrArg Literal.negated same
  simp at flipped

theorem undetermined {atom : Nat} (unknown : trail.atomValue atom = none) {literal : Literal}
    (member : literal ∈ trail.literals.toList) : literal.atom ≠ atom := by
  intro same
  have known := coherent.known member
  rw [same, unknown] at known
  contradiction

end Coherent

/-- In an ascending list the entries up to a bound come first. -/
theorem countAscending (limits : List Nat) (ascending : limits.Pairwise (· ≤ ·))
    (index position : Nat) (inside : index < limits.length) :
    limits.countP (· ≤ position) ≤ index ↔ position < limits[index] := by
  induction limits generalizing index with
  | nil => simp at inside
  | cons first rest inductionHypothesis =>
      obtain ⟨lowest, restAscending⟩ := List.pairwise_cons.1 ascending
      by_cases below : first ≤ position
      · rw [List.countP_cons_of_pos (by simpa using below)]
        cases index with
        | zero => simp [below]
        | succ index =>
            have tail := inductionHypothesis restAscending index (by simpa using inside)
            simpa using tail
      · have none : rest.countP (· ≤ position) = 0 := by
          rw [List.countP_eq_zero]
          intro limit member
          have above := lowest limit member
          simp only [decide_eq_true_eq]
          omega
        rw [List.countP_cons_of_neg (by simpa using below), none]
        cases index with
        | zero => simpa using below
        | succ index =>
            have restInside : index < rest.length := by simpa using inside
            have above := lowest rest[index] (List.getElem_mem restInside)
            simp only [List.getElem_cons_succ, Nat.zero_le, true_iff]
            omega

theorem levelAtLe (trail : Trail) (position : Nat) : trail.levelAt position ≤ trail.level := by
  have bound := List.countP_le_length (p := (· ≤ position)) (l := trail.limits.toList)
  simpa [levelAt, level] using bound

theorem levelAtMono {trail : Trail} {low high : Nat} (below : low ≤ high) :
    trail.levelAt low ≤ trail.levelAt high := by
  apply List.countP_mono_left
  intro limit _ early
  simp only [decide_eq_true_eq] at early ⊢
  omega

theorem boundaryInside {trail : Trail} {level : Nat} (inside : level < trail.level) :
    trail.boundary level = trail.levelStart level ∧
      trail.limits.toList[level]? = some (trail.boundary level) := by
  have bound : level < trail.limits.size := inside
  simp [boundary, levelStart, bound]

theorem boundaryOutside {trail : Trail} {level : Nat} (outside : trail.level ≤ level) :
    trail.boundary level = trail.literals.size := by
  have bound : ¬level < trail.limits.size := Nat.not_lt.2 outside
  simp [boundary, bound]

namespace Coherent

variable {trail : Trail} (coherent : trail.Coherent)
include coherent

theorem boundaryLe (level : Nat) : trail.boundary level ≤ trail.literals.size := by
  by_cases inside : level < trail.level
  · obtain ⟨-, found⟩ := boundaryInside inside
    have member := List.mem_of_getElem? found
    exact Nat.le_trans (coherent.propagated _ member) coherent.bounded
  · exact Nat.le_of_eq (boundaryOutside (Nat.le_of_not_lt inside))

/-- A position lies before the end of a level exactly if its own level is not greater. -/
theorem levelAtLeIff {position : Nat} (inside : position < trail.literals.size) (level : Nat) :
    trail.levelAt position ≤ level ↔ position < trail.boundary level := by
  by_cases open_ : level < trail.level
  · obtain ⟨-, found⟩ := boundaryInside open_
    obtain ⟨bound, same⟩ := List.getElem?_eq_some_iff.1 found
    rw [← same]
    exact countAscending _ coherent.ascending level position bound
  · rw [boundaryOutside (by omega)]
    have bound := trail.levelAtLe position
    omega

/-- The literals up to the end of a level are those whose atoms have no greater level. -/
theorem memberBoundary {level : Nat} {literal : Literal} :
    literal ∈ trail.initial (trail.boundary level) ↔
      literal ∈ trail.literals.toList ∧ trail.atomLevel literal.atom ≤ level := by
  rw [memberInitial]
  constructor
  · rintro ⟨position, below, found⟩
    obtain ⟨inside, -⟩ := List.getElem?_eq_some_iff.1 found
    refine ⟨List.mem_of_getElem? found, ?_⟩
    rw [coherent.levels position literal found]
    exact (coherent.levelAtLeIff (by simpa using inside) level).2 below
  · rintro ⟨member, below⟩
    obtain ⟨position, inside, found⟩ := List.mem_iff_getElem.1 member
    have atPosition : trail.literals.toList[position]? = some literal := by
      rw [List.getElem?_eq_getElem inside, found]
    rw [coherent.levels position literal atPosition] at below
    exact ⟨position, (coherent.levelAtLeIff (by simpa using inside) level).1 below, atPosition⟩

theorem levelLe {literal : Literal} (member : literal ∈ trail.literals.toList) :
    trail.atomLevel literal.atom ≤ trail.level := by
  obtain ⟨position, inside, found⟩ := List.mem_iff_getElem.1 member
  have atPosition : trail.literals.toList[position]? = some literal := by
    rw [List.getElem?_eq_getElem inside, found]
  rw [coherent.levels position literal atPosition]
  exact trail.levelAtLe position

/-- The trail never holds more literals than there are atoms. -/
theorem sizeLe : trail.literals.size ≤ trail.atoms.size := by
  have subset : trail.literals.toList.map Literal.atom ⊆ List.range trail.atoms.size := by
    intro atom member
    obtain ⟨literal, listed, rfl⟩ := List.mem_map.1 member
    exact List.mem_range.2 (coherent.inside listed)
  simpa using coherent.distinct.length_le_of_subset subset

/-- The literals that wait for propagation belong to the current level. -/
theorem levelPending {position : Nat} (pending : trail.head ≤ position) :
    trail.levelAt position = trail.level := by
  have all : trail.limits.toList.countP (· ≤ position) = trail.limits.toList.length := by
    rw [List.countP_eq_length]
    intro limit member
    have early := coherent.propagated limit member
    simp only [decide_eq_true_eq]
    omega
  simpa [levelAt, level] using all

end Coherent

theorem emptyCoherent : Trail.empty.Coherent where
  truth literal := by simp [value, atomValue, atom, empty, Truth.flip]
  distinct := by simp [empty]
  ascending := by simp [empty]
  propagated := by simp [empty]
  bounded := by simp [empty]
  levels := by simp [empty]
  free := by simp [reason, atom, empty]

@[simp] theorem atomGrow (trail : Trail) (other : Nat) : trail.grow.atom other = trail.atom other := by
  simp only [grow, atom, Array.getD_eq_getD_getElem?, Array.getElem?_push]
  grind

@[simp] theorem atomValueGrow (trail : Trail) (other : Nat) :
    trail.grow.atomValue other = trail.atomValue other := by
  simp only [atomValue, atomGrow]

theorem atomLevelEnqueue (trail : Trail) (literal : Literal) (reason : Option Reason) {other : Nat}
    (different : literal.atom ≠ other) :
    (trail.enqueue literal reason).atomLevel other = trail.atomLevel other := by
  simp only [atomLevel, atomEnqueue, different, false_and, if_false]

theorem reasonEnqueue (trail : Trail) (literal : Literal) (reason : Option Reason) {other : Nat}
    (different : literal.atom ≠ other) :
    (trail.enqueue literal reason).reason other = trail.reason other := by
  simp only [Trail.reason, atomEnqueue, different, false_and, if_false]

theorem atomLevelEnqueueSame (trail : Trail) (literal : Literal) (reason : Option Reason)
    (inside : literal.atom < trail.atoms.size) :
    (trail.enqueue literal reason).atomLevel literal.atom = trail.level := by
  simp only [atomLevel, atomEnqueue, inside, and_self, if_true]

theorem reasonEnqueueSame (trail : Trail) (literal : Literal) (reason : Option Reason)
    (inside : literal.atom < trail.atoms.size) :
    (trail.enqueue literal reason).reason literal.atom = reason := by
  simp only [Trail.reason, atomEnqueue, inside, and_self, if_true]

/-- Exactly the new literal becomes true. -/
theorem Coherent.truthEnqueue {trail : Trail} (coherent : trail.Coherent) {literal : Literal}
    (reason : Option Reason) (inside : literal.atom < trail.atoms.size)
    (unknown : trail.atomValue literal.atom = none) (other : Literal) :
    (trail.enqueue literal reason).value other = some true ↔
      other ∈ (trail.enqueue literal reason).literals.toList := by
  rw [literalsEnqueue, List.mem_append, List.mem_singleton]
  by_cases same : literal.atom = other.atom
  · have absent : other ∉ trail.literals.toList := fun member =>
      coherent.undetermined unknown member same.symm
    have sign : (trail.enqueue literal reason).value other = some true ↔
        literal.negated = other.negated := by
      rw [valueEqAtomValue, atomValue, atomEnqueue, if_pos ⟨same, same ▸ inside⟩]
      cases literal.negated <;> cases other.negated <;> simp
    rw [sign]
    simp only [absent, false_or]
    constructor
    · intro equal
      cases other
      cases literal
      simp_all
    · rintro rfl
      rfl
  · have different : other ≠ literal := fun equal => same (by rw [equal])
    simp only [different, or_false]
    rw [← coherent.truth]
    simp only [value, atomValueEnqueue trail literal reason same]

/-- An undetermined literal may join the end of the trail. -/
theorem Coherent.enqueue {trail : Trail} (coherent : trail.Coherent) {literal : Literal}
    (reason : Option Reason) (inside : literal.atom < trail.atoms.size)
    (unknown : trail.atomValue literal.atom = none) : (trail.enqueue literal reason).Coherent where
  truth := coherent.truthEnqueue reason inside unknown
  distinct := by
    rw [literalsEnqueue, List.map_append, List.map_singleton, List.nodup_append]
    refine ⟨coherent.distinct, List.pairwise_singleton _ _, ?_⟩
    intro atom member other last same
    obtain ⟨found, listed, rfl⟩ := List.mem_map.1 member
    rw [List.mem_singleton] at last
    exact coherent.undetermined unknown listed (same.trans last)
  ascending := coherent.ascending
  propagated := coherent.propagated
  bounded := by
    have bounded := coherent.bounded
    simp only [headEnqueue]
    simp only [Trail.enqueue, Array.size_push]
    omega
  levels position other found := by
    have levelAt : (trail.enqueue literal reason).levelAt position = trail.levelAt position := rfl
    rw [literalsEnqueue, List.getElem?_append] at found
    rw [levelAt]
    split at found
    · next early =>
        have member := List.mem_of_getElem? found
        have different := Ne.symm (coherent.undetermined unknown member)
        rw [atomLevelEnqueue trail literal reason different]
        exact coherent.levels position other found
    · next late =>
        have last : other = literal := by
          have listed := List.mem_of_getElem? found
          simpa using listed
        subst last
        rw [atomLevelEnqueueSame trail other reason inside]
        have bounded := coherent.bounded
        have size : trail.literals.toList.length = trail.literals.size := Array.length_toList
        exact (coherent.levelPending (by omega)).symm
  free other unset := by
    by_cases same : literal.atom = other
    · subst same
      rw [atomValue, atomEnqueue, if_pos ⟨rfl, inside⟩] at unset
      contradiction
    · rw [atomValueEnqueue trail literal reason same] at unset
      rw [reasonEnqueue trail literal reason same]
      exact coherent.free other unset

/-- A level may be opened when everything has been propagated. -/
theorem Coherent.openLevel {trail : Trail} (coherent : trail.Coherent)
    (finished : trail.head = trail.literals.size) : trail.openLevel.Coherent where
  truth := coherent.truth
  distinct := coherent.distinct
  ascending := by
    simp only [Trail.openLevel, Array.toList_push]
    rw [List.pairwise_append]
    refine ⟨coherent.ascending, List.pairwise_singleton _ _, ?_⟩
    intro limit member other last
    rw [List.mem_singleton] at last
    have early := coherent.propagated limit member
    omega
  propagated limit member := by
    simp only [Trail.openLevel, Array.toList_push, List.mem_append, List.mem_singleton] at member
    change limit ≤ trail.head
    rcases member with old | rfl
    · exact coherent.propagated limit old
    · omega
  bounded := coherent.bounded
  levels position literal found := by
    have inside := (List.getElem?_eq_some_iff.1 found).1
    have early : position < trail.literals.size := by simpa [Trail.openLevel] using inside
    have levelAt : trail.openLevel.levelAt position = trail.levelAt position := by
      simp only [Trail.levelAt, Trail.openLevel, Array.toList_push, List.countP_append]
      simp only [List.countP_singleton, decide_eq_true_eq]
      rw [if_neg (by omega), Nat.add_zero]
    rw [levelAt]
    exact coherent.levels position literal found
  free := coherent.free

/-- Propagation only moves the head. -/
theorem Coherent.moveHead {trail : Trail} (coherent : trail.Coherent) {head : Nat}
    (later : trail.head ≤ head) (bounded : head ≤ trail.literals.size) :
    { trail with head }.Coherent where
  truth := coherent.truth
  distinct := coherent.distinct
  ascending := coherent.ascending
  propagated limit member := Nat.le_trans (coherent.propagated limit member) later
  bounded := bounded
  levels := coherent.levels
  free := coherent.free

/-- Only the atoms of the released literals lose their value. -/
theorem releaseAll (literals : List Literal) (atoms : Array AtomState) (other : Nat) :
    ((literals.foldl release atoms).getD other {}).level = (atoms.getD other {}).level ∧
      ((∃ literal ∈ literals, literal.atom = other) →
        ((literals.foldl release atoms).getD other {}).value = none ∧
          ((literals.foldl release atoms).getD other {}).reason = none) ∧
      ((∀ literal ∈ literals, literal.atom ≠ other) →
        (literals.foldl release atoms).getD other {} = atoms.getD other {}) := by
  induction literals generalizing atoms with
  | nil => simp
  | cons first rest inductionHypothesis =>
      obtain ⟨sameLevel, cleared, kept⟩ := inductionHypothesis (release atoms first)
      rw [List.foldl_cons]
      have single : (release atoms first).getD other {} =
          if first.atom = other ∧ other < atoms.size then
            { atoms.getD other {} with value := none, reason := none, phase := first.negated }
          else atoms.getD other {} := by
        by_cases same : first.atom = other
        · subst same
          by_cases inside : first.atom < atoms.size
          · simp [release, inside, Array.getElem_modify]
          · simp [release, inside]
        · simp [release, Array.getElem?_modify, same]
      refine ⟨?_, ?_, ?_⟩
      · rw [sameLevel, single]
        split <;> rfl
      · rintro ⟨literal, member, same⟩
        by_cases later : ∃ literal ∈ rest, literal.atom = other
        · exact cleared later
        · have absent : ∀ literal ∈ rest, literal.atom ≠ other := fun literal member same =>
            later ⟨literal, member, same⟩
          have first : first.atom = other := by
            rcases List.mem_cons.1 member with rfl | listed
            · exact same
            · exact absurd same (absent literal listed)
          rw [kept absent, single]
          by_cases inside : other < atoms.size
          · simp [first, inside]
          · simp [inside]
      · intro absent
        rw [kept fun literal member => absent literal (List.mem_cons_of_mem _ member), single,
          if_neg fun both => absent first List.mem_cons_self both.1]

@[simp] theorem sizeReleaseAll (literals : List Literal) (atoms : Array AtomState) :
    (literals.foldl release atoms).size = atoms.size := by
  induction literals generalizing atoms with
  | nil => rfl
  | cons first rest inductionHypothesis =>
      rw [List.foldl_cons, inductionHypothesis]
      simp [release]

section CancelUntil

variable {trail : Trail} {level : Nat}

@[simp] theorem sizeCancelUntil : (trail.cancelUntil level).atoms.size = trail.atoms.size := by
  simp only [cancelUntil]
  split
  · simp
  · rfl

/-- Without a level above the given one there is nothing to undo. -/
theorem cancelUntilLow (low : trail.level ≤ level) : trail.cancelUntil level = trail := by
  rw [cancelUntil, if_neg (Nat.not_lt.2 low)]

theorem literalsCancelUntil (trail : Trail) (level : Nat) :
    (trail.cancelUntil level).literals.toList = trail.initial (trail.boundary level) := by
  by_cases open_ : level < trail.level
  · rw [cancelUntil, if_pos open_, (boundaryInside open_).1]
    simp [initial]
  · rw [cancelUntilLow (by omega), boundaryOutside (by omega), initialAll _ (Nat.le_refl _)]

theorem limitsCancelUntil (trail : Trail) (level : Nat) :
    (trail.cancelUntil level).limits.toList = trail.limits.toList.take level := by
  by_cases open_ : level < trail.level
  · rw [cancelUntil, if_pos open_]
    simp
  · rw [cancelUntilLow (by omega), List.take_of_length_le]
    have low : trail.limits.size ≤ level := by
      simpa [Trail.level] using open_
    simpa using low

theorem levelCancelUntil : (trail.cancelUntil level).level = min level trail.level := by
  have length := congrArg List.length (trail.limitsCancelUntil level)
  simpa [Trail.level] using length

theorem headCancelUntil (open_ : level < trail.level) :
    (trail.cancelUntil level).head = trail.boundary level := by
  rw [cancelUntil, if_pos open_, (boundaryInside open_).1]

theorem initialCancelUntil {bound : Nat} (below : bound ≤ trail.boundary level) :
    (trail.cancelUntil level).initial bound = trail.initial bound := by
  rw [initial, literalsCancelUntil, initial, List.take_take, Nat.min_eq_left below]
  rfl

theorem atomLevelCancelUntil (atom : Nat) :
    (trail.cancelUntil level).atomLevel atom = trail.atomLevel atom := by
  rw [cancelUntil]
  split
  · exact (releaseAll _ _ atom).1
  · rfl

theorem aboveDrop : (trail.above level).reverse =
    trail.literals.toList.drop (trail.levelStart level) := by
  rw [above, List.reverse_reverse, Array.toList_extract, List.extract_eq_take_drop]
  exact List.take_of_length_le (by simp)

/-- The literals above a level are exactly those that the initial part lacks. -/
theorem memberAbove (coherent : trail.Coherent) (open_ : level < trail.level)
    {literal : Literal} (member : literal ∈ trail.literals.toList) :
    literal ∈ trail.above level ↔ literal ∉ trail.initial (trail.boundary level) := by
  have split : trail.literals.toList =
      trail.initial (trail.boundary level) ++ (trail.above level).reverse := by
    rw [aboveDrop, (boundaryInside open_).1.symm, initial, List.take_append_drop]
  have distinct := coherent.distinct
  rw [split, List.map_append, List.nodup_append] at distinct
  rw [split, List.mem_append, List.mem_reverse] at member
  constructor
  · intro dropped kept
    exact distinct.2.2 _ (List.mem_map_of_mem kept) _
      (List.mem_map_of_mem (List.mem_reverse.2 dropped)) rfl
  · intro absent
    exact member.resolve_left absent

theorem aboveMember {literal : Literal} (dropped : literal ∈ trail.above level) :
    literal ∈ trail.literals.toList := by
  rw [← List.mem_reverse, aboveDrop] at dropped
  exact List.mem_of_mem_drop dropped

/-- Undoing levels leaves the atoms of the remaining literals as they are. -/
theorem atomCancelUntil (coherent : trail.Coherent) {literal : Literal}
    (kept : literal ∈ trail.initial (trail.boundary level)) :
    (trail.cancelUntil level).atom literal.atom = trail.atom literal.atom := by
  rw [cancelUntil]
  split
  · next open_ =>
      apply (releaseAll _ _ literal.atom).2.2
      intro other dropped same
      have equal := coherent.unique (aboveMember dropped) (initialMember kept) same
      subst equal
      exact (memberAbove coherent open_ (initialMember kept)).1 dropped kept
  · rfl

/-- Undoing levels leaves exactly the values of the remaining literals. -/
theorem valueCancelUntil (coherent : trail.Coherent) (literal : Literal) :
    (trail.cancelUntil level).value literal = some true ↔
      literal ∈ trail.initial (trail.boundary level) := by
  constructor
  · intro isTrue
    by_cases open_ : level < trail.level
    · rw [valueEqAtomValue] at isTrue
      by_cases dropped : ∃ other ∈ trail.above level, other.atom = literal.atom
      · rw [cancelUntil, if_pos open_] at isTrue
        have cleared := ((releaseAll (trail.above level) trail.atoms literal.atom).2.1 dropped).1
        simp only [atomValue, atom] at isTrue
        rw [cleared] at isTrue
        contradiction
      · have before : trail.value literal = some true := by
          rw [cancelUntil, if_pos open_] at isTrue
          have same := (releaseAll (trail.above level) trail.atoms literal.atom).2.2
            fun other member equal => dropped ⟨other, member, equal⟩
          rw [valueEqAtomValue]
          simp only [atomValue, atom] at isTrue ⊢
          rwa [same] at isTrue
        have member := (coherent.truth literal).1 before
        have absent : literal ∉ trail.above level := fun listed => dropped ⟨literal, listed, rfl⟩
        rw [memberAbove coherent open_ member] at absent
        exact Classical.not_not.1 absent
    · rw [cancelUntilLow (by omega), coherent.truth] at isTrue
      rwa [boundaryOutside (by omega), initialAll _ (Nat.le_refl _)]
  · intro kept
    rw [valueEqAtomValue, atomValue, atomCancelUntil coherent kept, ← atomValue,
      coherent.known (initialMember kept)]
    simp

/-- An atom without a value has no reason after levels have been undone. -/
theorem reasonCancelUntil (coherent : trail.Coherent) {atom : Nat}
    (unknown : (trail.cancelUntil level).atomValue atom = none) :
    (trail.cancelUntil level).reason atom = none := by
  rw [cancelUntil] at unknown ⊢
  split
  · next open_ =>
      rw [if_pos open_] at unknown
      by_cases dropped : ∃ other ∈ trail.above level, other.atom = atom
      · exact ((releaseAll (trail.above level) trail.atoms atom).2.1 dropped).2
      · have same := (releaseAll (trail.above level) trail.atoms atom).2.2
          fun other member equal => dropped ⟨other, member, equal⟩
        simp only [atomValue, reason, Trail.atom] at unknown ⊢
        rw [same] at unknown ⊢
        exact coherent.free atom unknown
  · next closed =>
      rw [if_neg closed] at unknown
      exact coherent.free atom unknown

/-- The trail stays coherent when levels are undone. -/
theorem Coherent.cancelUntil (coherent : trail.Coherent) (level : Nat) :
    (trail.cancelUntil level).Coherent := by
  by_cases open_ : level < trail.level
  · have bound := coherent.boundaryLe level
    have literals := trail.literalsCancelUntil level
    have limits := trail.limitsCancelUntil level
    have head := headCancelUntil open_
    obtain ⟨-, found⟩ := boundaryInside open_
    obtain ⟨inside, own⟩ := List.getElem?_eq_some_iff.1 found
    refine ⟨?_, ?_, ?_, ?_, ?_, ?_, ?_⟩
    · intro literal
      rw [literals]
      exact valueCancelUntil coherent literal
    · rw [literals, initial, List.map_take]
      exact coherent.distinct.sublist (List.take_sublist _ _)
    · rw [limits]
      exact coherent.ascending.take
    · intro limit member
      rw [limits] at member
      obtain ⟨index, below, same⟩ := List.mem_take_iff_getElem.1 member
      have earlier : index < level := by omega
      have ordered := List.pairwise_iff_getElem.1 coherent.ascending index level
        (by omega) inside earlier
      rw [head, ← own, ← same]
      exact ordered
    · rw [head, ← Array.length_toList, literals, initial, List.length_take]
      have size : trail.literals.toList.length = trail.literals.size := Array.length_toList
      omega
    · intro position literal position_
      rw [literals, initial, List.getElem?_take] at position_
      split at position_
      · next below =>
          rw [atomLevelCancelUntil, coherent.levels position literal position_, levelAt, levelAt,
            limits]
          -- The limits above the level lie behind the position.
          have late : (trail.limits.toList.drop level).countP (· ≤ position) = 0 := by
            rw [List.countP_eq_zero]
            intro limit member
            obtain ⟨index, dropInside, same⟩ := List.mem_iff_getElem.1 member
            rw [List.getElem_drop] at same
            simp only [List.length_drop] at dropInside
            have lowest : trail.limits.toList[level] ≤ limit := by
              rcases Nat.eq_zero_or_pos index with rfl | positive
              · exact Nat.le_of_eq same
              · rw [← same]
                exact List.pairwise_iff_getElem.1 coherent.ascending level (level + index)
                  inside (by omega) (by omega)
            simp only [decide_eq_true_eq]
            omega
          have parts := congrArg (List.countP (· ≤ position))
            (List.take_append_drop level trail.limits.toList)
          rw [List.countP_append, late, Nat.add_zero] at parts
          exact parts.symm
      · contradiction
    · intro atom unknown
      exact reasonCancelUntil coherent unknown
  · rw [cancelUntilLow (by omega)]
    exact coherent

end CancelUntil

end Trail

end ParitySat
