/-
This file shows that the decision queue loses and duplicates no atom.
-/

import ParitySat.Decision.Queue

namespace ParitySat.Queue

/-- The positions are exactly the inverse of the entries. -/
def Indexed (queue : Queue) : Prop :=
  ∀ slot atom, queue.entries[slot]? = some atom ↔ queue.position atom = some slot

theorem Indexed.positionInside {queue : Queue} {slot atom : Nat}
    (known : queue.position atom = some slot) : atom < queue.positions.size := by
  by_cases inside : atom < queue.positions.size
  · exact inside
  · simp [position, Array.getD, inside] at known

theorem entriesPlace (queue : Queue) (slot atom other : Nat) (inside : slot < queue.entries.size) :
    (queue.place slot atom).entries[other]? =
      if other = slot then some atom else queue.entries[other]? := by
  simp only [place, Array.getElem?_setIfInBounds]
  by_cases same : slot = other
  · subst same
    simp [inside]
  · simp [same, Ne.symm same]

/-- One position changes, and it is the only one. -/
theorem positionSet {positions : Array (Option Nat)} {atom : Nat} (inside : atom < positions.size)
    (value : Option Nat) (other : Nat) :
    (positions.setIfInBounds atom value).getD other none =
      if other = atom then value else positions.getD other none := by
  simp only [Array.getD_eq_getD_getElem?, Array.getElem?_setIfInBounds]
  by_cases same : atom = other
  · subst same
    simp [inside]
  · simp [same, Ne.symm same]

theorem positionPlace (queue : Queue) (slot atom other : Nat)
    (inside : atom < queue.positions.size) :
    (queue.place slot atom).position other =
      if other = atom then some slot else queue.position other :=
  positionSet inside (some slot) other

@[simp] theorem sizePlace (queue : Queue) (slot atom : Nat) :
    (queue.place slot atom).entries.size = queue.entries.size := by
  simp [place]

@[simp] theorem capacityPlace (queue : Queue) (slot atom : Nat) :
    (queue.place slot atom).positions.size = queue.positions.size := by
  simp [place]

theorem entryEq {queue : Queue} {slot : Nat} (inside : slot < queue.entries.size) :
    queue.entries[slot]? = some (queue.entry slot) := by
  simp [entry, Array.getD, inside]

/-- An atom that is put into its own slot changes nothing. -/
theorem placeSame {queue : Queue} {slot atom : Nat} (indexed : queue.Indexed)
    (known : queue.position atom = some slot) : queue.place slot atom = queue := by
  have found := (indexed slot atom).2 known
  have inside := Indexed.positionInside known
  cases queue with
  | mk entries positions =>
      simp only [place, Queue.mk.injEq]
      refine ⟨Array.ext_getElem? fun other => ?_, Array.ext_getElem? fun other => ?_⟩
      · rw [Array.getElem?_setIfInBounds]
        by_cases same : slot = other
        · subst same
          rw [if_pos rfl, if_pos (Array.getElem?_eq_some_iff.1 found).1]
          exact found.symm
        · rw [if_neg same]
      · rw [Array.getElem?_setIfInBounds]
        by_cases same : atom = other
        · subst same
          simp only [position, Array.getD_eq_getD_getElem?] at known inside
          rw [Array.getElem?_eq_getElem inside, Option.getD_some] at known
          rw [if_pos rfl, if_pos inside, Array.getElem?_eq_getElem inside, known]
        · rw [if_neg same]

/-- A rearrangement keeps the queued atoms and the inverse. -/
structure Rearranges (before after : Queue) : Prop where
  indexed : after.Indexed
  size : after.entries.size = before.entries.size
  capacity : after.positions.size = before.positions.size
  contains : ∀ atom, after.contains atom = before.contains atom

theorem Rearranges.trans {first second third : Queue} (left : Rearranges first second)
    (right : Rearranges second third) : Rearranges first third where
  indexed := right.indexed
  size := right.size.trans left.size
  capacity := right.capacity.trans left.capacity
  contains atom := (right.contains atom).trans (left.contains atom)

/-- The atom in the hole changes places with the entry of another slot. -/
theorem placeExchanges {queue : Queue} {slot atom : Nat} (other : Nat)
    (indexed : (queue.place slot atom).Indexed) (inside : slot < queue.entries.size)
    (otherInside : other < queue.entries.size) (different : other ≠ slot) :
    Rearranges (queue.place slot atom) ((queue.place slot (queue.entry other)).place other atom) := by
  have held : (queue.place slot atom).entries[slot]? = some atom := by
    rw [entriesPlace queue slot atom slot inside, if_pos rfl]
  have atomInside : atom < queue.positions.size := by
    simpa using Indexed.positionInside ((indexed slot atom).1 held)
  have entryHeld : (queue.place slot atom).entries[other]? = some (queue.entry other) := by
    rw [entriesPlace queue slot atom other inside, if_neg different, entryEq otherInside]
  have entryPosition := (indexed other (queue.entry other)).1 entryHeld
  have entryInside : queue.entry other < queue.positions.size := by
    simpa using Indexed.positionInside entryPosition
  have entryDifferent : queue.entry other ≠ atom := by
    intro same
    rw [same, positionPlace queue slot atom atom atomInside, if_pos rfl] at entryPosition
    exact different (Option.some.inj entryPosition).symm
  rw [positionPlace queue slot atom _ atomInside, if_neg entryDifferent] at entryPosition
  refine ⟨fun index occupant => ?_, by simp, by simp, fun occupant => ?_⟩
  · have before := indexed index occupant
    have otherHeld := entryEq otherInside
    rw [entriesPlace _ _ _ _ inside, positionPlace _ _ _ _ atomInside] at before
    rw [entriesPlace _ _ _ _ (by simpa using otherInside), entriesPlace _ _ _ _ inside,
      positionPlace _ _ _ _ (by simpa using atomInside), positionPlace _ _ _ _ entryInside]
    grind
  · simp only [contains]
    rw [positionPlace _ _ _ _ (by simpa using atomInside), positionPlace _ _ _ _ entryInside,
      positionPlace _ _ _ _ atomInside]
    grind

theorem Rearranges.refl {queue : Queue} (indexed : queue.Indexed) : Rearranges queue queue :=
  ⟨indexed, rfl, rfl, fun _ => rfl⟩

/-- Every step towards the root exchanges the atom with a parent. -/
theorem siftUpRearranges (higher : Nat → Nat → Bool) (atom fuel slot : Nat) (queue : Queue)
    (indexed : (queue.place slot atom).Indexed) (inside : slot < queue.entries.size) :
    Rearranges (queue.place slot atom) (siftUp higher atom fuel slot queue) := by
  induction fuel generalizing slot queue with
  | zero => exact Rearranges.refl indexed
  | succ fuel inductionHypothesis =>
      rw [siftUp]
      split
      · exact Rearranges.refl indexed
      · next notRoot =>
          have parentBelow : (slot - 1) / 2 < slot := by omega
          have exchanged := placeExchanges ((slot - 1) / 2) indexed inside
            (by omega) (by omega)
          simp only
          split
          · exact exchanged.trans (inductionHypothesis _ _ exchanged.indexed
              (by simpa using Nat.lt_trans parentBelow inside))
          · exact Rearranges.refl indexed

theorem higherChildInside (higher : Nat → Nat → Bool) (queue : Queue) (slot : Nat)
    (inside : 2 * slot + 1 < queue.entries.size) :
    slot < queue.higherChild higher slot ∧
      queue.higherChild higher slot < queue.entries.size := by
  simp only [higherChild]
  split
  · next better =>
      simp only [Bool.and_eq_true, decide_eq_true_eq] at better
      omega
  · omega

/-- Every step towards the leaves exchanges the atom with a child. -/
theorem siftDownRearranges (higher : Nat → Nat → Bool) (atom fuel slot : Nat) (queue : Queue)
    (indexed : (queue.place slot atom).Indexed) (inside : slot < queue.entries.size) :
    Rearranges (queue.place slot atom) (siftDown higher atom fuel slot queue) := by
  induction fuel generalizing slot queue with
  | zero => exact Rearranges.refl indexed
  | succ fuel inductionHypothesis =>
      rw [siftDown]
      split
      · next hasChild =>
          obtain ⟨above, childInside⟩ := higherChildInside higher queue slot hasChild
          have exchanged := placeExchanges _ indexed inside childInside (by omega)
          simp only
          split
          · exact exchanged.trans (inductionHypothesis _ _ exchanged.indexed
              (by simpa using childInside))
          · exact Rearranges.refl indexed
      · exact Rearranges.refl indexed

/-- A raised atom only moves. -/
theorem raiseRearranges (higher : Nat → Nat → Bool) (atom : Nat) {queue : Queue}
    (indexed : queue.Indexed) : Rearranges queue (queue.raise higher atom) := by
  unfold raise
  split
  · exact Rearranges.refl indexed
  · next slot known =>
      have same := placeSame indexed known
      have inside : slot < queue.entries.size := by
        have found := (indexed slot atom).2 known
        exact (Array.getElem?_eq_some_iff.1 found).1
      have raised := siftUpRearranges higher atom slot slot queue (by rwa [same]) inside
      rwa [same] at raised

theorem containsInside {queue : Queue} {atom : Nat} (queued : queue.contains atom = true) :
    atom < queue.positions.size := by
  obtain ⟨slot, known⟩ := Option.isSome_iff_exists.1 queued
  exact Indexed.positionInside known

/-- An insertion queues exactly one more atom. -/
structure Inserted (queue : Queue) (atom : Nat) (after : Queue) : Prop where
  indexed : after.Indexed
  capacity : after.positions.size = queue.positions.size
  contains : ∀ other, after.contains other = (other == atom || queue.contains other)

/-- This queue has one more entry at its end. -/
def pushed (queue : Queue) (atom : Nat) : Queue where
  entries := queue.entries.push atom
  positions := queue.positions.setIfInBounds atom (some queue.entries.size)

theorem positionPushed {queue : Queue} {atom : Nat} (inside : atom < queue.positions.size)
    (other : Nat) : (queue.pushed atom).position other =
      if other = atom then some queue.entries.size else queue.position other :=
  positionSet inside _ other

theorem pushedIndexed {queue : Queue} (indexed : queue.Indexed) {atom : Nat}
    (inside : atom < queue.positions.size) (absent : queue.contains atom = false) :
    (queue.pushed atom).Indexed := by
  have free : queue.position atom = none := by simpa [contains] using absent
  intro slot other
  rw [positionPushed inside]
  have before := indexed slot other
  simp only [pushed, Array.getElem?_push]
  by_cases last : slot = queue.entries.size
  · subst last
    have outside : queue.entries[queue.entries.size]? = none := by simp
    rw [outside] at before
    grind
  · grind

theorem insertInserted (higher : Nat → Nat → Bool) (atom : Nat) {queue : Queue}
    (indexed : queue.Indexed) (inside : atom < queue.positions.size) :
    Inserted queue atom (queue.insert higher atom) := by
  unfold insert
  split
  · next queued =>
      refine ⟨indexed, rfl, fun other => ?_⟩
      by_cases same : other = atom
      · simp [same, queued]
      · simp [same]
  · next absent =>
      have own : (queue.pushed atom).position atom = some queue.entries.size := by
        rw [positionPushed inside, if_pos rfl]
      have pushedIndexed := pushedIndexed indexed inside (Bool.eq_false_iff.2 absent)
      have same := placeSame pushedIndexed own
      have raised := siftUpRearranges higher atom queue.entries.size queue.entries.size
        (queue.pushed atom) (by rwa [same]) (by simp [pushed])
      rw [same] at raised
      refine ⟨raised.indexed, raised.capacity.trans (by simp [pushed]), fun other => ?_⟩
      refine (raised.contains other).trans ?_
      rw [contains, positionPushed inside]
      by_cases equal : other = atom
      · simp [equal]
      · simp [equal, contains]

/-- A removal takes exactly one atom out of the queue. -/
structure Removed (queue : Queue) (atom : Nat) (after : Queue) : Prop where
  indexed : after.Indexed
  size : after.entries.size + 1 = queue.entries.size
  capacity : after.positions.size = queue.positions.size
  contains : ∀ other, after.contains other = (other != atom && queue.contains other)

/-- This queue has its last entry in the slot of the removed one. -/
def replaceTop (top last : Nat) (queue : Queue) : Queue :=
  ⟨(queue.entries.setIfInBounds 0 last).pop,
    (queue.positions.setIfInBounds top none).setIfInBounds last (some 0)⟩

theorem sizeReplaceTop (top last : Nat) (queue : Queue) :
    (queue.replaceTop top last).entries.size = queue.entries.size - 1 := by
  simp only [replaceTop, Array.size_pop, Array.size_setIfInBounds]

/-- The removal sinks the last entry unless it was the only one. -/
theorem removeTopSinks (higher : Nat → Nat → Bool) (top last : Nat) {queue : Queue}
    (several : 1 < queue.entries.size) :
    queue.removeTop higher top last =
      (queue.replaceTop top last).siftDown higher last (queue.replaceTop top last).entries.size
        0 := by
  have nonempty : ¬(queue.replaceTop top last).entries.isEmpty = true := by
    rw [Array.isEmpty_iff_size_eq_zero, sizeReplaceTop]
    omega
  exact if_neg nonempty

theorem entryReplaceTop {queue : Queue} (filled : 0 < queue.entries.size) (last slot : Nat) :
    (queue.entries.setIfInBounds 0 last).pop[slot]? =
      if slot < queue.entries.size - 1 then
        if slot = 0 then some last else queue.entries[slot]?
      else none := by
  simp only [Array.getElem?_pop, Array.size_setIfInBounds, Array.getElem?_setIfInBounds]
  grind

theorem positionReplaceTop {queue : Queue} {top last : Nat} (topInside : top < queue.positions.size)
    (lastInside : last < queue.positions.size) (other : Nat) :
    (queue.replaceTop top last).position other =
      if other = last then some 0 else if other = top then none else queue.position other := by
  apply (positionSet (by simpa using lastInside) (some 0) other).trans
  rw [positionSet topInside, position]

theorem lastPosition {queue : Queue} {last : Nat} (indexed : queue.Indexed)
    (final : queue.entries.back? = some last) :
    queue.position last = some (queue.entries.size - 1) := by
  rw [Array.back?_eq_getElem?] at final
  exact (indexed _ last).1 final

section RemoveTop

variable {top last : Nat} {queue : Queue} (indexed : queue.Indexed)
  (first : queue.entries[0]? = some top) (final : queue.entries.back? = some last)
include indexed first final

/-- Only an entry that was alone is the first and the last one. -/
theorem lastDiffers (several : 1 < queue.entries.size) : last ≠ top := by
  intro same
  have lastPlace := lastPosition indexed final
  rw [same, (indexed 0 top).1 first] at lastPlace
  have slot := Option.some.inj lastPlace
  omega

theorem replaceTopIndexed (several : 1 < queue.entries.size) :
    (queue.replaceTop top last).Indexed := by
  have topPosition := (indexed 0 top).1 first
  have lastPlace := lastPosition indexed final
  have different := lastDiffers indexed first final several
  intro slot other
  rw [positionReplaceTop (Indexed.positionInside topPosition) (Indexed.positionInside lastPlace)]
  have before := indexed slot other
  have lastBefore := indexed slot last
  have entry := entryReplaceTop (Nat.lt_trans Nat.zero_lt_one several) last slot
  simp only [replaceTop, entry]
  grind

theorem removeTopRemoved (higher : Nat → Nat → Bool) :
    Removed queue top (queue.removeTop higher top last) := by
  have filled : 0 < queue.entries.size := (Array.getElem?_eq_some_iff.1 first).1
  have topPosition := (indexed 0 top).1 first
  have lastPlace := lastPosition indexed final
  have topInside := Indexed.positionInside topPosition
  have lastInside := Indexed.positionInside lastPlace
  have remaining (other : Nat) : (if other = top then none else queue.position other).isSome =
      (other != top && queue.contains other) := by
    by_cases same : other = top
    · simp [same]
    · simp [same, contains]
  by_cases several : 1 < queue.entries.size
  · have moved := replaceTopIndexed indexed first final several
    have known := positionReplaceTop topInside lastInside
    have own : (queue.replaceTop top last).position last = some 0 := by rw [known, if_pos rfl]
    have same := placeSame moved own
    have sunk := siftDownRearranges higher last (queue.replaceTop top last).entries.size 0
      (queue.replaceTop top last) (by rwa [same]) (by rw [sizeReplaceTop]; omega)
    rw [same, ← removeTopSinks higher top last several] at sunk
    refine ⟨sunk.indexed, ?_, by rw [sunk.capacity]; simp [replaceTop], fun other => ?_⟩
    · rw [sunk.size, sizeReplaceTop]
      omega
    · rw [sunk.contains, ← remaining, contains, known]
      by_cases equal : other = last
      · subst equal
        simp [lastDiffers indexed first final several, lastPlace]
      · rw [if_neg equal]
  · have single : queue.entries.size = 1 := by omega
    have emptied : queue.removeTop higher top last =
        ⟨(queue.entries.setIfInBounds 0 last).pop, queue.positions.setIfInBounds top none⟩ :=
      if_pos (Array.isEmpty_iff_size_eq_zero.2 (by simp [single]))
    rw [emptied]
    refine ⟨fun slot other => ?_, by simp [single], by simp, fun other => ?_⟩
    · simp only [position]
      rw [entryReplaceTop filled, positionSet topInside]
      have before := indexed slot other
      simp only [position] at before topPosition
      grind
    · simp only [contains, position]
      rw [positionSet topInside]
      exact remaining other

end RemoveTop

/-- A queue gives up an atom unless it is empty. -/
theorem popRemoved (higher : Nat → Nat → Bool) {queue : Queue} (indexed : queue.Indexed) :
    (queue.pop higher = (none, queue) ∧ ∀ atom, queue.contains atom = false) ∨
      ∃ top after, queue.pop higher = (some top, after) ∧ queue.contains top = true ∧
        Removed queue top after := by
  unfold pop
  split
  · next top last first final =>
      have held : queue.contains top = true := by
        rw [contains, (indexed 0 top).1 first]
        rfl
      exact Or.inr ⟨top, _, rfl, held, removeTopRemoved indexed first final higher⟩
  · next missing =>
      refine Or.inl ⟨rfl, fun atom => Bool.eq_false_iff.2 fun queued => ?_⟩
      obtain ⟨slot, known⟩ := Option.isSome_iff_exists.1 queued
      have found := (indexed slot atom).2 known
      have inside := (Array.getElem?_eq_some_iff.1 found).1
      have first : queue.entries[0]? = some queue.entries[0] := Array.getElem?_eq_getElem (by omega)
      have final : queue.entries.back? = some queue.entries[queue.entries.size - 1] := by
        rw [Array.back?_eq_getElem?]
        exact Array.getElem?_eq_getElem (by omega)
      exact missing _ _ first final

theorem emptyIndexed : Queue.empty.Indexed := by
  intro slot atom
  simp [empty, position]

/-- The new atom is not yet queued. -/
theorem growIndexed {queue : Queue} (indexed : queue.Indexed) :
    queue.grow.Indexed ∧ ∀ atom, queue.grow.contains atom = queue.contains atom := by
  have known (atom : Nat) : queue.grow.position atom = queue.position atom := by
    simp only [grow, position, Array.getD_eq_getD_getElem?, Array.getElem?_push]
    grind
  refine ⟨fun slot atom => ?_, fun atom => ?_⟩
  · rw [known]
    exact indexed slot atom
  · simp only [contains, known]

@[simp] theorem capacityGrow (queue : Queue) :
    queue.grow.positions.size = queue.positions.size + 1 := by
  simp [grow]

end ParitySat.Queue
