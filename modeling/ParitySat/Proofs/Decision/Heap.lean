/-
This file shows that the decision queue stays in heap order and gives up its greatest atom.
-/

import ParitySat.Proofs.Decision.Queue

namespace ParitySat.Queue

/-- A comparison agrees with an order of the atoms, which may leave some of them equal. -/
structure Compatible (higher : Nat → Nat → Bool) (below : Nat → Nat → Prop) : Prop where
  refl : ∀ atom, below atom atom
  trans : ∀ {first second third}, below first second → below second third → below first third
  ranked : ∀ {first second}, higher first second = true → below second first
  unranked : ∀ {first second}, higher first second = false → below first second

/-- No entry is above its parent. -/
def Heaped (below : Nat → Nat → Prop) (queue : Queue) : Prop :=
  ∀ slot, 0 < slot → slot < queue.entries.size →
    below (queue.entry slot) (queue.entry ((slot - 1) / 2))

/-- The root is the greatest entry. -/
theorem Heaped.root {higher : Nat → Nat → Bool} {below : Nat → Nat → Prop}
    (compatible : Compatible higher below) {queue : Queue} (heaped : Heaped below queue)
    (slot : Nat) (inside : slot < queue.entries.size) :
    below (queue.entry slot) (queue.entry 0) := by
  induction slot using Nat.strongRecOn with
  | ind slot inductionHypothesis =>
      rcases Nat.eq_zero_or_pos slot with rfl | notRoot
      · exact compatible.refl _
      · exact compatible.trans (heaped slot notRoot inside)
          (inductionHypothesis ((slot - 1) / 2) (by omega) (by omega))

theorem entryPlace {queue : Queue} {slot : Nat} (atom other : Nat)
    (inside : slot < queue.entries.size) :
    (queue.place slot atom).entry other = if other = slot then atom else queue.entry other := by
  have placed := entriesPlace queue slot atom other inside
  simp only [entry, Array.getD_eq_getD_getElem?, placed]
  split <;> rfl

theorem entryPlaceSame {queue : Queue} {slot : Nat} (atom : Nat)
    (inside : slot < queue.entries.size) : (queue.place slot atom).entry slot = atom := by
  rw [entryPlace atom slot inside, if_pos rfl]

theorem entryPlaceOther {queue : Queue} {slot other : Nat} (atom : Nat)
    (inside : slot < queue.entries.size) (different : other ≠ slot) :
    (queue.place slot atom).entry other = queue.entry other := by
  rw [entryPlace atom other inside, if_neg different]

/-- The order holds wherever the hole is not involved, and also across the hole. -/
structure Holed (below : Nat → Nat → Prop) (queue : Queue) (hole : Nat) : Prop where
  inside : hole < queue.entries.size
  apart : ∀ slot, 0 < slot → slot < queue.entries.size → slot ≠ hole → (slot - 1) / 2 ≠ hole →
    below (queue.entry slot) (queue.entry ((slot - 1) / 2))
  across : 0 < hole → ∀ slot, 0 < slot → slot < queue.entries.size → (slot - 1) / 2 = hole →
    below (queue.entry slot) (queue.entry ((hole - 1) / 2))

/-- The atom fits above the children of the hole. -/
def AboveChildren (below : Nat → Nat → Prop) (queue : Queue) (hole atom : Nat) : Prop :=
  ∀ slot, 0 < slot → slot < queue.entries.size → (slot - 1) / 2 = hole →
    below (queue.entry slot) atom

/-- The atom fits below the parent of the hole. -/
def UnderParent (below : Nat → Nat → Prop) (queue : Queue) (hole atom : Nat) : Prop :=
  0 < hole → below atom (queue.entry ((hole - 1) / 2))

section Sift

variable {higher : Nat → Nat → Bool} {below : Nat → Nat → Prop} {queue : Queue} {hole atom : Nat}

/-- An atom that fits on both sides fills the hole. -/
theorem Holed.fill (holed : Holed below queue hole) (above : AboveChildren below queue hole atom)
    (under : UnderParent below queue hole atom) : Heaped below (queue.place hole atom) := by
  intro slot notRoot inside
  rw [sizePlace] at inside
  by_cases own : slot = hole
  · subst own
    rw [entryPlaceSame atom inside, entryPlaceOther atom inside (by omega)]
    exact under notRoot
  · rw [entryPlaceOther atom holed.inside own]
    by_cases child : (slot - 1) / 2 = hole
    · rw [child, entryPlaceSame atom holed.inside]
      exact above slot notRoot inside child
    · rw [entryPlaceOther atom holed.inside child]
      exact holed.apart slot notRoot inside own child

/-- The hole changes places with its parent. -/
theorem Holed.ascend (compatible : Compatible higher below) (holed : Holed below queue hole)
    (notRoot : 0 < hole) :
    Holed below (queue.place hole (queue.entry ((hole - 1) / 2))) ((hole - 1) / 2) := by
  have inside := holed.inside
  refine ⟨by rw [sizePlace]; omega, fun slot positive within different apart => ?_,
    fun positive slot slotPositive within child => ?_⟩
  · rw [sizePlace] at within
    have notHole : slot ≠ hole := by
      rintro rfl
      exact apart rfl
    rw [entryPlaceOther _ inside notHole]
    by_cases child : (slot - 1) / 2 = hole
    · rw [child, entryPlaceSame _ inside]
      exact holed.across notRoot slot positive within child
    · rw [entryPlaceOther _ inside child]
      exact holed.apart slot positive within notHole child
  · rw [sizePlace] at within
    have parent := holed.apart ((hole - 1) / 2) positive (by omega) (by omega) (by omega)
    have higherUp : ((hole - 1) / 2 - 1) / 2 ≠ hole := by omega
    rw [entryPlaceOther _ inside higherUp]
    by_cases own : slot = hole
    · rw [own, entryPlaceSame _ inside]
      exact parent
    · rw [entryPlaceOther _ inside own]
      have sibling := holed.apart slot slotPositive within own (by omega)
      rw [child] at sibling
      exact compatible.trans sibling parent

/-- A higher atom also fits above the children that the parent had. -/
theorem Holed.aboveSiblings (compatible : Compatible higher below) (holed : Holed below queue hole)
    (notRoot : 0 < hole) (less : below (queue.entry ((hole - 1) / 2)) atom) :
    AboveChildren below (queue.place hole (queue.entry ((hole - 1) / 2))) ((hole - 1) / 2) atom := by
  intro slot positive within child
  rw [sizePlace] at within
  by_cases own : slot = hole
  · rw [own, entryPlaceSame _ holed.inside]
    exact less
  · rw [entryPlaceOther _ holed.inside own]
    have sibling := holed.apart slot positive within own (by omega)
    rw [child] at sibling
    exact compatible.trans sibling less

/-- Every atom fits above its children on the way to the root. -/
theorem siftUpHeaped (compatible : Compatible higher below) (atom fuel : Nat) {hole : Nat}
    {queue : Queue} (enough : hole ≤ fuel) (holed : Holed below queue hole)
    (above : AboveChildren below queue hole atom) :
    Heaped below (siftUp higher atom fuel hole queue) := by
  induction fuel generalizing hole queue with
  | zero => exact holed.fill above fun notRoot => absurd notRoot (by omega)
  | succ fuel inductionHypothesis =>
      rw [siftUp]
      split
      · next root => exact holed.fill above fun notRoot => absurd root (by omega)
      · next notRoot =>
          have positive := Nat.pos_of_ne_zero notRoot
          simp only
          split
          · next better =>
              exact inductionHypothesis (by omega) (holed.ascend compatible positive)
                (holed.aboveSiblings compatible positive (compatible.ranked better))
          · next worse =>
              exact holed.fill above fun _ => compatible.unranked (Bool.eq_false_iff.2 worse)

/-- The chosen child is the greatest one. -/
theorem higherChildGreatest (compatible : Compatible higher below) {slot : Nat} (notRoot : 0 < slot)
    (inside : slot < queue.entries.size) (child : (slot - 1) / 2 = hole) :
    below (queue.entry slot) (queue.entry (queue.higherChild higher hole)) := by
  have sides : slot = 2 * hole + 1 ∨ slot = 2 * hole + 1 + 1 := by omega
  unfold higherChild
  simp only
  split
  · next right =>
      simp only [Bool.and_eq_true, decide_eq_true_eq] at right
      rcases sides with rfl | rfl
      · exact compatible.ranked right.2
      · exact compatible.refl _
  · next left =>
      rcases sides with rfl | rfl
      · exact compatible.refl _
      · simp only [inside, decide_true, Bool.true_and, Bool.not_eq_true] at left
        exact compatible.unranked left

theorem higherChildParent (higher : Nat → Nat → Bool) (queue : Queue) (hole : Nat) :
    0 < queue.higherChild higher hole ∧ (queue.higherChild higher hole - 1) / 2 = hole := by
  simp only [higherChild]
  split <;> omega

/-- The hole changes places with its greatest child. -/
theorem Holed.descend (compatible : Compatible higher below) (holed : Holed below queue hole)
    (hasChild : 2 * hole + 1 < queue.entries.size) :
    Holed below (queue.place hole (queue.entry (queue.higherChild higher hole)))
      (queue.higherChild higher hole) := by
  have inside := holed.inside
  obtain ⟨later, within⟩ := higherChildInside higher queue hole hasChild
  obtain ⟨childPositive, childParent⟩ := higherChildParent higher queue hole
  have greatest (slot : Nat) := @higherChildGreatest higher below queue hole compatible slot
  generalize queue.higherChild higher hole = child at *
  refine ⟨by rwa [sizePlace], fun slot positive slotInside different apart => ?_,
    fun _ slot positive slotInside grandchild => ?_⟩
  · rw [sizePlace] at slotInside
    by_cases own : slot = hole
    · subst own
      rw [entryPlaceSame _ inside, entryPlaceOther _ inside (by omega)]
      exact holed.across positive child childPositive within childParent
    · rw [entryPlaceOther _ inside own]
      by_cases sibling : (slot - 1) / 2 = hole
      · rw [sibling, entryPlaceSame _ inside]
        exact greatest slot positive slotInside sibling
      · rw [entryPlaceOther _ inside sibling]
        exact holed.apart slot positive slotInside own sibling
  · rw [sizePlace] at slotInside
    have lower : slot ≠ hole := by omega
    rw [childParent, entryPlaceSame _ inside, entryPlaceOther _ inside lower]
    have edge := holed.apart slot positive slotInside lower (by omega)
    rwa [grandchild] at edge

/-- Every atom fits below its parent on the way to the leaves. -/
theorem siftDownHeaped (compatible : Compatible higher below) (atom fuel : Nat) {hole : Nat}
    {queue : Queue} (enough : queue.entries.size ≤ hole + fuel) (holed : Holed below queue hole)
    (under : UnderParent below queue hole atom) :
    Heaped below (siftDown higher atom fuel hole queue) := by
  induction fuel generalizing hole queue with
  | zero => exact absurd holed.inside (by omega)
  | succ fuel inductionHypothesis =>
      rw [siftDown]
      split
      · next hasChild =>
          obtain ⟨later, within⟩ := higherChildInside higher queue hole hasChild
          obtain ⟨positive, parent⟩ := higherChildParent higher queue hole
          simp only
          split
          · next better =>
              refine inductionHypothesis (by rw [sizePlace]; omega)
                (holed.descend compatible hasChild) fun _ => ?_
              rw [parent, entryPlaceSame _ holed.inside]
              exact compatible.ranked better
          · next worse =>
              refine holed.fill (fun slot slotPositive slotInside child => ?_) under
              exact compatible.trans
                (higherChildGreatest compatible slotPositive slotInside child)
                (compatible.unranked (Bool.eq_false_iff.2 worse))
      · next leaf =>
          exact holed.fill (fun slot _ slotInside child => absurd slotInside (by omega)) under

end Sift

section Operations

variable {higher : Nat → Nat → Bool} {below : Nat → Nat → Prop} {queue : Queue}

theorem emptyHeaped (below : Nat → Nat → Prop) : Heaped below Queue.empty :=
  fun _ _ inside => absurd inside (Nat.not_lt_zero _)

theorem entryPush {slot : Nat} (atom : Nat) (positions : Array (Option Nat))
    (inside : slot < queue.entries.size) :
    (⟨queue.entries.push atom, positions⟩ : Queue).entry slot = queue.entry slot := by
  simp only [entry, Array.getD_eq_getD_getElem?, Array.getElem?_push_lt inside,
    Array.getElem?_eq_getElem inside]

theorem insertHeaped (compatible : Compatible higher below) (heaped : Heaped below queue)
    (atom : Nat) : Heaped below (queue.insert higher atom) := by
  unfold insert
  split
  · exact heaped
  · refine siftUpHeaped compatible atom _ (Nat.le_refl _) ⟨?_, ?_, ?_⟩ ?_
    · simp
    · intro slot positive inside different _
      simp only [Array.size_push] at inside
      rw [entryPush _ _ (by omega), entryPush _ _ (by omega)]
      exact heaped slot positive (by omega)
    · intro _ slot positive inside child
      simp only [Array.size_push] at inside
      omega
    · intro slot positive inside child
      simp only [Array.size_push] at inside
      omega

/-- A raised atom may gain rank among the others, which keep their order. -/
theorem raiseHeaped {before : Nat → Nat → Prop} (compatible : Compatible higher below)
    (indexed : queue.Indexed) (heaped : Heaped before queue)
    (trans : ∀ first second third, before first second → before second third →
      before first third) {atom : Nat}
    (kept : ∀ first second, queue.contains first = true → queue.contains second = true →
      first ≠ atom → before first second → below first second) :
    Heaped below (queue.raise higher atom) := by
  have queued (slot : Nat) (inside : slot < queue.entries.size) :
      queue.position (queue.entry slot) = some slot :=
    (indexed slot _).1 (entryEq inside)
  have edge (slot other : Nat) (inside : slot < queue.entries.size)
      (otherInside : other < queue.entries.size) (different : queue.entry slot ≠ atom)
      (less : before (queue.entry slot) (queue.entry other)) :
      below (queue.entry slot) (queue.entry other) :=
    kept _ _ (by rw [contains, queued slot inside]; rfl)
      (by rw [contains, queued other otherInside]; rfl) different less
  unfold raise
  split
  · next absent =>
      intro slot positive inside
      refine edge slot _ inside (by omega) (fun same => ?_) (heaped slot positive inside)
      rw [← same, queued slot inside] at absent
      contradiction
  · next hole known =>
      have held := (indexed hole atom).2 known
      have holeInside : hole < queue.entries.size := (Array.getElem?_eq_some_iff.1 held).1
      have holeEntry : queue.entry hole = atom := by
        rw [entryEq holeInside] at held
        exact Option.some.inj held
      have other (slot : Nat) (inside : slot < queue.entries.size) (different : slot ≠ hole) :
          queue.entry slot ≠ atom := by
        intro same
        rw [← same, queued slot inside] at known
        exact different (Option.some.inj known)
      refine siftUpHeaped compatible atom hole (Nat.le_refl _) ⟨holeInside, ?_, ?_⟩ ?_
      · intro slot positive inside different _
        exact edge slot _ inside (by omega) (other slot inside different)
          (heaped slot positive inside)
      · intro notRoot slot positive inside child
        have lower := heaped slot positive inside
        rw [child] at lower
        exact edge slot _ inside (by omega) (other slot inside (by omega))
          (trans _ _ _ lower (heaped hole notRoot holeInside))
      · intro slot positive inside child
        have lower := heaped slot positive inside
        have raised := edge slot _ inside (by omega) (other slot inside (by omega)) lower
        rwa [child, holeEntry] at raised

/-- Only the root changes before the last entry sinks. -/
theorem removeTopHeaped (compatible : Compatible higher below) (heaped : Heaped below queue)
    (filled : 0 < queue.entries.size) (top last : Nat) :
    Heaped below (queue.removeTop higher top last) := by
  have size : (queue.entries.setIfInBounds 0 last).pop.size = queue.entries.size - 1 := by simp
  unfold removeTop
  simp only
  split
  · next none =>
      intro slot _ inside
      rw [Array.isEmpty_iff_size_eq_zero] at none
      exact absurd inside (by simp only [none]; omega)
  · next some =>
      rw [Array.isEmpty_iff_size_eq_zero] at some
      have same (positions : Array (Option Nat)) (slot : Nat) (positive : 0 < slot)
          (inside : slot < queue.entries.size - 1) :
          (⟨(queue.entries.setIfInBounds 0 last).pop, positions⟩ : Queue).entry slot =
            queue.entry slot := by
        simp only [entry, Array.getD_eq_getD_getElem?, entryReplaceTop filled, if_pos inside,
          if_neg (Nat.ne_of_gt positive)]
      refine siftDownHeaped compatible last _ (by simp) ⟨Nat.pos_of_ne_zero some, ?_, ?_⟩ ?_
      · intro slot positive inside _ parent
        simp only [size] at inside
        rw [same _ slot positive inside, same _ _ (Nat.pos_of_ne_zero parent) (by omega)]
        exact heaped slot positive (by omega)
      · exact fun impossible => absurd impossible (Nat.lt_irrefl 0)
      · exact fun impossible => absurd impossible (Nat.lt_irrefl 0)

/-- The atom that is taken out is the greatest one. -/
theorem popGreatest (compatible : Compatible higher below) (indexed : queue.Indexed)
    (heaped : Heaped below queue) {top : Nat} {after : Queue}
    (taken : queue.pop higher = (some top, after)) (other : Nat)
    (queued : queue.contains other = true) : below other top := by
  obtain ⟨slot, known⟩ := Option.isSome_iff_exists.1 queued
  have held := (indexed slot other).2 known
  have inside : slot < queue.entries.size := (Array.getElem?_eq_some_iff.1 held).1
  have root := heaped.root compatible slot inside
  rw [entryEq inside] at held
  rw [Option.some.inj held] at root
  unfold pop at taken
  split at taken
  · next first last found final =>
      rw [entryEq (by omega)] at found
      rw [Option.some.inj found] at root
      exact Option.some.inj (congrArg Prod.fst taken) ▸ root
  · cases taken

theorem popHeaped (compatible : Compatible higher below) (heaped : Heaped below queue) :
    Heaped below (queue.pop higher).2 := by
  unfold pop
  split
  · next top last first final =>
      exact removeTopHeaped compatible heaped (Array.getElem?_eq_some_iff.1 first).1 top last
  · exact heaped

end Operations

end ParitySat.Queue
