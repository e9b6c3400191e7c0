/-
This file shows that the decision queue never leaves the bounds of its arrays.
-/

import ParitySat.Proofs.Checked.Fault
import ParitySat.Proofs.Decision.Order

namespace ParitySat.Checked

/-- Both atoms need an activity. -/
def higher (activity : Array Float) (first second : Nat) : Except Fault Bool := do
  within activity first
  within activity second
  return DecisionOrder.higher activity first second

def place (queue : Queue) (slot atom : Nat) : Except Fault Queue := do
  within queue.entries slot
  within queue.positions atom
  return queue.place slot atom

def siftUp (activity : Array Float) (atom : Nat) : Nat → Nat → Queue → Except Fault Queue
  | 0, slot, queue => place queue slot atom
  | fuel + 1, slot, queue =>
    if slot = 0 then place queue slot atom
    else do
      within queue.entries ((slot - 1) / 2)
      let parent := queue.entry ((slot - 1) / 2)
      if ← higher activity atom parent then
        let moved ← place queue slot parent
        siftUp activity atom fuel ((slot - 1) / 2) moved
      else place queue slot atom

/-- The right child is looked at only if there is one. -/
def higherChild (activity : Array Float) (queue : Queue) (slot : Nat) : Except Fault Nat := do
  let left := 2 * slot + 1
  within queue.entries left
  if left + 1 < queue.entries.size then
    if ← higher activity (queue.entry (left + 1)) (queue.entry left) then return left + 1
    else return left
  else return left

def siftDown (activity : Array Float) (atom : Nat) : Nat → Nat → Queue → Except Fault Queue
  | 0, slot, queue => place queue slot atom
  | fuel + 1, slot, queue =>
    if 2 * slot + 1 < queue.entries.size then do
      let child ← higherChild activity queue slot
      within queue.entries child
      let occupant := queue.entry child
      if ← higher activity occupant atom then
        let moved ← place queue slot occupant
        siftDown activity atom fuel child moved
      else place queue slot atom
    else place queue slot atom

def raise (activity : Array Float) (atom : Nat) (queue : Queue) : Except Fault Queue := do
  within queue.positions atom
  match queue.position atom with
  | none => return queue
  | some slot =>
    within queue.entries slot
    siftUp activity atom slot slot queue

def insert (activity : Array Float) (atom : Nat) (queue : Queue) : Except Fault Queue := do
  within queue.positions atom
  if queue.contains atom then return queue
  else
    let slot := queue.entries.size
    siftUp activity atom slot slot
      { entries := queue.entries.push atom
        positions := queue.positions.setIfInBounds atom (some slot) }

def removeTop (activity : Array Float) (top last : Nat) (queue : Queue) :
    Except Fault Queue := do
  within queue.positions top
  let entries := (queue.entries.setIfInBounds 0 last).pop
  let positions := queue.positions.setIfInBounds top none
  if entries.isEmpty then return ⟨entries, positions⟩
  else
    within positions last
    siftDown activity last entries.size 0 ⟨entries, positions.setIfInBounds last (some 0)⟩

def pop (activity : Array Float) (queue : Queue) : Except Fault (Option Nat × Queue) :=
  match queue.entries[0]?, queue.entries.back? with
  | some top, some last => do
    let removed ← removeTop activity top last queue
    return (some top, removed)
  | _, _ => return (none, queue)

def bump (order : DecisionOrder) (atom : Nat) : Except Fault DecisionOrder := do
  within order.activity atom
  let credited := order.credit atom
  let queue ← raise credited.activity atom credited.queue
  return { credited with queue }

/-- Every queued atom has a position and an activity. -/
structure Fitting (activity : Array Float) (queue : Queue) : Prop where
  capacity : queue.positions.size = activity.size
  entries : ∀ slot atom : Nat, queue.entries[slot]? = some atom → atom < queue.positions.size

section Fitting

variable {activity : Array Float} {queue : Queue}

theorem Fitting.ofIndexed (indexed : queue.Indexed)
    (capacity : queue.positions.size = activity.size) : Fitting activity queue where
  capacity
  entries slot atom held := Queue.Indexed.positionInside ((indexed slot atom).1 held)

theorem Fitting.entry (fitting : Fitting activity queue) {slot : Nat}
    (inside : slot < queue.entries.size) : queue.entry slot < queue.positions.size :=
  fitting.entries slot _ (Queue.entryEq inside)

theorem Fitting.place (fitting : Fitting activity queue) {slot atom : Nat}
    (inside : slot < queue.entries.size) (known : atom < queue.positions.size) :
    Fitting activity (queue.place slot atom) where
  capacity := (Queue.capacityPlace queue slot atom).trans fitting.capacity
  entries other occupant held := by
    rw [Queue.capacityPlace]
    rw [Queue.entriesPlace queue slot atom other inside] at held
    split at held
    · rwa [← Option.some.inj held]
    · exact fitting.entries other occupant held

theorem higherSafe {first second : Nat} (firstKnown : first < activity.size)
    (secondKnown : second < activity.size) :
    higher activity first second = .ok (DecisionOrder.higher activity first second) := by
  rw [higher, withinMet firstKnown, okBind, withinMet secondKnown, okBind, pureOk]

theorem placeSafe {slot atom : Nat} (inside : slot < queue.entries.size)
    (known : atom < queue.positions.size) :
    place queue slot atom = .ok (queue.place slot atom) := by
  rw [place, withinMet inside, okBind, withinMet known, okBind, pureOk]

theorem siftUpSafe (fuel : Nat) {atom slot : Nat} (fitting : Fitting activity queue)
    (inside : slot < queue.entries.size) (known : atom < queue.positions.size) :
    siftUp activity atom fuel slot queue =
      .ok (queue.siftUp (DecisionOrder.higher activity) atom fuel slot) := by
  induction fuel generalizing slot queue with
  | zero => exact placeSafe inside known
  | succ fuel inductionHypothesis =>
      rw [siftUp, Queue.siftUp]
      split
      · exact placeSafe inside known
      · next notRoot =>
          have parentInside : (slot - 1) / 2 < queue.entries.size := by omega
          have parentKnown := fitting.entry parentInside
          have compared : higher activity atom _ = _ :=
            higherSafe (fitting.capacity ▸ known) (fitting.capacity ▸ parentKnown)
          simp only [withinMet parentInside, compared, okBind]
          split
          · rw [placeSafe inside parentKnown, okBind]
            exact inductionHypothesis (fitting.place inside parentKnown)
              (by rwa [Queue.sizePlace]) (by rwa [Queue.capacityPlace])
          · exact placeSafe inside known

theorem higherChildSafe {slot : Nat} (fitting : Fitting activity queue)
    (inside : 2 * slot + 1 < queue.entries.size) :
    higherChild activity queue slot =
      .ok (queue.higherChild (DecisionOrder.higher activity) slot) := by
  have leftKnown := fitting.entry inside
  simp only [higherChild, Queue.higherChild, withinMet inside, okBind]
  by_cases right : 2 * slot + 1 + 1 < queue.entries.size
  · have rightKnown := fitting.entry right
    rw [if_pos right, higherSafe (fitting.capacity ▸ rightKnown) (fitting.capacity ▸ leftKnown),
      okBind, decide_eq_true right, Bool.true_and]
    split <;> rfl
  · rw [if_neg right, decide_eq_false right, Bool.false_and, if_neg Bool.false_ne_true]
    rfl

theorem siftDownSafe (fuel : Nat) {atom slot : Nat} (fitting : Fitting activity queue)
    (inside : slot < queue.entries.size) (known : atom < queue.positions.size) :
    siftDown activity atom fuel slot queue =
      .ok (queue.siftDown (DecisionOrder.higher activity) atom fuel slot) := by
  induction fuel generalizing slot queue with
  | zero => exact placeSafe inside known
  | succ fuel inductionHypothesis =>
      rw [siftDown, Queue.siftDown]
      split
      · next hasChild =>
          obtain ⟨-, childInside⟩ :=
            Queue.higherChildInside (DecisionOrder.higher activity) queue slot hasChild
          have childKnown := fitting.entry childInside
          have compared : higher activity _ atom = _ :=
            higherSafe (fitting.capacity ▸ childKnown) (fitting.capacity ▸ known)
          simp only [higherChildSafe fitting hasChild, withinMet childInside, compared, okBind]
          split
          · rw [placeSafe inside childKnown, okBind]
            exact inductionHypothesis (fitting.place inside childKnown)
              (by rwa [Queue.sizePlace]) (by rwa [Queue.capacityPlace])
          · exact placeSafe inside known
      · exact placeSafe inside known

theorem Fitting.pushed (fitting : Fitting activity queue) {atom : Nat}
    (known : atom < queue.positions.size) : Fitting activity (queue.pushed atom) where
  capacity := Array.size_setIfInBounds.trans fitting.capacity
  entries slot other held := by
    rw [Queue.pushed, Array.size_setIfInBounds]
    rw [Queue.pushed, Array.getElem?_push] at held
    split at held
    · rwa [← Option.some.inj held]
    · exact fitting.entries slot other held

theorem insertSafe {atom : Nat} (fitting : Fitting activity queue)
    (known : atom < queue.positions.size) :
    insert activity atom queue =
      .ok (queue.insert (DecisionOrder.higher activity) atom) := by
  rw [insert, Queue.insert, withinMet known, okBind]
  split
  · rfl
  · exact siftUpSafe _ (fitting.pushed known) (by simp) (by simpa [Queue.pushed] using known)

end Fitting

section Indexed

variable {queue : Queue} (indexed : queue.Indexed)
include indexed

theorem raiseSafe {activity : Array Float} (capacity : queue.positions.size = activity.size)
    {atom : Nat} (known : atom < queue.positions.size) :
    raise activity atom queue = .ok (queue.raise (DecisionOrder.higher activity) atom) := by
  rw [raise, Queue.raise, withinMet known, okBind]
  cases place : queue.position atom with
  | none => rfl
  | some slot =>
      have held := (indexed slot atom).2 place
      have inside : slot < queue.entries.size := (Array.getElem?_eq_some_iff.1 held).1
      simp only
      rw [withinMet inside, okBind]
      exact siftUpSafe _ (.ofIndexed indexed capacity) inside known

theorem popSafe {activity : Array Float} (capacity : queue.positions.size = activity.size) :
    pop activity queue = .ok (queue.pop (DecisionOrder.higher activity)) := by
  rw [pop, Queue.pop]
  cases first : queue.entries[0]? with
  | none => rfl
  | some top =>
      cases final : queue.entries.back? with
      | none => rfl
      | some last =>
          have topInside := Queue.Indexed.positionInside ((indexed 0 top).1 first)
          have lastInside := Queue.Indexed.positionInside (Queue.lastPosition indexed final)
          simp only
          rw [removeTop, Queue.removeTop, withinMet topInside, okBind]
          simp only
          split
          · rfl
          · next nonempty =>
              have size : (queue.entries.setIfInBounds 0 last).pop.size =
                  queue.entries.size - 1 := by
                simp only [Array.size_pop, Array.size_setIfInBounds]
              rw [Array.isEmpty_iff_size_eq_zero, size] at nonempty
              have moved := Queue.replaceTopIndexed indexed first final (by omega)
              have fitting : Fitting activity (queue.replaceTop top last) :=
                .ofIndexed moved (by simpa [Queue.replaceTop] using capacity)
              have sunk := @siftDownSafe activity (queue.replaceTop top last)
                (queue.replaceTop top last).entries.size last 0 fitting
                (by rw [Queue.replaceTop, size]; omega)
                (by simpa [Queue.replaceTop] using lastInside)
              rw [withinMet (by simpa using lastInside), okBind]
              change (siftDown activity last (queue.replaceTop top last).entries.size 0
                (queue.replaceTop top last) >>= _) = _
              rw [sunk]
              rfl

end Indexed

theorem bumpSafe {order : DecisionOrder} (indexed : order.queue.Indexed)
    (capacity : order.queue.positions.size = order.activity.size) {atom : Nat}
    (known : atom < order.queue.positions.size) :
    bump order atom = .ok (order.bump atom) := by
  have size : (order.credit atom).activity.size = order.activity.size := by
    simp only [DecisionOrder.credit]
    split <;> simp [DecisionOrder.rescale]
  rw [bump, withinMet (capacity ▸ known), okBind]
  simp only
  rw [DecisionOrder.queueCredit, raiseSafe indexed (capacity.trans size.symm) known, okBind, pureOk,
    DecisionOrder.bump, DecisionOrder.queueCredit]

end ParitySat.Checked
