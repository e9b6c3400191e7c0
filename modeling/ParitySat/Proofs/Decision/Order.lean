/-
This file lifts the bookkeeping of the decision queue to the decision order.
-/

import ParitySat.Decision.Order
import ParitySat.Literal
import ParitySat.Proofs.Decision.Queue

namespace ParitySat.DecisionOrder

theorem queueInsert (order : DecisionOrder) (atom : Nat) :
    (order.insert atom).queue = order.queue.insert (higher order.activity) atom := rfl

@[simp] theorem queueGrow (order : DecisionOrder) : order.grow.queue = order.queue.grow := rfl

@[simp] theorem queueCredit (order : DecisionOrder) (atom : Nat) :
    (order.credit atom).queue = order.queue := by
  simp only [credit]
  split <;> rfl

theorem sizeCredit (order : DecisionOrder) (atom : Nat) :
    (order.credit atom).activity.size = order.activity.size := by
  simp only [credit]
  split
  · simp only [rescale, List.size_toArray, List.length_map, Array.length_toList,
      Array.size_setIfInBounds]
  · exact Array.size_setIfInBounds

theorem activityBump (order : DecisionOrder) (atom : Nat) :
    (order.bump atom).activity = (order.credit atom).activity := by
  simp only [bump]

theorem queueBump (order : DecisionOrder) (atom : Nat) :
    (order.bump atom).queue = order.queue.raise (higher (order.credit atom).activity) atom := by
  simp only [bump, queueCredit]

/-- A bump only rearranges the queue, whatever the activities compare to. -/
theorem bumpRearranges (atom : Nat) {order : DecisionOrder} (indexed : order.queue.Indexed) :
    Queue.Rearranges order.queue (order.bump atom).queue := by
  rw [queueBump]
  exact Queue.raiseRearranges _ atom indexed

theorem bumpAllRearranges (atoms : List Nat) {order : DecisionOrder}
    (indexed : order.queue.Indexed) :
    Queue.Rearranges order.queue (atoms.foldl bump order).queue := by
  induction atoms generalizing order with
  | nil => exact Queue.Rearranges.refl indexed
  | cons atom rest inductionHypothesis =>
      have bumped := bumpRearranges atom indexed
      rw [List.foldl_cons]
      exact bumped.trans (inductionHypothesis bumped.indexed)

/-- The atoms of the literals are queued one after the other. -/
def insertAll (order : DecisionOrder) (literals : List Literal) : DecisionOrder :=
  literals.foldl (fun order literal => order.insert literal.atom) order

/-- Afterwards exactly the old atoms and the atoms of the literals are queued. -/
theorem insertAllInserted (literals : List Literal) {order : DecisionOrder}
    (indexed : order.queue.Indexed)
    (inside : ∀ literal ∈ literals, literal.atom < order.queue.positions.size) :
    (order.insertAll literals).queue.Indexed ∧
      (order.insertAll literals).queue.positions.size = order.queue.positions.size ∧
      ∀ atom, (order.insertAll literals).contains atom = true ↔
        order.contains atom = true ∨ ∃ literal ∈ literals, literal.atom = atom := by
  induction literals generalizing order with
  | nil => simp [insertAll, indexed]
  | cons first rest inductionHypothesis =>
      have inserted := Queue.insertInserted (higher order.activity) first.atom indexed
        (inside first List.mem_cons_self)
      rw [← queueInsert] at inserted
      obtain ⟨restIndexed, restCapacity, restContains⟩ := inductionHypothesis inserted.indexed
        (fun literal member => by
          rw [inserted.capacity]
          exact inside literal (List.mem_cons_of_mem _ member))
      refine ⟨restIndexed, restCapacity.trans inserted.capacity, fun atom => ?_⟩
      change (insertAll (order.insert first.atom) rest).contains atom = true ↔ _
      rw [restContains]
      simp only [contains, inserted.contains, Bool.or_eq_true, beq_iff_eq, List.mem_cons]
      grind

end ParitySat.DecisionOrder
