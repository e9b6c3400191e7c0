/-
This file defines a binary heap of atoms that knows the slot of every atom it holds.
-/

namespace ParitySat

/-- The positions are the inverse of the entries. -/
structure Queue where
  entries : Array Nat
  positions : Array (Option Nat)
  deriving Repr, Inhabited

namespace Queue

def empty : Queue :=
  ⟨#[], #[]⟩

/-- This function makes room for one more atom, which is not yet queued. -/
def grow (queue : Queue) : Queue :=
  { queue with positions := queue.positions.push none }

def entry (queue : Queue) (slot : Nat) : Nat :=
  queue.entries.getD slot 0

def position (queue : Queue) (atom : Nat) : Option Nat :=
  queue.positions.getD atom none

def contains (queue : Queue) (atom : Nat) : Bool :=
  (queue.position atom).isSome

/-- This function puts an atom into a slot and records the slot. -/
def place (queue : Queue) (slot atom : Nat) : Queue :=
  { entries := queue.entries.setIfInBounds slot atom
    positions := queue.positions.setIfInBounds atom (some slot) }

/-- The hole moves towards the root while the atom ranks above the parent. -/
def siftUp (higher : Nat → Nat → Bool) (atom : Nat) : Nat → Nat → Queue → Queue
  | 0, slot, queue => queue.place slot atom
  | fuel + 1, slot, queue =>
    if slot = 0 then queue.place slot atom
    else
      let parent := queue.entry ((slot - 1) / 2)
      if higher atom parent then
        siftUp higher atom fuel ((slot - 1) / 2) (queue.place slot parent)
      else queue.place slot atom

/-- This function is the slot of the child that ranks above the other one. -/
def higherChild (higher : Nat → Nat → Bool) (queue : Queue) (slot : Nat) : Nat :=
  let left := 2 * slot + 1
  if left + 1 < queue.entries.size && higher (queue.entry (left + 1)) (queue.entry left) then
    left + 1
  else left

/-- The hole moves towards the leaves while a child ranks above the atom. -/
def siftDown (higher : Nat → Nat → Bool) (atom : Nat) : Nat → Nat → Queue → Queue
  | 0, slot, queue => queue.place slot atom
  | fuel + 1, slot, queue =>
    if 2 * slot + 1 < queue.entries.size then
      let child := queue.higherChild higher slot
      let occupant := queue.entry child
      if higher occupant atom then
        siftDown higher atom fuel child (queue.place slot occupant)
      else queue.place slot atom
    else queue.place slot atom

/-- This function restores the order after an atom has gained rank. -/
def raise (higher : Nat → Nat → Bool) (atom : Nat) (queue : Queue) : Queue :=
  match queue.position atom with
  | none => queue
  | some slot => siftUp higher atom slot slot queue

def insert (higher : Nat → Nat → Bool) (atom : Nat) (queue : Queue) : Queue :=
  if queue.contains atom then queue
  else
    let slot := queue.entries.size
    siftUp higher atom slot slot
      { entries := queue.entries.push atom
        positions := queue.positions.setIfInBounds atom (some slot) }

/-- The last entry takes the root of the removed atom and sinks from there. -/
def removeTop (higher : Nat → Nat → Bool) (top last : Nat) (queue : Queue) : Queue :=
  let entries := (queue.entries.setIfInBounds 0 last).pop
  let positions := queue.positions.setIfInBounds top none
  if entries.isEmpty then ⟨entries, positions⟩
  else
    siftDown higher last entries.size 0 ⟨entries, positions.setIfInBounds last (some 0)⟩

/-- This function takes the highest atom out of the queue, if there is any. -/
def pop (higher : Nat → Nat → Bool) (queue : Queue) : Option Nat × Queue :=
  match queue.entries[0]?, queue.entries.back? with
  | some top, some last => (some top, queue.removeTop higher top last)
  | _, _ => (none, queue)

end Queue

end ParitySat
