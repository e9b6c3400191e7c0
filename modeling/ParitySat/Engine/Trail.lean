/-
This file defines the trail: the assigned literals in order, cut into decision levels.
-/

import ParitySat.Literal
import ParitySat.Truth

namespace ParitySat

/-- A literal is implied by a stored clause or by a parity constraint. -/
inductive Reason where
  | clause (reference : Nat)
  | parity (index : Nat)
  deriving DecidableEq, Repr

/-- The phase is the sign of the next decision on the atom. -/
structure AtomState where
  value : Truth := none
  level : Nat := 0
  reason : Option Reason := none
  phase : Bool := true
  deriving DecidableEq, Repr, Inhabited

/-- The literals before the head have been propagated. -/
structure Trail where
  atoms : Array AtomState
  literals : Array Literal
  limits : Array Nat
  head : Nat
  deriving Repr, Inhabited

namespace Trail

def empty : Trail :=
  ⟨#[], #[], #[], 0⟩

def grow (trail : Trail) : Trail :=
  { trail with atoms := trail.atoms.push {} }

def atom (trail : Trail) (atom : Nat) : AtomState :=
  trail.atoms.getD atom {}

def atomValue (trail : Trail) (atom : Nat) : Truth :=
  (trail.atom atom).value

/-- This function is the truth of a literal under the current assignment. -/
def value (trail : Trail) (literal : Literal) : Truth :=
  (trail.atomValue literal.atom).flip literal.negated

def atomLevel (trail : Trail) (atom : Nat) : Nat :=
  (trail.atom atom).level

def reason (trail : Trail) (atom : Nat) : Option Reason :=
  (trail.atom atom).reason

/-- This function is the number of open decision levels. -/
def level (trail : Trail) : Nat :=
  trail.limits.size

/-- The literal becomes true at the current level. -/
def enqueue (trail : Trail) (literal : Literal) (reason : Option Reason) : Trail :=
  let level := trail.limits.size
  { trail with
    atoms := trail.atoms.modify literal.atom fun state =>
      { state with value := some !literal.negated, level, reason }
    literals := trail.literals.push literal }

/-- An assignment leaves the values of all other atoms. -/
theorem atomValueEnqueue (trail : Trail) (literal : Literal) (reason : Option Reason)
    {other : Nat} (different : literal.atom ≠ other) :
    (trail.enqueue literal reason).atomValue other = trail.atomValue other := by
  simp [enqueue, atomValue, atom, Array.getD_eq_getD_getElem?, Array.getElem?_modify, different]

def openLevel (trail : Trail) : Trail :=
  { trail with limits := trail.limits.push trail.literals.size }

@[simp] theorem levelEnqueue (trail : Trail) (literal : Literal) (reason : Option Reason) :
    (trail.enqueue literal reason).level = trail.level := rfl

@[simp] theorem levelOpenLevel (trail : Trail) : trail.openLevel.level = trail.level + 1 := by
  simp [openLevel, level]

/-- This function is the length of the trail when a level was opened. -/
def levelStart (trail : Trail) (level : Nat) : Nat :=
  trail.limits.getD level 0

/-- These literals lie above the level, the newest first. -/
def above (trail : Trail) (level : Nat) : List Literal :=
  (trail.literals.extract (trail.levelStart level)).toList.reverse

/-- An undone assignment leaves its sign as the phase. -/
def release (atoms : Array AtomState) (literal : Literal) : Array AtomState :=
  atoms.modify literal.atom fun state =>
    { state with value := none, reason := none, phase := literal.negated }

/-- This function undoes every level above the given one. -/
def cancelUntil (trail : Trail) (level : Nat) : Trail :=
  if level < trail.level then
    let start := trail.levelStart level
    { atoms := (trail.above level).foldl release trail.atoms
      literals := trail.literals.shrink start
      limits := trail.limits.shrink level
      head := start }
  else trail

/-- These literals lose their value when the levels above the given one are undone. -/
def released (trail : Trail) (level : Nat) : List Literal :=
  if level < trail.level then trail.above level else []

/-- This function lists the value of every atom. -/
def values (trail : Trail) : List Truth :=
  trail.atoms.toList.map AtomState.value

end Trail

end ParitySat
