/-
This file defines parity constraints: the number of true atoms is odd or even.
-/

import ParitySat.Literal
import ParitySat.Truth

namespace ParitySat

/-- The exclusive or of the atoms equals the parity. -/
structure ParityConstraint where
  atoms : List Nat
  parity : Bool
  deriving DecidableEq, Repr, Inhabited

namespace ParityConstraint

/-- This function inserts an atom into a sorted list, where a pair of equal atoms cancels. -/
def toggle (atom : Nat) : List Nat → List Nat
  | [] => [atom]
  | first :: rest =>
    if atom < first then atom :: first :: rest
    else if atom = first then rest
    else first :: toggle atom rest

/-- This function keeps the atoms that occur an odd number of times, in increasing order. -/
def normalize (atoms : List Nat) : List Nat :=
  atoms.foldr toggle []

/-- This function is the exclusive or of the atoms under a total assignment. -/
def oddness (assignment : Nat → Bool) : List Nat → Bool
  | [] => false
  | atom :: rest => assignment atom != oddness assignment rest

def holds (assignment : Nat → Bool) (constraint : ParityConstraint) : Bool :=
  oddness assignment constraint.atoms == constraint.parity

theorem oddnessToggle (assignment : Nat → Bool) (atom : Nat) (atoms : List Nat) :
    oddness assignment (toggle atom atoms) = (assignment atom != oddness assignment atoms) := by
  induction atoms with
  | nil => rfl
  | cons first rest inductionHypothesis =>
      rw [toggle]
      by_cases below : atom < first
      · simp [below, oddness]
      · by_cases same : atom = first
        · simp [same, oddness]
        · simp only [below, same, if_false, oddness, inductionHypothesis]
          cases assignment atom <;> cases assignment first <;> simp

/-- Normalizing keeps the meaning of a constraint. -/
@[simp] theorem oddnessNormalize (assignment : Nat → Bool) (atoms : List Nat) :
    oddness assignment (normalize atoms) = oddness assignment atoms := by
  induction atoms with
  | nil => rfl
  | cons first rest inductionHypothesis =>
      change oddness assignment (toggle first (normalize rest)) = _
      rw [oddnessToggle, inductionHypothesis]
      rfl

/-- A constraint forces a literal when exactly one atom is undetermined. -/
inductive Status where
  | undecided
  | forces (literal : Literal)
  | violated
  deriving DecidableEq, Repr

/-- The scan remembers the oddness so far and the first undetermined atom. -/
def scan (value : Nat → Truth) (parity : Bool) : List Nat → Bool → Option Nat → Status
  | [], odd, some free => .forces ⟨free, odd == parity⟩
  | [], odd, none => if odd != parity then .violated else .undecided
  | atom :: rest, odd, free =>
    match value atom with
    | none => if free.isSome then .undecided else scan value parity rest odd (some atom)
    | some true => scan value parity rest (!odd) free
    | some false => scan value parity rest odd free

/-- This function examines a constraint under a partial assignment. -/
def status (value : Nat → Truth) (constraint : ParityConstraint) : Status :=
  scan value constraint.parity constraint.atoms false none

/-- These literals are false when every listed atom has a value. -/
def falsified (value : Nat → Truth) (atoms : List Nat) : List Literal :=
  atoms.map fun atom => ⟨atom, value atom == some true⟩

end ParityConstraint

end ParitySat
