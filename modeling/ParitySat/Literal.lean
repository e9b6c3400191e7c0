/-
This file defines literals, their signed external form and their truth under an assignment.
-/

namespace ParitySat

/-- A literal is an atom, counted from zero, with a sign. -/
structure Literal where
  atom : Nat
  negated : Bool
  deriving DecidableEq, Repr, Inhabited

namespace Literal

/-- This function flips the sign. -/
def negate (literal : Literal) : Literal :=
  { literal with negated := !literal.negated }

/-- Literals are numbered so that the two signs of an atom are neighbours. -/
def index (literal : Literal) : Nat :=
  2 * literal.atom + literal.negated.toNat

/-- The external form counts atoms from one and writes a negation as a minus sign. -/
def external (literal : Literal) : Int :=
  if literal.negated then -((literal.atom : Int) + 1) else (literal.atom : Int) + 1

/-- This function is the decimal text of the external form. -/
def text (literal : Literal) : String :=
  toString literal.external

/-- This function is the truth of a literal under a total assignment. -/
def holds (assignment : Nat → Bool) (literal : Literal) : Bool :=
  assignment literal.atom != literal.negated

@[simp] theorem atomNegate (literal : Literal) : literal.negate.atom = literal.atom := rfl

@[simp] theorem negatedNegate (literal : Literal) :
    literal.negate.negated = !literal.negated := rfl

@[simp] theorem negateNegate (literal : Literal) : literal.negate.negate = literal := by
  cases literal
  simp [negate]

@[simp] theorem holdsNegate (assignment : Nat → Bool) (literal : Literal) :
    literal.negate.holds assignment = !literal.holds assignment := by
  cases literal with
  | mk atom negated => cases negated <;> simp [negate, holds]

theorem indexInjective {first second : Literal} (same : first.index = second.index) :
    first = second := by
  cases first with
  | mk firstAtom firstNegated =>
    cases second with
    | mk secondAtom secondNegated =>
      cases firstNegated <;> cases secondNegated <;> simp [index] at same ⊢ <;> omega

/-- Every natural number is the index of a literal. -/
theorem indexSurjective (slot : Nat) : ∃ literal : Literal, literal.index = slot := by
  refine ⟨⟨slot / 2, slot % 2 == 1⟩, ?_⟩
  rcases Nat.mod_two_eq_zero_or_one slot with even | odd
  · simp only [index, even, Nat.reduceBEq, Bool.toNat_false]
    omega
  · simp only [index, odd, BEq.rfl, Bool.toNat_true]
    omega

end Literal

end ParitySat
