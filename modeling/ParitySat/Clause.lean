/-
This file defines clauses and the simplifications a new clause undergoes.
-/

import ParitySat.Literal

namespace ParitySat

/-- The glue is the number of decision levels among the literals when the clause was learnt. -/
structure Clause where
  literals : List Literal
  learnt : Bool := false
  glue : Nat := 0
  deleted : Bool := false
  deriving DecidableEq, Repr, Inhabited

namespace Clause

def length (clause : Clause) : Nat :=
  clause.literals.length

def isEmpty (clause : Clause) : Bool :=
  clause.literals.isEmpty

def markDeleted (clause : Clause) : Clause :=
  { clause with deleted := true }

/-- A total assignment satisfies the literals if one of them is true. -/
def holds (assignment : Nat → Bool) (literals : List Literal) : Bool :=
  literals.any (·.holds assignment)

/-- This function inserts a literal into a sorted list unless it is there already. -/
def insertSorted (literal : Literal) : List Literal → List Literal
  | [] => [literal]
  | first :: rest =>
    if literal.index < first.index then literal :: first :: rest
    else if literal = first then first :: rest
    else first :: insertSorted literal rest

/-- This function sorts the literals and drops repetitions. -/
def sorted (literals : List Literal) : List Literal :=
  literals.foldr insertSorted []

theorem holdsInsertSorted (assignment : Nat → Bool) (literal : Literal)
    (literals : List Literal) :
    holds assignment (insertSorted literal literals) =
      (literal.holds assignment || holds assignment literals) := by
  induction literals with
  | nil => rfl
  | cons first rest inductionHypothesis =>
      simp only [holds] at inductionHypothesis ⊢
      rw [insertSorted]
      by_cases below : literal.index < first.index
      · simp [below]
      · by_cases same : literal = first
        · simp [same]
        · simp only [below, same, if_false, List.any_cons, inductionHypothesis]
          exact Bool.or_left_comm _ _ _

/-- Sorting keeps the meaning of a clause. -/
@[simp] theorem holdsSorted (assignment : Nat → Bool) (literals : List Literal) :
    holds assignment (sorted literals) = holds assignment literals := by
  induction literals with
  | nil => rfl
  | cons first rest inductionHypothesis =>
      change holds assignment (insertSorted first (sorted rest)) = _
      rw [holdsInsertSorted, inductionHypothesis]
      rfl

/-- The two signs of an atom are neighbours in a sorted list. -/
def tautological : List Literal → Bool
  | first :: second :: rest => first = second.negate || tautological (second :: rest)
  | _ => false

/-- This function moves the false literal from the first to the second position. -/
def orient (falseLiteral : Literal) : List Literal → List Literal
  | first :: second :: rest =>
    if first = falseLiteral then second :: first :: rest else first :: second :: rest
  | literals => literals

/-- The first usable literal changes places with the given one. -/
def exchange (usable : Literal → Bool) (given : Literal) :
    List Literal → Option (Literal × List Literal)
  | [] => none
  | first :: rest =>
    if usable first then some (first, given :: rest)
    else (exchange usable given rest).map fun found => (found.1, first :: found.2)

/-- An exchange keeps the literals of a clause and finds a usable one. -/
theorem exchangePermutes {usable : Literal → Bool} {given found : Literal}
    {literals others : List Literal}
    (exchanged : exchange usable given literals = some (found, others)) :
    usable found = true ∧ List.Perm (found :: others) (given :: literals) := by
  induction literals generalizing found others with
  | nil => simp [exchange] at exchanged
  | cons first rest inductionHypothesis =>
      rw [exchange] at exchanged
      by_cases ready : usable first = true
      · rw [if_pos ready] at exchanged
        obtain ⟨rfl, rfl⟩ := Prod.mk.inj (Option.some.inj exchanged)
        exact ⟨ready, List.Perm.swap _ _ _⟩
      · rw [if_neg ready, Option.map_eq_some_iff] at exchanged
        obtain ⟨⟨inner, remaining⟩, within, same⟩ := exchanged
        obtain ⟨rfl, rfl⟩ := Prod.mk.inj same
        have tail := inductionHypothesis within
        refine ⟨tail.1, ?_⟩
        exact (List.Perm.swap _ _ _).trans ((tail.2.cons first).trans (List.Perm.swap _ _ _))

end Clause

end ParitySat
