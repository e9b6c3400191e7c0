/-
This file defines the stores of clauses and of parity constraints and their occurrence lists.
-/

import ParitySat.Clause
import ParitySat.Parity

namespace ParitySat

/-- Every clause is watched by its first two literals. -/
structure ClauseStore where
  clauses : Array Clause
  watches : Array (Array Nat)
  deriving Repr, Inhabited

namespace ClauseStore

def empty : ClauseStore :=
  ⟨#[], #[]⟩

def grow (store : ClauseStore) : ClauseStore :=
  { store with watches := (store.watches.push #[]).push #[] }

def literals (store : ClauseStore) (reference : Nat) : List Literal :=
  (store.clauses.getD reference default).literals

/-- These clauses have to be visited when the literal becomes false. -/
def watchers (store : ClauseStore) (literal : Literal) : Array Nat :=
  store.watches.getD literal.index #[]

def setWatchers (store : ClauseStore) (literal : Literal) (references : Array Nat) : ClauseStore :=
  { store with watches := store.watches.setIfInBounds literal.index references }

def watch (store : ClauseStore) (literal : Literal) (reference : Nat) : ClauseStore :=
  { store with watches := store.watches.modify literal.index (·.push reference) }

def setLiterals (store : ClauseStore) (reference : Nat) (literals : List Literal) : ClauseStore :=
  { store with clauses := store.clauses.modify reference fun clause => { clause with literals } }

/-- This function stores a clause under the next reference and watches its first two literals. -/
def add (store : ClauseStore) (clause : Clause) : ClauseStore :=
  let reference := store.clauses.size
  match clause.literals with
  | first :: second :: _ =>
    ({ store with clauses := store.clauses.push clause }.watch first reference).watch
      second reference
  | _ => { store with clauses := store.clauses.push clause }

end ClauseStore

/-- Every parity constraint is listed under each of its atoms. -/
structure ParityStore where
  constraints : Array ParityConstraint
  occurrences : Array (Array Nat)
  deriving Repr, Inhabited

namespace ParityStore

def empty : ParityStore :=
  ⟨#[], #[]⟩

def grow (store : ParityStore) : ParityStore :=
  { store with occurrences := store.occurrences.push #[] }

def constraint (store : ParityStore) (index : Nat) : ParityConstraint :=
  store.constraints.getD index default

def occurrencesOf (store : ParityStore) (atom : Nat) : Array Nat :=
  store.occurrences.getD atom #[]

def add (store : ParityStore) (constraint : ParityConstraint) : ParityStore :=
  let index := store.constraints.size
  { constraints := store.constraints.push constraint
    occurrences := constraint.atoms.foldl
      (fun occurrences atom => occurrences.modify atom (·.push index)) store.occurrences }

end ParityStore

end ParitySat
