/-
This file adds clauses and parity constraints to the engine at the root level.
-/

import ParitySat.Engine.State

namespace ParitySat.Engine

/-- A clause without tautology and without true literal is kept, less its false literals. -/
def reduced? (trail : Trail) (literals : List Literal) : Option (List Literal) :=
  let literals := Clause.sorted literals
  if Clause.tautological literals then none
  else if literals.any fun literal => trail.value literal == some true then none
  else some (literals.filter fun literal => trail.value literal != some false)

/-- The constraints are inconsistent if a clause loses all its literals. -/
def addReduced (engine : Engine) : List Literal → Engine
  | [] => { engine with consistent := false }
  | [literal] => (engine.enqueue literal none).propagateRoot
  | literals =>
    { engine with
      network := { engine.network with store := engine.network.store.add { literals } } }

/-- This function adds a clause and creates the atoms it mentions. -/
def addClause (engine : Engine) (literals : List Literal) : Engine :=
  let grown := engine.ensureAtoms (literals.map Literal.atom)
  let counted := { grown with submitted := grown.submitted + 1 }
  if counted.consistent then
    match reduced? counted.network.trail literals with
    | none => counted
    | some literals => counted.addReduced literals
  else counted

/-- This function moves the assigned atoms of a parity constraint to its right-hand side. -/
def substitute (trail : Trail) (parity : Bool) : List Nat → ParityConstraint
  | [] => ⟨[], parity⟩
  | atom :: rest =>
    match trail.atomValue atom with
    | none =>
      let constraint := substitute trail parity rest
      { constraint with atoms := atom :: constraint.atoms }
    | some value => substitute trail (parity != value) rest

/-- A parity constraint over a single atom is a unit. -/
def addSubstituted (engine : Engine) (constraint : ParityConstraint) : Engine :=
  match constraint.atoms with
  | [] => if constraint.parity then { engine with consistent := false } else engine
  | [atom] => (engine.enqueue ⟨atom, !constraint.parity⟩ none).propagateRoot
  | _ =>
    { engine with
      network := { engine.network with parities := engine.network.parities.add constraint } }

/-- This function adds a parity constraint and creates the atoms it mentions. -/
def addParity (engine : Engine) (atoms : List Nat) (parity : Bool) : Engine :=
  let grown := engine.ensureAtoms atoms
  let counted := { grown with submitted := grown.submitted + 1 }
  if counted.consistent then
    counted.addSubstituted
      (substitute counted.network.trail parity (ParityConstraint.normalize atoms))
  else counted

end ParitySat.Engine
