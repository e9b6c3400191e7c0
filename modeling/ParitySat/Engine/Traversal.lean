/-
This file lets the caller walk through a snapshot of the learnt clauses.
-/

import ParitySat.Engine.State

namespace ParitySat.Engine

/-- The learnt units come first and pass any positive bounds. -/
def smallLearnts (engine : Engine) (maximumLength maximumGlue : Nat) : List (List Literal) :=
  let units :=
    if 1 ≤ maximumLength && 1 ≤ maximumGlue then engine.learntUnits.toList.map ([·]) else []
  let clauses := engine.learnts.toList.filterMap fun reference =>
    let clause := engine.network.store.clauses.getD reference default
    if !clause.deleted && clause.length ≤ maximumLength && clause.glue ≤ maximumGlue then
      some clause.literals
    else none
  units ++ clauses

/-- A new traversal replaces the previous one. -/
def openTraversal (engine : Engine) (maximumLength maximumGlue : Nat) : Engine :=
  { engine with traversal := some (engine.smallLearnts maximumLength maximumGlue) }

/-- This function has no answer when the traversal is at its end or closed. -/
def nextLearnt (engine : Engine) : Option (List Literal) × Engine :=
  match engine.traversal with
  | some (clause :: rest) => (some clause, { engine with traversal := some rest })
  | _ => (none, engine)

def closeTraversal (engine : Engine) : Engine :=
  { engine with traversal := none }

end ParitySat.Engine
