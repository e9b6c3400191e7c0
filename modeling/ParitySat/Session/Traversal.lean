/-
This file walks through the learnt clauses of a session.
-/

import ParitySat.Session

namespace ParitySat.Session

variable {β : Type} [Backend β]

/-- The bound on the glue if the caller gives none. -/
def defaultMaximumGlue : Nat := 1000

def openTraversal (maximumLength maximumGlue : Nat) : Call β Unit :=
  modify fun session =>
    { backend := Backend.openTraversal maximumLength maximumGlue session.backend
      traversing := true }

/-- The end of the traversal is no failure, but a closed traversal is. -/
def nextClause : Call β (Option (List Literal)) := do
  let session ← get
  if session.traversing then
    let (clause, backend) := Backend.nextClause session.backend
    set { session with backend }
    return clause
  else throw .noTraversal

def closeTraversal : Call β Unit :=
  modify fun session =>
    if session.traversing then
      { backend := Backend.closeTraversal session.backend, traversing := false }
    else session

end ParitySat.Session
