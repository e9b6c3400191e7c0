/-
This file adds a whole problem to a session.
-/

import ParitySat.Dimacs
import ParitySat.Session

namespace ParitySat.Session

variable {β : Type} [Backend β]

def addParityLines : List ParityLine → Call β Unit
  | [] => pure ()
  | first :: rest => do
    addParity (first.numbers.map HostLiteral.integer) first.parity
    addParityLines rest

/-- The declared variables come first, then the clauses, then the parity constraints. -/
def addProblem (problem : Dimacs) : Call β Unit := do
  addClauses (.list (problem.clauses.map (·.map HostLiteral.integer))) problem.variableCount
  addParityLines problem.parities

end ParitySat.Session
