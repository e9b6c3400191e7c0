/-
This file puts a script of prepared answers behind a session and records every call.
-/

import ParitySat.Backend

namespace ParitySat

/-- A scripted answer is a byte and the model that comes with it. -/
structure ScriptedAnswer where
  byte : UInt8
  model : Array UInt8 := #[]
  deriving DecidableEq, Repr

/-- The script never simplifies and never finds an inconsistency. -/
structure ScriptedBackend where
  verbosity : Option Nat := none
  maximumTime : Option Float := none
  maximumConflicts : Option Nat := none
  threads : Option Nat := none
  atomCount : Nat := 0
  clauses : Array (List Literal) := #[]
  parities : Array (List Nat × Bool) := #[]
  solveCalls : Array (List Literal) := #[]
  smallClauses : List (List Literal) := []
  answers : List ScriptedAnswer := []
  model : Array UInt8 := #[]
  traversal : Option (List (List Literal)) := none
  deriving Inhabited

namespace ScriptedBackend

/-- A script at its end answers that the verdict is unknown. -/
def answer (backend : ScriptedBackend) (assumptions : List Literal) : UInt8 × ScriptedBackend :=
  let called := { backend with solveCalls := backend.solveCalls.push assumptions }
  match called.answers with
  | [] => (2, { called with model := #[] })
  | first :: rest => (first.byte, { called with model := first.model, answers := rest })

def nextClause (backend : ScriptedBackend) : Option (List Literal) × ScriptedBackend :=
  match backend.traversal with
  | some (clause :: rest) => (some clause, { backend with traversal := some rest })
  | _ => (none, backend)

/-- The glue of a prepared clause is not known, so its bound is ignored. -/
instance : Backend ScriptedBackend where
  signature := "mock"
  setVerbosity verbosity backend := { backend with verbosity := some verbosity }
  setMaximumTime seconds backend := { backend with maximumTime := some seconds }
  setMaximumConflicts conflicts backend := { backend with maximumConflicts := some conflicts }
  setThreads threads backend := { backend with threads := some threads }
  addAtoms count backend := { backend with atomCount := backend.atomCount + count }
  atomCount backend := backend.atomCount
  clauseCount backend := backend.clauses.size + backend.parities.size
  addClause literals backend := { backend with clauses := backend.clauses.push literals }
  addParity atoms parity backend :=
    { backend with parities := backend.parities.push (atoms, parity) }
  solve _ assumptions backend := .ok (backend.answer assumptions)
  model backend := backend.model
  openTraversal maximumLength _ backend :=
    { backend with
      traversal := some (backend.smallClauses.filter fun clause =>
        clause.length ≤ maximumLength) }
  nextClause := nextClause
  closeTraversal backend := { backend with traversal := none }

end ScriptedBackend

end ParitySat
