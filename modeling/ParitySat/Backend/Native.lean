/-
This file puts the engine of this library behind a session.
-/

import ParitySat.Backend
import ParitySat.Duration
import ParitySat.Engine.Solve
import ParitySat.Engine.Traversal

namespace ParitySat

namespace Engine

/-- A limit that is zero, negative or too large to represent is no limit. -/
def timeLimit (seconds : Float) : Option Nat :=
  if 0.0 < seconds then Duration.ofSeconds? seconds else none

def updateOptions (update : Options → Options) (engine : Engine) : Engine :=
  { engine with options := update engine.options }

instance : Backend Engine where
  signature := "cryptosat-engine"
  setVerbosity verbosity := updateOptions fun options => { options with verbosity }
  setMaximumTime seconds :=
    updateOptions fun options => { options with maximumTime := timeLimit seconds }
  setMaximumConflicts conflicts := updateOptions fun options =>
    { options with maximumConflicts := if 0 < conflicts then some conflicts else none }
  setThreads threads := updateOptions fun options => { options with threads := max threads 1 }
  addAtoms := addAtoms
  atomCount := atomCount
  clauseCount := clauseCount
  addClause literals engine := engine.addClause literals
  addParity atoms parity engine := engine.addParity atoms parity
  solve environment assumptions engine :=
    (engine.solve environment assumptions).map fun answer => (answer.1.toByte, answer.2)
  model engine := (engine.model.toList.map Truth.toByte).toArray
  openTraversal maximumLength maximumGlue engine := engine.openTraversal maximumLength maximumGlue
  nextClause := nextLearnt
  closeTraversal := closeTraversal

/-- This text names the engine together with its signature. -/
def display : String :=
  "NativeEngine(" ++ Backend.signature Engine ++ ")"

end Engine

end ParitySat
