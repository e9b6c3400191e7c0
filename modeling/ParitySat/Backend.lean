/-
This file states what a session needs from the engine behind it.
-/

import ParitySat.Engine.Budget
import ParitySat.Literal

namespace ParitySat

/-- Nothing fails but the search itself, whose answer is one byte. -/
class Backend (β : Type) where
  signature : String
  setVerbosity : Nat → β → β
  setMaximumTime : Float → β → β
  setMaximumConflicts : Nat → β → β
  setThreads : Nat → β → β
  addAtoms : Nat → β → β
  atomCount : β → Nat
  clauseCount : β → Nat
  addClause : List Literal → β → β
  addParity : List Nat → Bool → β → β
  solve : Environment → List Literal → β → Except Stuck (UInt8 × β)
  model : β → Array UInt8
  openTraversal : Nat → Nat → β → β
  nextClause : β → Option (List Literal) × β
  closeTraversal : β → β

namespace Backend

variable {β : Type} [Backend β]

/-- This function adds atoms until there are at least so many. -/
def reserve (count : Nat) (backend : β) : β :=
  if atomCount backend < count then addAtoms (count - atomCount backend) backend else backend

/-- This function adds atoms until the given one exists. -/
def ensureCapacity (atom : Nat) (backend : β) : β :=
  reserve (atom + 1) backend

end Backend

end ParitySat
