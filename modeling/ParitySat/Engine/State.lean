/-
This file defines the state of the engine and the operations that all others share.
-/

import ParitySat.Decision.Order
import ParitySat.Engine.Analysis
import ParitySat.Engine.Budget

namespace ParitySat

/-- The learnt store may grow, and its bound grows in steps that become longer. -/
structure LearntBound where
  maximum : Float := 0.0
  interval : Float := 0.0
  countdown : Nat := 0
  deriving Inhabited

/-- The engine decides satisfiability of clauses and parity constraints under assumptions. -/
structure Engine where
  options : Options
  network : Network
  order : DecisionOrder
  marks : Array Bool
  learnts : Array Nat
  learntUnits : Array Literal
  submitted : Nat
  consistent : Bool
  model : Array Truth
  bound : LearntBound
  random : RandomStream
  traversal : Option (List (List Literal))
  statistics : Statistics
  deriving Inhabited

namespace Engine

/-- The decay and the seed are read once. -/
def ofOptions (options : Options) : Engine :=
  { options
    network := .empty
    order := .empty options.activityDecay
    marks := #[]
    learnts := #[]
    learntUnits := #[]
    submitted := 0
    consistent := true
    model := #[]
    bound := {}
    random := .ofSeed options.seed
    traversal := none
    statistics := {} }

def atomCount (engine : Engine) : Nat :=
  engine.network.atomCount

/-- Every clause and parity constraint ever submitted counts. -/
def clauseCount (engine : Engine) : Nat :=
  engine.submitted

def learntCount (engine : Engine) : Nat :=
  engine.learnts.size + engine.learntUnits.size

def level (engine : Engine) : Nat :=
  engine.network.trail.level

def withTrail (engine : Engine) (trail : Trail) : Engine :=
  { engine with network := { engine.network with trail } }

/-- A new atom is undetermined and waits in the decision queue. -/
def addAtom (engine : Engine) : Engine :=
  let atom := engine.atomCount
  { engine with
    network := engine.network.grow
    order := engine.order.grow.insert atom
    marks := engine.marks.push false }

def addAtoms : Nat → Engine → Engine
  | 0, engine => engine
  | count + 1, engine => addAtoms count engine.addAtom

/-- This function adds atoms until the given one exists. -/
def ensureAtom (engine : Engine) (atom : Nat) : Engine :=
  addAtoms (atom + 1 - engine.atomCount) engine

def ensureAtoms (engine : Engine) (atoms : List Nat) : Engine :=
  atoms.foldl ensureAtom engine

def enqueue (engine : Engine) (literal : Literal) (reason : Option Reason) : Engine :=
  { engine with
    network := { engine.network with trail := engine.network.trail.enqueue literal reason } }

def openLevel (engine : Engine) : Engine :=
  { engine with network := { engine.network with trail := engine.network.trail.openLevel } }

/-- The released atoms return to the decision queue, the newest first. -/
def cancelUntil (engine : Engine) (level : Nat) : Engine :=
  let released := engine.network.trail.released level
  { engine with
    network := { engine.network with trail := engine.network.trail.cancelUntil level }
    order := released.foldl (fun order literal => order.insert literal.atom) engine.order }

def propagate (engine : Engine) : Option Reason × Engine :=
  let propagated := engine.network.propagate
  (propagated.1, { engine with network := propagated.2 })

/-- A conflict at the root level makes the constraints inconsistent. -/
def propagateRoot (engine : Engine) : Engine :=
  match engine.propagate with
  | (some _, engine) => { engine with consistent := false }
  | (none, engine) => engine

end Engine

end ParitySat
