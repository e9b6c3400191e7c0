/-
This file stores learnt clauses and drops the least useful half of them.
-/

import ParitySat.Engine.State

namespace ParitySat.Engine

/-- A learnt unit is not stored as a clause, and any other learnt clause forces its first
literal. -/
def record (engine : Engine) (analysis : Analysis) : Engine :=
  let counted := { engine with
    statistics := { engine.statistics with learnts := engine.statistics.learnts + 1 } }
  match analysis.literals with
  | [] => counted
  | [literal] =>
    { counted with learntUnits := counted.learntUnits.push literal }.enqueue literal none
  | first :: rest =>
    let reference := counted.network.store.clauses.size
    let clause : Clause := { literals := first :: rest, learnt := true, glue := analysis.glue }
    { counted with
      network := { counted.network with store := counted.network.store.add clause }
      learnts := counted.learnts.push reference }.enqueue first (some (.clause reference))

/-- A clause ranks before another one if its glue is greater, or its length among equals. -/
def ranksBefore (first second : Clause) : Bool :=
  second.glue < first.glue || (first.glue == second.glue && second.length < first.length)

/-- This function inserts a reference in front of all references of no higher rank. -/
def insertRanked (clause : Nat → Clause) (reference : Nat) : List Nat → List Nat
  | [] => [reference]
  | first :: rest =>
    if ranksBefore (clause first) (clause reference) then
      first :: insertRanked clause reference rest
    else reference :: first :: rest

/-- References of equal rank keep their order. -/
def ranked (clause : Nat → Clause) (references : List Nat) : List Nat :=
  references.foldr (insertRanked clause) []

/-- A locked clause is the reason of its first literal. -/
def locked (network : Network) (reference : Nat) : Bool :=
  match network.store.literals reference with
  | [] => false
  | first :: _ =>
    network.trail.value first == some true &&
      network.trail.reason first.atom == some (.clause reference)

/-- A clause of glue two, a binary clause and a reason always stay. -/
def disposable (network : Network) (reference : Nat) : Bool :=
  let clause := network.store.clauses.getD reference default
  2 < clause.glue && 2 < clause.length && !locked network reference

/-- The surviving clauses are numbered anew in their order. -/
def relocations (clauses : List Clause) : Array (Option Nat) :=
  (clauses.foldl
    (fun (state : Array (Option Nat) × Nat) clause =>
      if clause.deleted then (state.1.push none, state.2)
      else (state.1.push (some state.2), state.2 + 1))
    (#[], 0)).1

/-- A reference to a deleted clause is dropped. -/
def relocate (table : Array (Option Nat)) (references : List Nat) : Array Nat :=
  (references.filterMap fun reference => table.getD reference none).toArray

def relocateReason (table : Array (Option Nat)) : Option Reason → Option Reason
  | some (.clause reference) => (table.getD reference none).map .clause
  | reason => reason

/-- This function drops the deleted clauses and renames every reference to the others. -/
def collectGarbage (engine : Engine) : Engine :=
  let network := engine.network
  let clauses := network.store.clauses.toList
  let table := relocations clauses
  { engine with
    network := { network with
      store := {
        clauses := (clauses.filter fun clause => !clause.deleted).toArray
        watches := (network.store.watches.toList.map fun references =>
          relocate table references.toList).toArray }
      trail := { network.trail with
        atoms := (network.trail.atoms.toList.map fun state =>
          { state with reason := relocateReason table state.reason }).toArray } }
    learnts := relocate table engine.learnts.toList }

/-- The disposable clauses in the higher half of the ranking are deleted. -/
def reduce (engine : Engine) : Engine :=
  let network := engine.network
  let ranking := ranked (fun reference => network.store.clauses.getD reference default)
    engine.learnts.toList
  let half := ranking.length / 2
  let victims := (ranking.take half).filter (disposable network)
  let kept := ((ranking.take half).filter fun reference => !disposable network reference) ++
    ranking.drop half
  collectGarbage { engine with
    network := { network with
      store := { network.store with
        clauses := victims.foldl
          (fun clauses reference => clauses.modify reference Clause.markDeleted)
          network.store.clauses } }
    learnts := kept.toArray
    statistics := { engine.statistics with reductions := engine.statistics.reductions + 1 } }

end ParitySat.Engine
