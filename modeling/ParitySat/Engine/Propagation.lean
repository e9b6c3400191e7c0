/-
This file propagates the trail through the stored clauses and parity constraints.
-/

import ParitySat.Engine.Store
import ParitySat.Engine.Trail

namespace ParitySat

/-- The constraints together with a partial assignment. -/
structure Network where
  store : ClauseStore
  parities : ParityStore
  trail : Trail
  propagations : Nat
  deriving Repr, Inhabited

namespace Network

def empty : Network :=
  ⟨.empty, .empty, .empty, 0⟩

def grow (network : Network) : Network :=
  { network with
    store := network.store.grow
    parities := network.parities.grow
    trail := network.trail.grow }

def atomCount (network : Network) : Nat :=
  network.trail.atoms.size

end Network

/-- The scan of a watch list keeps the watchers that stay in it. -/
structure WatchScan where
  store : ClauseStore
  trail : Trail
  kept : Array Nat
  conflict : Option Nat

namespace WatchScan

/-- A true first literal keeps its watcher, and so does a clause without another usable literal. -/
def examine (scan : WatchScan) (reference : Nat) (first second : Literal)
    (rest : List Literal) : WatchScan :=
  let store := scan.store
  let trail := scan.trail
  if trail.value first = some true then
    { scan with
      store := store.setLiterals reference (first :: second :: rest)
      kept := scan.kept.push reference }
  else
    match Clause.exchange (fun literal => trail.value literal != some false) second rest with
    | some (watched, others) =>
      { scan with
        store := (store.setLiterals reference (first :: watched :: others)).watch
          watched reference }
    | none =>
      let store := store.setLiterals reference (first :: second :: rest)
      if trail.value first = some false then
        { scan with store, kept := scan.kept.push reference, conflict := some reference }
      else
        { scan with
          store
          trail := trail.enqueue first (some (.clause reference))
          kept := scan.kept.push reference }

/-- After a conflict every remaining watcher stays. -/
def step (falseLiteral : Literal) (scan : WatchScan) (reference : Nat) : WatchScan :=
  if scan.conflict.isSome then { scan with kept := scan.kept.push reference }
  else
    let clause := scan.store.clauses.getD reference default
    if clause.deleted then scan
    else
      match Clause.orient falseLiteral clause.literals with
      | first :: second :: rest => scan.examine reference first second rest
      | _ => { scan with kept := scan.kept.push reference }

end WatchScan

namespace Network

/-- This function visits the watchers of a literal that has become false. -/
def propagateClauses (network : Network) (falseLiteral : Literal) : Option Nat × Network :=
  let watchers := network.store.watchers falseLiteral
  let start : WatchScan :=
    ⟨network.store.setWatchers falseLiteral #[], network.trail, #[], none⟩
  let scan := watchers.toList.foldl (WatchScan.step falseLiteral) start
  (scan.conflict,
    { network with
      store := scan.store.setWatchers falseLiteral scan.kept
      trail := scan.trail })

/-- This function visits the listed parity constraints until one is violated. -/
def propagateParities (network : Network) : List Nat → Option Nat × Network
  | [] => (none, network)
  | index :: rest =>
    match (network.parities.constraint index).status network.trail.atomValue with
    | .undecided => propagateParities network rest
    | .forces literal =>
      propagateParities
        { network with trail := network.trail.enqueue literal (some (.parity index)) } rest
    | .violated => (some index, network)

/-- This function takes the next literal of the trail to be propagated. -/
def advance (network : Network) : Network :=
  { network with
    trail := { network.trail with head := network.trail.head + 1 }
    propagations := network.propagations + 1 }

/-- A conflict leaves nothing to be propagated. -/
def exhaust (network : Network) : Network :=
  { network with trail := { network.trail with head := network.trail.literals.size } }

/-- This function propagates one literal that has become true. -/
def propagateLiteral (network : Network) (literal : Literal) : Option Reason × Network :=
  match network.propagateClauses literal.negate with
  | (some reference, network) => (some (.clause reference), network)
  | (none, network) =>
    let visited := network.propagateParities
      (network.parities.occurrencesOf literal.atom).toList
    (visited.1.map .parity, visited.2)

def propagateLoop : Nat → Network → Option Reason × Network
  | 0, network => (none, network)
  | fuel + 1, network =>
    match network.trail.literals[network.trail.head]? with
    | none => (none, network)
    | some literal =>
      match network.advance.propagateLiteral literal with
      | (some conflict, network) => (some conflict, network.exhaust)
      | (none, network) => propagateLoop fuel network

/-- The trail never holds an atom twice, so the number of atoms bounds the loop. -/
def propagate (network : Network) : Option Reason × Network :=
  propagateLoop (network.atomCount - network.trail.head) network

/-- These literals are false and force the implied atom, if any. -/
def explain (network : Network) (implied : Option Nat) : Reason → List Literal
  | .clause reference =>
    (network.store.literals reference).filter fun literal => some literal.atom != implied
  | .parity index =>
    ParityConstraint.falsified network.trail.atomValue
      ((network.parities.constraint index).atoms.filter fun atom => some atom != implied)

end Network

end ParitySat
