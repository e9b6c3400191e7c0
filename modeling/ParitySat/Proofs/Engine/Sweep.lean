/-
This file runs a propagation one visit at a time, and shows that the visits make up the propagation.
-/

import Mathlib.Logic.Relation
import ParitySat.Proofs.Engine.Propagation

namespace ParitySat

namespace Trail

/-- The trail has been continued, and nothing is known anew about the literals that it had. -/
structure Appends (before after : Trail) : Prop where
  literals : before.literals.toList <+: after.literals.toList
  atoms : ∀ literal ∈ before.literals.toList, after.atom literal.atom = before.atom literal.atom

/-- The head and the levels do not matter. -/
theorem Appends.ofSame {before after : Trail} (atoms : after.atoms = before.atoms)
    (literals : after.literals = before.literals) : before.Appends after where
  literals := literals ▸ List.prefix_refl _
  atoms literal _ := by rw [Trail.atom, Trail.atom, atoms]

theorem appendsEnqueue {trail : Trail} {literal : Literal} (reason : Option Reason)
    (absent : ∀ other ∈ trail.literals.toList, other.atom ≠ literal.atom) :
    trail.Appends (trail.enqueue literal reason) where
  literals := by
    rw [literalsEnqueue]
    exact List.prefix_append _ _
  atoms other member := by
    rw [atomEnqueue, if_neg fun same => absent other member same.1.symm]

theorem Coherent.appends {trail : Trail} (coherent : trail.Coherent) {literal : Literal}
    (reason : Option Reason) (unknown : trail.atomValue literal.atom = none) :
    trail.Appends (trail.enqueue literal reason) :=
  appendsEnqueue reason fun _ member => coherent.undetermined unknown member

end Trail

theorem Network.Propagates.appends {start network : Network}
    (propagates : start.Propagates network) (shaped : start.Shaped) :
    start.trail.Appends network.trail := by
  obtain ⟨added, grown, -, kept⟩ := propagates.trail shaped
  exact ⟨⟨added, grown.symm⟩, kept⟩

/-- A visit to a watcher assigns an undetermined literal, or it leaves the trail. -/
theorem WatchScan.appendsStep (falseLiteral : Literal) (scan : WatchScan)
    (coherent : scan.trail.Coherent) (reference : Nat) :
    scan.trail.Appends (scan.step falseLiteral reference).trail := by
  have same : scan.trail.Appends scan.trail := .ofSame rfl rfl
  simp only [step, examine]
  split
  · exact same
  · split
    · exact same
    · split
      · next first _ _ _ =>
          split
          · exact same
          · split
            · exact same
            · split
              · exact same
              · refine coherent.appends _ ((Trail.valueNone _ _).1 ?_)
                cases value : scan.trail.value first with
                | none => rfl
                | some truth => cases truth <;> contradiction
      · exact same

namespace Network

/-- After a conflict no literal waits for propagation. -/
theorem Shaped.exhaust {network : Network} (shaped : network.Shaped) : network.exhaust.Shaped :=
  shaped.advance shaped.trail.bounded (Nat.le_refl _)

/-- Propagating the next literal is the first part of a propagation. -/
theorem propagateTurn {network : Network} (ready : network.Ready) {literal : Literal}
    (found : network.trail.literals[network.trail.head]? = some literal) :
    network.propagate =
      match network.advance.propagateLiteral literal with
      | (some conflict, after) => (some conflict, after.exhaust)
      | (none, after) => after.propagate := by
  have inside : network.trail.head < network.trail.literals.size :=
    (Array.getElem?_eq_some_iff.1 found).1
  have size : network.trail.literals.size ≤ network.atomCount := ready.shaped.trail.sizeLe
  obtain ⟨propagated, next⟩ := propagateLiteralSpec ready found
  have atoms := propagated.propagates.frame.2.2.1
  obtain ⟨fuel, fuelLeft⟩ : ∃ fuel, network.atomCount - network.trail.head = fuel + 1 :=
    ⟨network.atomCount - network.trail.head - 1, by omega⟩
  rw [propagate, fuelLeft, propagateLoop, found]
  simp only
  generalize network.advance.propagateLiteral literal = result at atoms next ⊢
  obtain ⟨conflict, after⟩ := result
  cases conflict with
  | some conflict => rfl
  | none =>
      have head := (next rfl).2
      simp only at head atoms ⊢
      have same : after.atomCount - after.trail.head = fuel := by omega
      rw [propagate, same]

theorem propagateEnd {network : Network}
    (missing : network.trail.literals[network.trail.head]? = none) :
    network.propagate = (none, network) := by
  unfold propagate
  cases network.atomCount - network.trail.head with
  | zero => rfl
  | succ fuel => rw [propagateLoop, missing]

/-- This network has the clauses and the trail of a scan. -/
def scanned (network : Network) (scan : WatchScan) : Network :=
  { network with store := scan.store, trail := scan.trail }

/-- A scan begins with an empty list of kept watchers. -/
def startScan (network : Network) (falseLiteral : Literal) : WatchScan :=
  ⟨network.store.setWatchers falseLiteral #[], network.trail, #[], none⟩

/-- At the end of a scan the kept watchers are put back. -/
def putBack (network : Network) (falseLiteral : Literal) (kept : Array Nat) : Network :=
  { network with store := network.store.setWatchers falseLiteral kept }

end Network

/-- A propagation takes the next literal, visits a watcher or a parity constraint, or has ended. -/
inductive Stage where
  | turn
  | watchers (literal : Literal) (pending : List Nat) (kept : Array Nat) (conflict : Option Nat)
  | parities (pending : List Nat)
  | ended (conflict : Option Reason)
  deriving DecidableEq

/-- A sweep is a propagation under way. -/
structure Sweep where
  network : Network
  stage : Stage

namespace Sweep

def start (network : Network) : Sweep :=
  ⟨network, .turn⟩

/-- In the middle of a scan the network has the clauses and the trail of the scan. -/
def scanning (network : Network) (literal : Literal) (pending : List Nat) (scan : WatchScan) :
    Sweep :=
  ⟨network.scanned scan, .watchers literal pending scan.kept scan.conflict⟩

/-- After the watchers of a literal its parity constraints are visited, unless there is a conflict. -/
def afterWatchers (network : Network) (literal : Literal) : Option Nat → Sweep
  | some reference => ⟨network.exhaust, .ended (some (.clause reference))⟩
  | none => ⟨network, .parities (network.parities.occurrencesOf literal.atom).toList⟩

/-- This function visits the next parity constraint. -/
def visitParity (network : Network) (index : Nat) (pending : List Nat) : Sweep :=
  match (network.parities.constraint index).status network.trail.atomValue with
  | .undecided => ⟨network, .parities pending⟩
  | .forces literal => ⟨network.assign literal (some (.parity index)), .parities pending⟩
  | .violated => ⟨network.exhaust, .ended (some (.parity index))⟩

/-- This function makes the next visit, if there is one. -/
def next (sweep : Sweep) : Option Sweep :=
  let network := sweep.network
  match sweep.stage with
  | .turn =>
    match network.trail.literals[network.trail.head]? with
    | none => some ⟨network, .ended none⟩
    | some literal =>
      some (scanning network.advance literal (network.store.watchers literal.negate).toList
        (network.advance.startScan literal.negate))
  | .watchers literal (reference :: pending) kept conflict =>
    some (scanning network literal pending
      (WatchScan.step literal.negate ⟨network.store, network.trail, kept, conflict⟩ reference))
  | .watchers literal [] kept conflict =>
    some (afterWatchers (network.putBack literal.negate kept) literal conflict)
  | .parities (index :: pending) => some (visitParity network index pending)
  | .parities [] => some (start network)
  | .ended _ => none

/-- The sweeps to which the visits lead. -/
def Reaches : Sweep → Sweep → Prop :=
  Relation.ReflTransGen fun first second => first.next = some second

section Ends

/-- The watchers are visited one after the other. -/
theorem reachesWatchers (network : Network) (literal : Literal) (pending : List Nat)
    (scan : WatchScan) :
    (scanning network literal pending scan).Reaches
      (scanning network literal [] (pending.foldl (WatchScan.step literal.negate) scan)) := by
  induction pending generalizing scan with
  | nil => exact .refl
  | cons reference rest inductionHypothesis =>
      exact .head rfl (inductionHypothesis (scan.step literal.negate reference))

/-- The parity constraints are visited until one is violated. -/
theorem reachesParities (network : Network) (pending : List Nat) :
    Reaches ⟨network, .parities pending⟩
      (match network.propagateParities pending with
        | (some index, after) => ⟨after.exhaust, .ended (some (.parity index))⟩
        | (none, after) => start after) := by
  induction pending generalizing network with
  | nil => exact .single rfl
  | cons index rest inductionHypothesis =>
      have visit : next ⟨network, .parities (index :: rest)⟩ =
        some (visitParity network index rest) := rfl
      rw [Network.propagateParities]
      rw [visitParity] at visit
      cases status : (network.parities.constraint index).status network.trail.atomValue with
      | undecided =>
          rw [status] at visit
          exact .head visit (inductionHypothesis network)
      | forces literal =>
          rw [status] at visit
          exact .head visit (inductionHypothesis (network.assign literal (some (.parity index))))
      | violated =>
          rw [status] at visit
          exact .single visit

/-- The visits for one literal make up its propagation. -/
theorem reachesLiteral (network : Network) (literal : Literal) :
    (scanning network literal (network.store.watchers literal.negate).toList
        (network.startScan literal.negate)).Reaches
      (match network.propagateLiteral literal with
        | (some conflict, after) => ⟨after.exhaust, .ended (some conflict)⟩
        | (none, after) => start after) := by
  let scan := (network.store.watchers literal.negate).toList.foldl
    (WatchScan.step literal.negate) (network.startScan literal.negate)
  let after := (network.scanned scan).putBack literal.negate scan.kept
  have clauses : network.propagateClauses literal.negate = (scan.conflict, after) := rfl
  refine (reachesWatchers network literal _ _).trans (.head rfl ?_)
  change Reaches (afterWatchers after literal scan.conflict) _
  rw [Network.propagateLiteral, clauses]
  cases scan.conflict with
  | some reference => exact .refl
  | none =>
      have visited := reachesParities after (after.parities.occurrencesOf literal.atom).toList
      simp only [afterWatchers]
      generalize after.propagateParities _ = result at visited ⊢
      obtain ⟨violated, last⟩ := result
      cases violated with
      | none => exact visited
      | some index => exact visited

/-- Every propagation has an end, and there its result has been found. -/
theorem reachesEnd {network : Network} (ready : network.Ready) :
    (start network).Reaches ⟨network.propagate.2, .ended network.propagate.1⟩ := by
  induction left : network.atomCount - network.trail.head using Nat.strongRecOn
    generalizing network with
  | ind left inductionHypothesis =>
      cases found : network.trail.literals[network.trail.head]? with
      | none =>
          rw [Network.propagateEnd found]
          exact .single (by simp only [start, next, found])
      | some literal =>
          have begun : next (start network) = some (scanning network.advance literal
              (network.store.watchers literal.negate).toList
              (network.advance.startScan literal.negate)) := by
            simp only [start, next, found]
          obtain ⟨propagated, advanced⟩ := Network.propagateLiteralSpec ready found
          have inside : network.trail.head < network.trail.literals.size :=
            (Array.getElem?_eq_some_iff.1 found).1
          have size : network.trail.literals.size ≤ network.atomCount := ready.shaped.trail.sizeLe
          have atoms := propagated.propagates.frame.2.2.1
          have visited := reachesLiteral network.advance literal
          refine .head begun (visited.trans ?_)
          rw [Network.propagateTurn ready found]
          generalize network.advance.propagateLiteral literal = result at advanced atoms ⊢
          obtain ⟨conflict, after⟩ := result
          cases conflict with
          | some conflict => exact .refl
          | none =>
              obtain ⟨afterReady, head⟩ := advanced rfl
              simp only at head atoms
              exact inductionHypothesis _ (by omega) afterReady rfl

end Ends

/-- What is known of a sweep: it goes on with the propagation with which it began. -/
inductive Sound (begun : Network) : Sweep → Prop where
  | turn {network : Network} (ready : network.Ready)
      (rest : begun.propagate = network.propagate) : Sound begun ⟨network, .turn⟩
  | watchers {before : Network} {literal : Literal} {pending : List Nat} {scan : WatchScan}
      (ready : before.Ready) (rest : begun.propagate = before.propagate)
      (found : before.trail.literals[before.trail.head]? = some literal)
      (visits : scan.Visits before.advance literal.negate before.trail.head pending)
      (done : pending.foldl (WatchScan.step literal.negate) scan =
        (before.store.watchers literal.negate).toList.foldl (WatchScan.step literal.negate)
          (before.advance.startScan literal.negate)) :
      Sound begun (scanning before.advance literal pending scan)
  | parities {before network : Network} {literal : Literal} {pending : List Nat}
      (ready : before.Ready) (rest : begun.propagate = before.propagate)
      (found : before.trail.literals[before.trail.head]? = some literal)
      (shaped : network.Shaped)
      (early : ∀ limit ∈ network.trail.limits.toList, limit < network.trail.literals.size)
      (done : before.advance.propagateLiteral literal =
        ((network.propagateParities pending).1.map .parity,
          (network.propagateParities pending).2)) :
      Sound begun ⟨network, .parities pending⟩
  | ended {network : Network} {conflict : Option Reason} (shaped : network.Shaped)
      (rest : begun.propagate = (conflict, network)) : Sound begun ⟨network, .ended conflict⟩

section Visit

variable {begun before : Network} {literal : Literal} (ready : before.Ready)
  (rest : begun.propagate = before.propagate)
  (found : before.trail.literals[before.trail.head]? = some literal)
include ready rest found

/-- After the last watcher the kept ones are put back, and the clauses have been propagated. -/
theorem Sound.scanFinished {scan : WatchScan}
    (visits : scan.Visits before.advance literal.negate before.trail.head [])
    (done : scan = (before.store.watchers literal.negate).toList.foldl
      (WatchScan.step literal.negate) (before.advance.startScan literal.negate)) :
    (afterWatchers ((before.advance.scanned scan).putBack literal.negate scan.kept) literal
      scan.conflict).Sound begun := by
  obtain ⟨-, shaped, early, -, -⟩ := Network.advanceSpec ready found
  have restored : scan.restore before.advance literal.negate [] =
      (before.advance.scanned scan).putBack literal.negate scan.kept := by
    simp only [WatchScan.restore, Array.append_empty]
    rfl
  have propagates := visits.propagates
  rw [restored] at propagates
  have clauses : before.advance.propagateClauses literal.negate =
      (scan.conflict, (before.advance.scanned scan).putBack literal.negate scan.kept) := by
    rw [done]
    rfl
  generalize (before.advance.scanned scan).putBack literal.negate scan.kept = after at *
  have whole := rest.trans (Network.propagateTurn ready found)
  rw [Network.propagateLiteral, clauses] at whole
  cases conflict : scan.conflict with
  | some reference =>
      rw [conflict] at whole
      exact .ended (propagates.shaped shaped).exhaust whole
  | none =>
      have inside : before.trail.head < before.trail.literals.size :=
        (Array.getElem?_eq_some_iff.1 found).1
      refine .parities ready rest found (propagates.shaped shaped)
        (propagates.stillEarly shaped inside early) ?_
      rw [Network.propagateLiteral, clauses, conflict]

theorem Sound.parityVisited {network : Network} {index : Nat} {pending : List Nat}
    (shaped : network.Shaped)
    (early : ∀ limit ∈ network.trail.limits.toList, limit < network.trail.literals.size)
    (done : before.advance.propagateLiteral literal =
      ((network.propagateParities (index :: pending)).1.map .parity,
        (network.propagateParities (index :: pending)).2)) :
    (visitParity network index pending).Sound begun := by
  have whole := rest.trans (Network.propagateTurn ready found)
  have status := ParityConstraint.statusSpec network.trail.atomValue
    (shaped.parities.distinct index)
  rw [done] at whole
  rw [Network.propagateParities] at done whole
  rw [visitParity]
  cases known : (network.parities.constraint index).status network.trail.atomValue with
  | undecided =>
      rw [known] at done
      exact .parities ready rest found shaped early done
  | forces forced =>
      rw [known] at done status
      have propagates := (Network.extendsForced shaped early status).1.propagates
      refine .parities ready rest found (propagates.shaped shaped) (fun limit member => ?_) done
      rw [propagates.frame.1] at member
      exact Nat.lt_of_lt_of_le (early limit member) (propagates.longer shaped)
  | violated =>
      rw [known] at whole
      exact .ended shaped.exhaust whole

end Visit

section Sound

variable {begun : Network} {sweep later : Sweep} (sound : sweep.Sound begun)
include sound

theorem Sound.coherent : sweep.network.trail.Coherent := by
  cases sound with
  | turn ready rest => exact ready.shaped.trail
  | watchers ready rest found visits done =>
      exact (visits.propagates.shaped (Network.advanceSpec ready found).2.1).trail
  | parities ready rest found shaped early done => exact shaped.trail
  | ended shaped rest => exact shaped.trail

/-- The parity constraints are over distinct atoms. -/
theorem Sound.distinct (index : Nat) : (sweep.network.parities.constraint index).atoms.Nodup := by
  cases sound with
  | turn ready rest => exact ready.shaped.parities.distinct index
  | watchers ready rest found visits done => exact ready.shaped.parities.distinct index
  | parities ready rest found shaped early done => exact shaped.parities.distinct index
  | ended shaped rest => exact shaped.parities.distinct index

theorem Sound.next (visit : sweep.next = some later) : later.Sound begun := by
  cases sound with
  | @turn network ready rest =>
      cases found : network.trail.literals[network.trail.head]? with
      | none =>
          simp only [Sweep.next, found, Option.some.injEq] at visit
          subst visit
          exact .ended ready.shaped (rest.trans (Network.propagateEnd found))
      | some literal =>
          simp only [Sweep.next, found, Option.some.injEq] at visit
          subst visit
          obtain ⟨-, shaped, early, position, quiet⟩ := Network.advanceSpec ready found
          exact .watchers ready rest found (Network.startVisits shaped position quiet) rfl
  | @watchers before literal pending scan ready rest found visits done =>
      cases pending with
      | cons reference pending =>
          obtain rfl := Option.some.inj visit
          obtain ⟨-, shaped, early, position, -⟩ := Network.advanceSpec ready found
          exact .watchers ready rest found (visits.step shaped early position) done
      | nil =>
          obtain rfl := Option.some.inj visit
          exact Sound.scanFinished ready rest found visits done
  | @parities before network literal pending ready rest found shaped early done =>
      cases pending with
      | nil =>
          obtain rfl := Option.some.inj visit
          have whole := rest.trans (Network.propagateTurn ready found)
          have advanced := (Network.propagateLiteralSpec ready found).2
          rw [done] at whole advanced
          exact .turn (advanced rfl).1 whole
      | cons index pending =>
          obtain rfl := Option.some.inj visit
          exact Sound.parityVisited ready rest found shaped early done
  | ended shaped rest => cases visit

/-- A visit continues the trail and leaves the parity constraints. -/
theorem Sound.appends (visit : sweep.next = some later) :
    sweep.network.trail.Appends later.network.trail ∧
      later.network.parities = sweep.network.parities := by
  have coherent := sound.coherent
  obtain ⟨network, stage⟩ := sweep
  cases stage with
  | turn =>
      simp only [Sweep.next] at visit
      split at visit
      · obtain rfl := Option.some.inj visit
        exact ⟨.ofSame rfl rfl, rfl⟩
      · obtain rfl := Option.some.inj visit
        exact ⟨.ofSame rfl rfl, rfl⟩
  | watchers literal pending kept conflict =>
      cases pending with
      | nil =>
          obtain rfl := Option.some.inj visit
          cases conflict with
          | none => exact ⟨.ofSame rfl rfl, rfl⟩
          | some reference => exact ⟨.ofSame rfl rfl, rfl⟩
      | cons reference pending =>
          obtain rfl := Option.some.inj visit
          exact ⟨WatchScan.appendsStep literal.negate ⟨network.store, network.trail, kept, conflict⟩
            coherent reference, rfl⟩
  | parities pending =>
      cases pending with
      | nil =>
          obtain rfl := Option.some.inj visit
          exact ⟨.ofSame rfl rfl, rfl⟩
      | cons index pending =>
          obtain rfl := Option.some.inj visit
          cases sound with
          | parities ready rest found shaped early done =>
              have status := ParityConstraint.statusSpec network.trail.atomValue
                (shaped.parities.distinct index)
              rw [visitParity]
              cases known : (network.parities.constraint index).status network.trail.atomValue with
              | undecided => exact ⟨.ofSame rfl rfl, rfl⟩
              | forces literal =>
                  rw [known] at status
                  exact ⟨coherent.appends _ status.unknown, rfl⟩
              | violated => exact ⟨.ofSame rfl rfl, rfl⟩
  | ended conflict => cases visit

end Sound

theorem Sound.reaches {begun : Network} {sweep later : Sweep} (sound : sweep.Sound begun)
    (reaches : sweep.Reaches later) : later.Sound begun := by
  induction reaches with
  | refl => exact sound
  | tail _ visit inductionHypothesis => exact inductionHypothesis.next visit

end Sweep

end ParitySat
