/-
This file shows that a propagation never stops too early: either every stored constraint is at rest
or one of them is refuted, and the same holds at every level below.
-/

import ParitySat.Proofs.Engine.Consequences

namespace ParitySat

/-- A clause is at rest if it has a true literal or two literals without a value. -/
def Clause.Rests (trail : Trail) (clause : Clause) : Prop :=
  (∃ literal ∈ clause.literals, trail.value literal = some true) ∨
    ∃ first ∈ clause.literals, ∃ second ∈ clause.literals, first.atom ≠ second.atom ∧
      trail.value first = none ∧ trail.value second = none

/-- A parity constraint is at rest if two atoms have no value, or if all have the right values. -/
def ParityConstraint.Rests (trail : Trail) (constraint : ParityConstraint) : Prop :=
  (∃ first ∈ constraint.atoms, ∃ second ∈ constraint.atoms, first ≠ second ∧
      trail.atomValue first = none ∧ trail.atomValue second = none) ∨
    (∀ atom ∈ constraint.atoms, trail.atomValue atom ≠ none) ∧
      constraint.holds trail.assignment = true

namespace Network

/-- Nothing is left to propagate when every live constraint is at rest. -/
structure Fixpoint (network : Network) : Prop where
  clauses : ∀ clause ∈ network.store.clauses.toList, clause.deleted = false →
    clause.Rests network.trail
  parities : ∀ constraint ∈ network.parities.constraints.toList, constraint.Rests network.trail

/-- A refuted constraint is stored, all of it is known, and the values are wrong. -/
def Refutes (network : Network) : Reason → Prop
  | .clause reference =>
    ∃ clause ∈ network.store.clauses[reference]?, clause.deleted = false ∧
      ∀ literal ∈ clause.literals, network.trail.value literal = some false
  | .parity index =>
    ∃ constraint ∈ network.parities.constraints[index]?,
      (∀ atom ∈ constraint.atoms, network.trail.atomValue atom ≠ none) ∧
        constraint.holds network.trail.assignment = false

section Rest

variable {network : Network}

/-- A watch is not false if the other one is not true. -/
theorem Guards.free {watch other : Literal} (coherent : network.trail.Coherent)
    (guards : network.Guards network.trail.literals.size watch other)
    (undecided : network.trail.value watch ≠ some true)
    (unsatisfied : network.trail.value other ≠ some true) : network.trail.value watch = none := by
  rw [Guards, network.trail.initialAll (Nat.le_refl _)] at guards
  cases known : network.trail.value watch with
  | none => rfl
  | some truth =>
      cases truth with
      | true => exact absurd known undecided
      | false =>
          obtain ⟨otherTrue, -⟩ := guards ((coherent.falsehood watch).1 known)
          exact absurd ((coherent.truth other).2 otherTrue) unsatisfied

/-- If none of the two watches is true, none of them has a value. -/
theorem Shaped.restsClause (shaped : network.Shaped) {reference : Nat}
    (inside : reference < network.store.clauses.size)
    (quiet : network.Quiet network.trail.literals.size reference) :
    (network.store.clause reference).Rests network.trail := by
  have proper := shaped.store.proper reference inside
  obtain ⟨first, second, rest, same⟩ := shaped.store.split inside
  obtain ⟨left, right⟩ := quiet first second rest same
  rw [ClauseStore.literalsEq] at same proper
  have firstMember : first ∈ (network.store.clause reference).literals := by simp [same]
  have secondMember : second ∈ (network.store.clause reference).literals := by simp [same]
  by_cases firstTrue : network.trail.value first = some true
  · exact Or.inl ⟨first, firstMember, firstTrue⟩
  by_cases secondTrue : network.trail.value second = some true
  · exact Or.inl ⟨second, secondMember, secondTrue⟩
  refine Or.inr ⟨first, firstMember, second, secondMember, fun equal => ?_,
    left.free shaped.trail firstTrue secondTrue, right.free shaped.trail secondTrue firstTrue⟩
  have distinct := proper.distinct
  rw [same] at distinct
  exact (List.nodup_cons.1 distinct).1 (equal ▸ List.mem_cons_self)

/-- A parity constraint that lacks at most one atom has been examined. -/
theorem Shaped.restsParity (shaped : network.Shaped) {index : Nat}
    (settled : network.Settled network.trail.literals.size network.trail.literals.size index) :
    (network.parities.constraint index).Rests network.trail := by
  have coherent := shaped.trail
  have listed (atom : Nat) (known : network.trail.atomValue atom ≠ none) :
      network.trail.Lists network.trail.literals.size atom := listsOfKnown coherent known
  have settledBut (spare : Nat) (others : ∀ atom ∈ (network.parities.constraint index).atoms,
      atom ≠ spare → network.trail.atomValue atom ≠ none) :
      (network.parities.constraint index).Rests network.trail := by
    obtain ⟨all, right⟩ := settled spare fun atom member different =>
      listed atom (others atom member different)
    refine Or.inr ⟨fun atom member => ?_, right⟩
    rw [listsKnown coherent (all atom member)]
    exact Option.some_ne_none _
  by_cases missing : ∃ first ∈ (network.parities.constraint index).atoms,
      network.trail.atomValue first = none
  · obtain ⟨first, firstMember, firstFree⟩ := missing
    by_cases another : ∃ second ∈ (network.parities.constraint index).atoms,
        second ≠ first ∧ network.trail.atomValue second = none
    · obtain ⟨second, secondMember, different, secondFree⟩ := another
      exact Or.inl ⟨first, firstMember, second, secondMember, different.symm, firstFree, secondFree⟩
    · exact settledBut first fun atom member different free =>
        another ⟨atom, member, different, free⟩
  · exact settledBut 0 fun atom member _ free => missing ⟨atom, member, free⟩

/-- Nothing waits once the head has reached the end of the trail. -/
theorem Ready.fixpoint (ready : network.Ready)
    (finished : network.trail.head = network.trail.literals.size) : network.Fixpoint where
  clauses clause member _ := by
    obtain ⟨reference, inside, rfl⟩ := ClauseStore.memberClause.1 member
    exact ready.shaped.restsClause inside (finished ▸ ready.quiet reference)
  parities constraint member := by
    obtain ⟨index, -, rfl⟩ := ParityStore.memberConstraint.1 member
    have settled := ready.settled index
    rw [finished] at settled
    exact ready.shaped.restsParity settled

/-- An undone level leaves a fixpoint behind. -/
theorem Stable.fixpointBelow (stable : network.Stable) {level : Nat}
    (open_ : level < network.trail.level) : (network.backtrack level).Fixpoint := by
  obtain ⟨ready, finished⟩ := stable.backtrackReady open_
  exact ready.fixpoint finished

theorem Violated.refutes {conflict : Reason} (violated : network.Violated conflict)
    (shaped : network.Shaped) : network.Refutes conflict := by
  cases conflict with
  | clause reference =>
      obtain ⟨inside, isFalse⟩ := violated
      exact ⟨network.store.clause reference, ClauseStore.clauseStored inside,
        shaped.store.live reference, fun literal member =>
          (shaped.trail.falsehood literal).2 (isFalse literal member)⟩
  | parity index =>
      obtain ⟨known, wrong⟩ := violated
      have inside : index < network.parities.constraints.size := by
        refine Nat.lt_of_not_le fun outside => ?_
        rw [ParityStore.constraintOutside outside] at wrong
        contradiction
      refine ⟨network.parities.constraint index, ParityStore.constraintStored inside,
        fun atom member => ?_, wrong⟩
      rw [listsKnown shaped.trail (known atom member)]
      exact Option.some_ne_none _

end Rest

end Network

namespace Engine

/-- The moments at which a propagation begins: before every step of a search, and after a
submission that leaves a single literal to be assigned at the root level. -/
inductive Pending (engine : Engine) : Engine → Prop where
  | step {assumptions : List Literal} {worker : Engine} {generator : Generator} {budget : Budget}
      {search : Search} (consistent : (engine.prepare assumptions).consistent = true)
      (employed : engine.Employed assumptions worker)
      (reaches : Reaches generator budget assumptions (.start worker) search) :
      Pending engine search.engine
  | clause {literals : List Literal} {literal : Literal}
      (consistent : (engine.ensureAtoms (literals.map Literal.atom)).consistent = true)
      (unit : reduced? (engine.ensureAtoms (literals.map Literal.atom)).network.trail literals =
        some [literal]) :
      Pending engine
        ((engine.ensureAtoms (literals.map Literal.atom)).counted.enqueue literal none)
  | parity {atoms : List Nat} {odd : Bool} {atom : Nat} {sign : Bool}
      (consistent : (engine.ensureAtoms atoms).consistent = true)
      (unit : substitute (engine.ensureAtoms atoms).network.trail odd
        (ParityConstraint.normalize atoms) = ⟨[atom], sign⟩) :
      Pending engine ((engine.ensureAtoms atoms).counted.enqueue ⟨atom, !sign⟩ none)

/-- Every propagation begins in a steady state. -/
theorem Pending.steady {models : (Nat → Bool) → Prop} {engine moment : Engine}
    (valid : engine.Valid models) (pending : engine.Pending moment) :
    ∃ fewer, moment.Steady fewer := by
  cases pending with
  | step consistent employed reaches =>
      exact ⟨_, (valid.searching consistent employed reaches).toSteady⟩
  | clause consistent unit => exact ⟨_, valid.enqueueClause consistent unit⟩
  | parity consistent unit => exact ⟨_, valid.enqueueParity consistent unit⟩

/-- A propagation without a conflict ends at a fixpoint, and a conflict is a refuted constraint.

Before and after it, whatever its outcome, every lower level would leave a fixpoint. -/
theorem propagationFixpoint {options : Options} {requests : List Request} {engine : Engine}
    (reached : run requests (ofOptions options) = .ok engine) {moment : Engine}
    (pending : engine.Pending moment) :
    (moment.propagate.1 = none → moment.propagate.2.network.Fixpoint) ∧
      (∀ conflict, moment.propagate.1 = some conflict →
        moment.propagate.2.network.Refutes conflict) ∧
      moment.propagate.2.level = moment.level ∧
      ∀ level < moment.level, (moment.cancelUntil level).network.Fixpoint ∧
        (moment.propagate.2.cancelUntil level).network.Fixpoint := by
  obtain ⟨models, steady⟩ := pending.steady (reachedFaithful reached).valid
  obtain ⟨-, stable, fixpoint, violated⟩ := steady.propagate
  have same : moment.propagate.2.level = moment.level :=
    congrArg Array.size (Network.propagateSpec steady.ready).1.propagates.frame.1
  refine ⟨fun none => ?_, fun conflict found => (violated conflict found).refutes stable.shaped,
    same, fun level open_ => ⟨steady.ready.stable.fixpointBelow open_, ?_⟩⟩
  · obtain ⟨after, finished⟩ := fixpoint none
    exact after.ready.fixpoint finished
  · rw [← same] at open_
    exact stable.fixpointBelow open_

/-- These clauses leave no value for the second atom once the first one is false. -/
def clashingRequests : List Request :=
  [.addClause [⟨0, false⟩, ⟨1, false⟩], .addClause [⟨0, false⟩, ⟨1, true⟩]]

/-- This function takes one step of a search without limits. -/
def stepOnce (assumptions : List Literal) (engine : Engine) : Progress :=
  (Search.start (engine.prepare assumptions)).step splitMix ⟨none, none, fun _ => 0, none⟩ assumptions

/-- After the first step the assumption is decided, and the propagation of it fails. -/
theorem propagationFixpointClashing :
    ∃ engine moment conflict, run clashingRequests (ofOptions {}) = .ok engine ∧
      engine.Pending moment ∧ moment.propagate.1 = some conflict ∧
      moment.propagate.2.network.Refutes conflict ∧
      0 < moment.level ∧ (moment.propagate.2.cancelUntil 0).network.Fixpoint := by
  obtain ⟨engine, reached, facts⟩ := reachedObserved
    (show (run clashingRequests (ofOptions {})).toOption.map (fun engine =>
      match engine.stepOnce [⟨0, true⟩] with
      | .running next => some ((engine.prepare [⟨0, true⟩]).consistent, next.engine.level,
          next.engine.propagate.1)
      | _ => none) = some (some (true, 1, some (.clause 1))) by
      decide +kernel)
  cases stepped : engine.stepOnce [⟨0, true⟩] with
  | running next =>
      simp only [stepped, Option.some.injEq, Prod.mk.injEq] at facts
      obtain ⟨consistent, level, conflict⟩ := facts
      have pending : engine.Pending next.engine :=
        .step consistent (Or.inl rfl) (.step stepped (.refl next))
      have open_ : 0 < next.engine.level := by omega
      have sound := propagationFixpoint reached pending
      exact ⟨engine, next.engine, .clause 1, reached, pending, conflict, sound.2.1 _ conflict,
        open_, (sound.2.2.2 0 open_).2⟩
  | finished verdict final => simp [stepped] at facts
  | stuck => simp [stepped] at facts

end Engine

end ParitySat
