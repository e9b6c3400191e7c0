/-
This file shows that the stores of an engine have exactly the models of what was submitted.
-/

import ParitySat.Proofs.Engine.Soundness

namespace ParitySat

namespace Engine

open Constraint

/-- The assignment satisfies what a consistent engine stores, apart from what it has learnt. -/
structure Represents (engine : Engine) (assignment : Nat → Bool) : Prop where
  consistent : engine.consistent = true
  root : ∀ literal ∈ engine.network.trail.literals.toList,
    engine.network.trail.atomLevel literal.atom = 0 → literal.holds assignment = true
  originals : ∀ clause ∈ engine.network.store.clauses.toList,
    clause.deleted = false → clause.learnt = false →
      Clause.holds assignment clause.literals = true
  parities : ∀ constraint ∈ engine.network.parities.constraints.toList,
    constraint.holds assignment = true

section Represents

variable {models : (Nat → Bool) → Prop} {engine : Engine} {assignment : Nat → Bool}

/-- A stored original clause is never deleted, so all of them count. -/
theorem Represents.satisfied (represents : engine.Represents assignment)
    (shaped : engine.network.Shaped) : engine.network.Satisfied assignment where
  clauses reference inside original :=
    represents.originals _ (ClauseStore.memberClause.2 ⟨reference, inside, rfl⟩)
      (shaped.store.live reference) original
  parities index inside :=
    represents.parities _ (ParityStore.memberConstraint.2 ⟨index, inside, rfl⟩)
  root := represents.root

/-- A model satisfies every stored constraint, the learnt ones included. -/
theorem Sane.represents (sane : engine.Sane models) (model : models assignment) :
    engine.Represents assignment where
  consistent := sane.consistent
  root := sane.sound.root assignment model
  originals clause member _ _ := by
    obtain ⟨reference, inside, rfl⟩ := ClauseStore.memberClause.1 member
    exact sane.sound.clauses assignment model reference inside
  parities constraint member := by
    obtain ⟨index, inside, rfl⟩ := ParityStore.memberConstraint.1 member
    exact sane.sound.parities assignment model index inside

theorem Valid.represents (valid : engine.Valid models) (assignment : Nat → Bool) :
    models assignment ↔ engine.Represents assignment := by
  cases valid with
  | steady steady _ =>
      exact ⟨steady.toSane.represents, fun represents =>
        steady.complete assignment (represents.satisfied steady.ready.shaped)⟩
  | refuted inconsistent unsatisfiable =>
      refine ⟨fun model => (unsatisfiable assignment model).elim, fun represents => ?_⟩
      have consistent := represents.consistent
      rw [inconsistent] at consistent
      contradiction

end Represents

/-- No constraint is lost and none is invented, whatever calls an engine has served.

An engine that is inconsistent represents no assignment, and it has no models either. -/
theorem representsExactly {options : Options} {requests : List Request} {engine : Engine}
    (reached : run requests (ofOptions options) = .ok engine) (assignment : Nat → Bool) :
    Models (history requests) assignment ↔ engine.Represents assignment :=
  (reachedFaithful reached).valid.represents assignment

/-- With these options every conflict ends the run, and the learnt store is always crowded. -/
def reducingOptions : Options :=
  { restartInitial := 1, minimumLearnts := 0, learntFactor := 0.0 }

/-- These parities and clauses cost several conflicts under the assumption. -/
def reducingRequests : List Request :=
  [.addParity [0, 1, 2] true, .addParity [2, 3, 4] true, .addParity [0, 3, 5] false,
    .addParity [1, 4, 5, 6] true, .addParity [6, 2, 7, 8] false, .addParity [8, 3, 1] true,
    .addParity [7, 5, 0] true, .addClause [⟨0, true⟩, ⟨6, true⟩, ⟨3, false⟩],
    .addClause [⟨1, false⟩, ⟨5, false⟩, ⟨2, true⟩], .addClause [⟨4, false⟩, ⟨7, false⟩, ⟨3, true⟩],
    .addClause [⟨4, true⟩, ⟨7, true⟩, ⟨2, true⟩], .solve stillEnvironment [⟨6, true⟩]]

/-- The engine has deleted learnt clauses if it has learnt more than it holds. -/
theorem representsExactlyReduced :
    ∃ engine, run reducingRequests (ofOptions reducingOptions) = .ok engine ∧
      engine.consistent = true ∧ engine.learntCount < engine.statistics.learnts ∧
      0 < engine.statistics.restarts ∧
      ∀ assignment, Models (history reducingRequests) assignment ↔
        engine.Represents assignment := by
  obtain ⟨engine, reached, counts⟩ := reachedObserved
    (show (run reducingRequests (ofOptions reducingOptions)).toOption.map (fun engine =>
      (engine.consistent, decide (engine.learntCount < engine.statistics.learnts),
        decide (0 < engine.statistics.restarts))) = some (true, true, true) by
      decide +kernel)
  simp only [Prod.mk.injEq, decide_eq_true_eq] at counts
  obtain ⟨consistent, deleted, restarted⟩ := counts
  exact ⟨engine, reached, consistent, deleted, restarted, representsExactly reached⟩

end Engine

end ParitySat
