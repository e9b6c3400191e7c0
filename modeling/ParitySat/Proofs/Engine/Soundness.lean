/-
This file shows that the verdicts of an engine are right after any requests: a model satisfies all
that was submitted and assumed, and a refutation leaves no model.
-/

import ParitySat.Proofs.Engine.Runs

namespace ParitySat.Engine

open Constraint

/-- In this environment the clock stands still and no other worker finishes. -/
def stillEnvironment : Environment :=
  { generator := splitMix
    clock := fun _ _ => 0
    signal := fun _ => none
    steps := 50
    pool := 1 }

/-- These requests repeat literals and atoms, fail under assumptions and run out of a limit. -/
def mixedRequests : List Request :=
  [.addClause [⟨0, false⟩, ⟨1, false⟩, ⟨0, false⟩], .addParity [0, 1, 2, 2] true,
    .addClause [⟨2, true⟩, ⟨3, false⟩],
    .solve stillEnvironment [⟨0, false⟩, ⟨1, false⟩],
    .setOptions fun options => { options with maximumConflicts := some 0 },
    .solve stillEnvironment [],
    .setOptions fun options => { options with maximumConflicts := none },
    .openTraversal 2 2, .nextLearnt, .addClause [⟨0, true⟩, ⟨3, true⟩]]

/-- This function runs the requests and then solves under the assumptions. -/
def answerAfter (requests : List Request) (assumptions : List Literal) :
    Except Stuck (Verdict × Engine) :=
  match run requests (ofOptions {}) with
  | .error stuck => .error stuck
  | .ok engine => engine.solve stillEnvironment assumptions

theorem answerAfterReached (requests : List Request) (assumptions : List Literal)
    (verdict : Verdict)
    (answer : (answerAfter requests assumptions).toOption.map Prod.fst = some verdict) :
    ∃ engine after, run requests (ofOptions {}) = .ok engine ∧
      engine.solve stillEnvironment assumptions = .ok (verdict, after) := by
  unfold answerAfter at answer
  generalize run requests (ofOptions {}) = result at answer
  cases result with
  | error stuck => contradiction
  | ok engine =>
      cases answered : engine.solve stillEnvironment assumptions with
      | error stuck =>
          simp only [answered] at answer
          contradiction
      | ok result =>
          simp only [answered] at answer
          obtain rfl := Option.some.inj answer
          exact ⟨engine, result.2, rfl, answered⟩

/-- A satisfiable verdict leaves a model without gaps, in which every assumption and every
constraint holds as it was submitted. -/
theorem satisfiableModel {options : Options} {requests : List Request} {engine : Engine}
    (reached : run requests (ofOptions options) = .ok engine) {environment : Environment}
    {assumptions : List Literal} {after : Engine}
    (answered : engine.solve environment assumptions = .ok (.satisfiable, after)) :
    after.Modelled ∧
      (∀ literal ∈ assumptions, literal.atom < after.atomCount ∧
        literal.holds after.modelAssignment = true) ∧
      ∀ constraint ∈ history requests, (∀ atom ∈ constraint.atoms, atom < after.atomCount) ∧
        constraint.holds after.modelAssignment = true := by
  have faithful := reachedFaithful reached
  have solved := faithful.valid.solve environment assumptions
  rw [answered] at solved
  obtain ⟨modelled, models, assumed⟩ := solved.decides
  refine ⟨modelled, fun literal member => ⟨solved.inside literal member, assumed literal member⟩,
    fun constraint member => ⟨fun atom listed => ?_, models constraint member⟩⟩
  exact Nat.lt_of_lt_of_le (faithful.inside constraint member atom listed) solved.atoms

theorem satisfiableModelMixed :
    ∃ engine after, run mixedRequests (ofOptions {}) = .ok engine ∧
      engine.solve stillEnvironment [⟨2, false⟩] = .ok (.satisfiable, after) ∧
      after.Modelled ∧
      (∀ literal ∈ ([⟨2, false⟩] : List Literal), literal.atom < after.atomCount ∧
        literal.holds after.modelAssignment = true) ∧
      ∀ constraint ∈ history mixedRequests, (∀ atom ∈ constraint.atoms, atom < after.atomCount) ∧
        constraint.holds after.modelAssignment = true := by
  obtain ⟨engine, after, reached, answered⟩ :=
    answerAfterReached mixedRequests [⟨2, false⟩] .satisfiable (by decide +kernel)
  exact ⟨engine, after, reached, answered, satisfiableModel reached answered⟩

/-- A refuted engine has no models, and it stays refuted. -/
theorem Faithful.refutation {constraints : List Constraint} {engine : Engine}
    (faithful : Faithful constraints engine) (inconsistent : engine.consistent = false) :
    (∀ assignment, ¬Models constraints assignment) ∧
      ∀ later final, Engine.run later engine = .ok final → final.consistent = false :=
  ⟨faithful.valid.refutedOnly inconsistent,
    fun later _ ran => (faithful.run later ran).refuted inconsistent⟩

/-- An unsatisfiable verdict excludes all models of the constraints and the assumptions, and
without assumptions it refutes the engine.

An engine that is refuted, or that has not accepted a constraint, has no models at all, and it
stays refuted. -/
theorem refutationSound {options : Options} {requests : List Request} {engine : Engine}
    (reached : run requests (ofOptions options) = .ok engine) :
    (∀ environment assumptions after,
      engine.solve environment assumptions = .ok (.unsatisfiable, after) →
        (∀ assignment, ¬(Models (history requests) assignment ∧
          ∀ literal ∈ assumptions, literal.holds assignment = true)) ∧
        (assumptions = [] → after.consistent = false)) ∧
    (engine.consistent = false →
      (∀ assignment, ¬Models (history requests) assignment) ∧
        ∀ later final, run later engine = .ok final → final.consistent = false) ∧
    ∀ request after, request.perform engine = .ok (.accepted false, after) →
      (∀ assignment, ¬Models (history (requests ++ [request])) assignment) ∧
        ∀ later final, run later after = .ok final → final.consistent = false := by
  have faithful := reachedFaithful reached
  refine ⟨fun environment assumptions after answered => ?_, faithful.refutation,
    fun request after refused => ?_⟩
  · have solved := faithful.valid.solve environment assumptions
    rw [answered] at solved
    obtain ⟨contradicted, refuted⟩ := solved.decides
    refine ⟨fun assignment both => ?_, refuted⟩
    obtain ⟨literal, member, isFalse⟩ := contradicted assignment both.1
    rw [both.2 literal member] at isFalse
    contradiction
  · have served := (faithful.perform refused).faithful
    rw [historyNext]
    exact served.refutation (acceptedConsistent refused)

theorem refutationSoundMixed :
    ∃ engine after refused, run mixedRequests (ofOptions {}) = .ok engine ∧
      engine.solve stillEnvironment [⟨1, false⟩, ⟨0, false⟩] = .ok (.unsatisfiable, after) ∧
      (∀ assignment, ¬(Models (history mixedRequests) assignment ∧
        ∀ literal ∈ ([⟨1, false⟩, ⟨0, false⟩] : List Literal),
          literal.holds assignment = true)) ∧
      (Request.addClause []).perform engine = .ok (.accepted false, refused) ∧
      ∀ later final, run later refused = .ok final → final.consistent = false := by
  obtain ⟨engine, after, reached, answered⟩ :=
    answerAfterReached mixedRequests [⟨1, false⟩, ⟨0, false⟩] .unsatisfiable (by decide +kernel)
  have inconsistent : ((run mixedRequests (ofOptions {})).toOption.map fun engine =>
      (engine.addClause []).consistent) = some false := by decide +kernel
  rw [reached] at inconsistent
  have refused : (Request.addClause []).perform engine =
      .ok (.accepted false, engine.addClause []) := by
    rw [Request.perform]
    simp only [Option.some.inj inconsistent]
  have sound := refutationSound reached
  exact ⟨engine, after, engine.addClause [], reached, answered, (sound.1 _ _ after answered).1,
    refused, (sound.2.2 _ _ refused).2⟩

end ParitySat.Engine
