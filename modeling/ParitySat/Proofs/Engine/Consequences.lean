/-
This file shows that whatever an engine learns follows from the constraints alone, also in the
middle of a call.
-/

import ParitySat.Proofs.Engine.Soundness

namespace ParitySat.Engine

open Constraint

/-- This function interrupts a propagation after so many literals. -/
def propagating (rounds : Nat) (engine : Engine) : Engine :=
  { engine with network := (engine.network.propagateLoop rounds).2 }

/-- The moments of a solver call: a worker, or the engine itself, has taken some steps, has
propagated some literals since, and may be about to return to an earlier level. -/
inductive Searches (engine : Engine) (environment : Environment) (assumptions : List Literal) :
    Engine → Prop where
  | moment {worker : Engine} {budget : Budget} {search : Search}
      (consistent : (engine.prepare assumptions).consistent = true)
      (employed : worker = engine.prepare assumptions ∨
        ∃ index, worker = (engine.prepare assumptions).worker index)
      (reaches : Reaches environment.generator budget assumptions (.start worker) search)
      (rounds level : Nat) :
      Searches engine environment assumptions
        ((search.engine.propagating rounds).cancelUntil level)

/-- The moments of a submission that ends in a propagation at the root level. -/
inductive Absorbing (engine : Engine) : Request → Engine → Prop where
  | clause {literals : List Literal} {literal : Literal}
      (consistent : (engine.ensureAtoms (literals.map Literal.atom)).consistent = true)
      (unit : reduced? (engine.ensureAtoms (literals.map Literal.atom)).network.trail literals =
        some [literal])
      (rounds : Nat) :
      Absorbing engine (.addClause literals)
        (((engine.ensureAtoms (literals.map Literal.atom)).counted.enqueue literal none).propagating
          rounds)
  | parity {atoms : List Nat} {odd : Bool} {atom : Nat} {sign : Bool}
      (consistent : (engine.ensureAtoms atoms).consistent = true)
      (unit : substitute (engine.ensureAtoms atoms).network.trail odd
        (ParityConstraint.normalize atoms) = ⟨[atom], sign⟩)
      (rounds : Nat) :
      Absorbing engine (.addParity atoms odd)
        (((engine.ensureAtoms atoms).counted.enqueue ⟨atom, !sign⟩ none).propagating rounds)

section Moments

variable {models : (Nat → Bool) → Prop} {engine : Engine}

/-- An interrupted propagation has lost and invented nothing. -/
theorem Steady.propagating (steady : engine.Steady models) (rounds : Nat) :
    Sane models (engine.propagating rounds) ∧ (engine.propagating rounds).network.Shaped := by
  have propagates := (Network.propagateLoopSpec steady.ready rounds).1.propagates
  exact ⟨steady.toSane.propagates steady.ready.shaped propagates,
    propagates.shaped steady.ready.shaped⟩

/-- The invariant of the search holds for whoever searches. -/
theorem Valid.searching (valid : engine.Valid models) {assumptions : List Literal}
    {worker : Engine} (consistent : (engine.prepare assumptions).consistent = true)
    (employed : engine.Employed assumptions worker) {generator : Generator} {budget : Budget}
    {search : Search}
    (reaches : Reaches generator budget assumptions (.start worker) search) :
    Searching models assumptions worker search.engine := by
  obtain ⟨steady, root, -, inside⟩ := valid.employed consistent employed
  exact reachesSearching (steady.startSearching root) inside reaches

/-- What is known in the middle of a search does not depend on the assumptions. -/
theorem Searches.consequences (valid : engine.Valid models) {environment : Environment}
    {assumptions : List Literal} {moment : Engine}
    (searches : Searches engine environment assumptions moment) : Consequences models moment := by
  obtain ⟨consistent, employed, reaches, rounds, level⟩ := searches
  have searching := valid.searching consistent employed reaches
  obtain ⟨sane, shaped⟩ := searching.toSteady.propagating rounds
  exact (sane.cancelUntil shaped level).consequences

/-- The literal that is left of a clause is assigned with the right of the new clause. -/
theorem Valid.enqueueClause (valid : engine.Valid models) {literals : List Literal}
    {literal : Literal}
    (consistent : (engine.ensureAtoms (literals.map Literal.atom)).consistent = true)
    (unit : reduced? (engine.ensureAtoms (literals.map Literal.atom)).network.trail literals =
      some [literal]) :
    Steady (fun assignment => models assignment ∧ Models [.clause literals] assignment)
      ((engine.ensureAtoms (literals.map Literal.atom)).counted.enqueue literal none) := by
  obtain ⟨steady, root⟩ :=
    (valid.ensureAtoms (literals.map Literal.atom)).consistentSteady consistent
  have kept := reducedSome steady.ready.shaped.trail unit
  have inside : literal.atom < (engine.ensureAtoms (literals.map Literal.atom)).atomCount :=
    ensureAtomsInside literal.atom
      (List.mem_map_of_mem (kept.member literal List.mem_cons_self))
  exact steady.counted.enqueueRoot root inside (kept.unknown literal List.mem_cons_self)
    fun assignment holds => by
      rw [kept.unit holds, modelsSingle]
      rfl

/-- The atom that is left of a parity constraint is assigned with the right of the constraint. -/
theorem Valid.enqueueParity (valid : engine.Valid models) {atoms : List Nat} {odd : Bool}
    {atom : Nat} {sign : Bool} (consistent : (engine.ensureAtoms atoms).consistent = true)
    (unit : substitute (engine.ensureAtoms atoms).network.trail odd
      (ParityConstraint.normalize atoms) = ⟨[atom], sign⟩) :
    Steady (fun assignment => models assignment ∧ Models [.parity atoms odd] assignment)
      ((engine.ensureAtoms atoms).counted.enqueue ⟨atom, !sign⟩ none) := by
  obtain ⟨steady, root⟩ := (valid.ensureAtoms atoms).consistentSteady consistent
  have substituted := substituteSpec steady.ready.shaped.trail odd
    (ParityConstraint.normalize atoms)
  rw [unit] at substituted
  have inside : atom < (engine.ensureAtoms atoms).atomCount :=
    ensureAtomsInside atom
      (ParityConstraint.memberNormalize (substituted.kept.subset List.mem_cons_self))
  exact steady.counted.enqueueRoot root inside (substituted.unknown atom List.mem_cons_self)
    fun assignment holds => by
      rw [substituted.unit holds, ParityConstraint.oddnessNormalize, modelsSingle]
      rfl

/-- What is known in the middle of a submission follows with the help of the new constraint. -/
theorem Absorbing.consequences (valid : engine.Valid models) {request : Request} {moment : Engine}
    (absorbing : Absorbing engine request moment) :
    Consequences (fun assignment => models assignment ∧ Models request.constraints assignment)
      moment := by
  cases absorbing with
  | clause consistent unit rounds =>
      exact ((valid.enqueueClause consistent unit).propagating rounds).1.consequences
  | parity consistent unit rounds =>
      exact ((valid.enqueueParity consistent unit).propagating rounds).1.consequences

end Moments

/-- Whatever the engine has learnt, and whatever a traversal delivers, follows from the constraints
that have been submitted, at every moment and without any assumption.

A delivered clause takes no model from constraints that contain these. -/
theorem learntConsequences {options : Options} {requests : List Request} {engine : Engine}
    (reached : run requests (ofOptions options) = .ok engine) :
    Consequences (Models (history requests)) engine ∧
      (∀ environment assumptions moment, Searches engine environment assumptions moment →
        Consequences (Models (history requests)) moment) ∧
      (∀ request moment, Absorbing engine request moment →
        Consequences (Models (history (requests ++ [request]))) moment) ∧
      ∀ clause after, engine.nextLearnt = (some clause, after) →
        (∀ assignment, Models (history requests) assignment →
          Clause.holds assignment clause = true) ∧
        ∀ others : List Constraint, history requests ⊆ others → ∀ assignment,
          Models (others ++ [.clause clause]) assignment ↔ Models others assignment := by
  have faithful := reachedFaithful reached
  refine ⟨faithful.valid.consequences,
    fun environment assumptions moment searches => searches.consequences faithful.valid,
    fun request moment absorbing => ?_, fun clause after delivered => ?_⟩
  · have consequences := absorbing.consequences faithful.valid
    have same : Models (history (requests ++ [request])) = fun assignment =>
        Models (history requests) assignment ∧ Models request.constraints assignment := by
      funext assignment
      rw [historyNext, modelsAppend]
    rwa [same]
  · have entailed (assignment : Nat → Bool) (models : Models (history requests) assignment) :
        Clause.holds assignment clause = true := by
      unfold nextLearnt at delivered
      split at delivered
      · next first rest traversal =>
          obtain ⟨same, -⟩ := Prod.mk.inj delivered
          obtain rfl := Option.some.inj same
          exact faithful.delivered _ traversal _ List.mem_cons_self assignment models
      · obtain ⟨impossible, -⟩ := Prod.mk.inj delivered
        contradiction
    refine ⟨entailed, fun others contained assignment => ?_⟩
    rw [modelsAppend, modelsSingle]
    refine and_iff_left_of_imp fun models => entailed assignment fun constraint member => ?_
    exact models constraint (contained member)

/-- The assumption contradicts these clauses, and the search learns its negation from them. -/
def failingRequests : List Request :=
  [.addClause [⟨0, false⟩, ⟨1, false⟩], .addClause [⟨0, false⟩, ⟨1, true⟩],
    .solve stillEnvironment [⟨0, true⟩], .openTraversal 3 3]

theorem learntConsequencesFailing :
    ∃ engine after, run failingRequests (ofOptions {}) = .ok engine ∧
      engine.nextLearnt = (some [⟨0, false⟩], after) ∧
      ∀ assignment, Models (history failingRequests) assignment →
        Clause.holds assignment [⟨0, false⟩] = true := by
  have delivered : ((run failingRequests (ofOptions {})).toOption.bind fun engine =>
      engine.nextLearnt.1) = some [⟨0, false⟩] := by decide +kernel
  cases reached : run failingRequests (ofOptions {}) with
  | error stuck =>
      rw [reached] at delivered
      contradiction
  | ok engine =>
      rw [reached] at delivered
      have next : engine.nextLearnt = (some [⟨0, false⟩], engine.nextLearnt.2) :=
        Prod.ext delivered rfl
      exact ⟨engine, engine.nextLearnt.2, rfl, next,
        ((learntConsequences reached).2.2.2 _ _ next).1⟩

end ParitySat.Engine
