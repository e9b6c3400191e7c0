/-
This file lets the caller make any requests in any order and shows what the engine knows after them.
-/

import ParitySat.Engine.Traversal
import ParitySat.Proofs.Engine.Constraints
import ParitySat.Proofs.Engine.Solve

namespace ParitySat

/-- A constraint as it is submitted. -/
inductive Constraint where
  | clause (literals : List Literal)
  | parity (atoms : List Nat) (odd : Bool)
  deriving DecidableEq, Repr

namespace Constraint

/-- A clause needs a true literal, and the exclusive or counts repeated atoms repeatedly. -/
def holds (assignment : Nat → Bool) : Constraint → Bool
  | .clause literals => Clause.holds assignment literals
  | .parity atoms odd => ParityConstraint.holds assignment ⟨atoms, odd⟩

def atoms : Constraint → List Nat
  | .clause literals => literals.map Literal.atom
  | .parity atoms _ => atoms

/-- A model satisfies all the constraints of a list. -/
def Models (constraints : List Constraint) (assignment : Nat → Bool) : Prop :=
  ∀ constraint ∈ constraints, constraint.holds assignment = true

theorem modelsAppend (first second : List Constraint) (assignment : Nat → Bool) :
    Models (first ++ second) assignment ↔ Models first assignment ∧ Models second assignment := by
  constructor
  · intro models
    exact ⟨fun constraint member => models constraint (List.mem_append_left _ member),
      fun constraint member => models constraint (List.mem_append_right _ member)⟩
  · rintro ⟨left, right⟩ constraint member
    rcases List.mem_append.1 member with inFirst | inSecond
    · exact left constraint inFirst
    · exact right constraint inSecond

theorem modelsSingle (constraint : Constraint) (assignment : Nat → Bool) :
    Models [constraint] assignment ↔ constraint.holds assignment = true := by
  simp [Models]

end Constraint

namespace Engine

/-- The calls that an engine serves. -/
inductive Request where
  | addAtoms (count : Nat)
  | addClause (literals : List Literal)
  | addParity (atoms : List Nat) (parity : Bool)
  | setOptions (update : Options → Options)
  | solve (environment : Environment) (assumptions : List Literal)
  | openTraversal (maximumLength maximumGlue : Nat)
  | nextLearnt
  | closeTraversal

/-- A submission answers whether the engine is still consistent. -/
inductive Reply where
  | done
  | accepted (consistent : Bool)
  | verdict (verdict : Verdict)
  | learnt (clause : Option (List Literal))

namespace Request

/-- This function serves a request. -/
def perform (engine : Engine) : Request → Except Stuck (Reply × Engine)
  | .addAtoms count => .ok (.done, engine.addAtoms count)
  | .addClause literals =>
    let after := engine.addClause literals
    .ok (.accepted after.consistent, after)
  | .addParity atoms parity =>
    let after := engine.addParity atoms parity
    .ok (.accepted after.consistent, after)
  | .setOptions update => .ok (.done, { engine with options := update engine.options })
  | .solve environment assumptions =>
    (engine.solve environment assumptions).map fun result => (.verdict result.1, result.2)
  | .openTraversal maximumLength maximumGlue =>
    .ok (.done, engine.openTraversal maximumLength maximumGlue)
  | .nextLearnt => .ok (.learnt engine.nextLearnt.1, engine.nextLearnt.2)
  | .closeTraversal => .ok (.done, engine.closeTraversal)

/-- Only a submission adds a constraint, and the assumptions of a solver call are none. -/
def constraints : Request → List Constraint
  | .addClause literals => [.clause literals]
  | .addParity atoms parity => [.parity atoms parity]
  | _ => []

end Request

/-- This function serves the requests in their order. -/
def run : List Request → Engine → Except Stuck Engine
  | [], engine => .ok engine
  | request :: rest, engine =>
    match request.perform engine with
    | .error stuck => .error stuck
    | .ok (_, after) => run rest after

/-- This function lists the constraints of the requests as they were submitted. -/
def history (requests : List Request) : List Constraint :=
  requests.flatMap Request.constraints

theorem runAppend {first second : List Request} {before middle : Engine}
    (ran : run first before = .ok middle) : run (first ++ second) before = run second middle := by
  induction first generalizing before with
  | nil =>
      obtain rfl := Except.ok.inj ran
      rfl
  | cons request rest inductionHypothesis =>
      rw [run] at ran
      rw [List.cons_append, run]
      cases performed : request.perform before with
      | error stuck =>
          rw [performed] at ran
          contradiction
      | ok result =>
          rw [performed] at ran
          exact inductionHypothesis ran

theorem historyAppend (first second : List Request) :
    history (first ++ second) = history first ++ history second :=
  List.flatMap_append

theorem historyNext (requests : List Request) (request : Request) :
    history (requests ++ [request]) = history requests ++ request.constraints := by
  rw [historyAppend, history, history, List.flatMap_singleton]

/-- The learnt clauses, the learnt units and the root level hold in all the models. -/
structure Consequences (models : (Nat → Bool) → Prop) (engine : Engine) : Prop where
  learnts : ∀ assignment, models assignment → ∀ reference,
    (engine.network.store.clause reference).learnt = true →
      Clause.holds assignment (engine.network.store.literals reference) = true
  units : ∀ assignment, models assignment → ∀ literal ∈ engine.learntUnits.toList,
    literal.holds assignment = true
  root : ∀ assignment, models assignment → ∀ literal ∈ engine.network.trail.literals.toList,
    engine.network.trail.atomLevel literal.atom = 0 → literal.holds assignment = true

section Consequences

variable {models : (Nat → Bool) → Prop} {engine : Engine}

theorem Sane.consequences (sane : engine.Sane models) : Consequences models engine where
  learnts assignment model reference learnt := by
    refine sane.sound.clauses assignment model reference (Nat.lt_of_not_le fun outside => ?_)
    rw [ClauseStore.clauseOutside outside] at learnt
    contradiction
  units assignment model literal member := sane.units literal member assignment model
  root := sane.sound.root

theorem Valid.consequences (valid : engine.Valid models) : Consequences models engine := by
  cases valid with
  | steady steady _ => exact steady.toSane.consequences
  | refuted _ unsatisfiable =>
      exact ⟨fun assignment model => (unsatisfiable assignment model).elim,
        fun assignment model => (unsatisfiable assignment model).elim,
        fun assignment model => (unsatisfiable assignment model).elim⟩

/-- A traversal collects learnt units and learnt clauses only. -/
theorem Valid.smallLearnts (valid : engine.Valid models) {maximumLength maximumGlue : Nat}
    {clause : List Literal} (member : clause ∈ engine.smallLearnts maximumLength maximumGlue)
    {assignment : Nat → Bool} (model : models assignment) :
    Clause.holds assignment clause = true := by
  cases valid with
  | refuted _ unsatisfiable => exact (unsatisfiable assignment model).elim
  | steady steady _ =>
      have consequences := steady.toSane.consequences
      unfold Engine.smallLearnts at member
      rcases List.mem_append.1 member with unit | longer
      · split at unit
        · obtain ⟨literal, listed, rfl⟩ := List.mem_map.1 unit
          have holds := consequences.units assignment model literal listed
          rw [Clause.holds, List.any_cons, holds, Bool.true_or]
        · exact absurd unit List.not_mem_nil
      · obtain ⟨reference, listed, found⟩ := List.mem_filterMap.1 longer
        simp only at found
        split at found
        · obtain rfl := Option.some.inj found
          exact consequences.learnts assignment model reference (steady.learnts reference listed)
        · contradiction

theorem Valid.addAtom (valid : engine.Valid models) : Valid models engine.addAtom := by
  cases valid with
  | steady steady root => exact .steady steady.addAtom root
  | refuted inconsistent unsatisfiable => exact .refuted inconsistent unsatisfiable

theorem Valid.describe {others : (Nat → Bool) → Prop} (valid : engine.Valid models)
    (same : ∀ assignment, models assignment ↔ others assignment) : Valid others engine := by
  have equal : models = others := funext fun assignment => propext (same assignment)
  rwa [← equal]

end Consequences

/-- What the engine knows agrees with the constraints that have been submitted. -/
structure Faithful (constraints : List Constraint) (engine : Engine) : Prop where
  valid : Valid (Constraint.Models constraints) engine
  inside : ∀ constraint ∈ constraints, ∀ atom ∈ constraint.atoms, atom < engine.atomCount
  submitted : engine.submitted = constraints.length
  delivered : ∀ clauses, engine.traversal = some clauses → ∀ clause ∈ clauses,
    ∀ assignment, Constraint.Models constraints assignment → Clause.holds assignment clause = true

/-- A request adds its constraints, and a refuted engine stays refuted. -/
structure Performed (constraints added : List Constraint) (before after : Engine) : Prop where
  faithful : Faithful (constraints ++ added) after
  refuted : before.consistent = false → after.consistent = false

section Faithful

variable {constraints : List Constraint} {engine : Engine}
  (faithful : Faithful constraints engine)
include faithful

/-- A new constraint only takes models away. -/
theorem Faithful.submit (constraint : Constraint) {after : Engine}
    (submitted : Submitted (Constraint.Models constraints)
      (fun assignment => constraint.holds assignment = true) constraint.atoms engine after) :
    Performed constraints [constraint] engine after where
  faithful :=
    { valid := submitted.valid.describe fun assignment => by
        rw [Constraint.modelsAppend, Constraint.modelsSingle]
      inside := fun other member atom listed => by
        rcases List.mem_append.1 member with old | new
        · exact Nat.lt_of_lt_of_le (faithful.inside other old atom listed) submitted.submits.atoms
        · obtain rfl := List.mem_singleton.1 new
          exact submitted.inside atom listed
      submitted := by
        rw [submitted.submits.submitted, faithful.submitted, List.length_append,
          List.length_singleton]
      delivered := fun clauses traversal clause member assignment models => by
        rw [submitted.submits.traversal] at traversal
        exact faithful.delivered clauses traversal clause member assignment
          ((Constraint.modelsAppend _ _ _).1 models).1 }
  refuted := submitted.submits.refuted

/-- A request without a constraint leaves the models. -/
theorem Faithful.keep {after : Engine} (valid : Valid (Constraint.Models constraints) after)
    (atoms : engine.atomCount ≤ after.atomCount) (submitted : after.submitted = engine.submitted)
    (refuted : engine.consistent = false → after.consistent = false)
    (delivered : ∀ clauses, after.traversal = some clauses → ∀ clause ∈ clauses,
      ∀ assignment, Constraint.Models constraints assignment →
        Clause.holds assignment clause = true) :
    Performed constraints [] engine after where
  faithful := by
    rw [List.append_nil]
    exact
      { valid
        inside := fun constraint member atom listed =>
          Nat.lt_of_lt_of_le (faithful.inside constraint member atom listed) atoms
        submitted := submitted.trans faithful.submitted
        delivered }
  refuted

/-- A request that leaves the network alone only matters to a traversal. -/
theorem Faithful.keepNetwork (options : Options) (traversal : Option (List (List Literal)))
    (delivered : ∀ clauses, traversal = some clauses → ∀ clause ∈ clauses,
      ∀ assignment, Constraint.Models constraints assignment →
        Clause.holds assignment clause = true) :
    Performed constraints [] engine { engine with options, traversal } :=
  faithful.keep (faithful.valid.same rfl rfl rfl rfl rfl rfl) (Nat.le_refl _) rfl id delivered

theorem Faithful.keepLearnt : Performed constraints [] engine engine.nextLearnt.2 := by
  unfold Engine.nextLearnt
  split
  · next clause rest delivering =>
      apply faithful.keepNetwork engine.options (some rest)
      intro clauses traversal other member
      obtain rfl := Option.some.inj traversal
      exact faithful.delivered _ delivering other (List.mem_cons_of_mem _ member)
  · exact faithful.keepNetwork engine.options engine.traversal faithful.delivered

/-- A call to the solver adds no constraint. -/
theorem Faithful.solved {assumptions : List Literal} {result : Verdict × Engine}
    (solved : Solved (Constraint.Models constraints) assumptions engine result) :
    Performed constraints [] engine result.2 := by
  refine faithful.keep solved.valid solved.atoms solved.submitted solved.refuted
    fun clauses traversal => ?_
  exact faithful.delivered clauses (solved.traversal.symm.trans traversal)

/-- Every request keeps the engine faithful to the constraints submitted so far. -/
theorem Faithful.perform {request : Request} {reply : Reply} {after : Engine}
    (performed : request.perform engine = .ok (reply, after)) :
    Performed constraints request.constraints engine after := by
  cases request with
  | addAtoms count =>
      obtain ⟨-, rfl⟩ := Prod.mk.inj (Except.ok.inj performed)
      have grows := addAtomsGrows count engine
      refine faithful.keep (addAtomsInduction (fun _ valid => valid.addAtom) count faithful.valid)
        grows.atoms grows.submitted grows.consistent.trans fun clauses traversal => ?_
      exact faithful.delivered clauses (grows.traversal.symm.trans traversal)
  | addClause literals =>
      obtain ⟨-, rfl⟩ := Prod.mk.inj (Except.ok.inj performed)
      exact faithful.submit (.clause literals) (faithful.valid.addClause literals)
  | addParity atoms parity =>
      obtain ⟨-, rfl⟩ := Prod.mk.inj (Except.ok.inj performed)
      exact faithful.submit (.parity atoms parity) (faithful.valid.addParity atoms parity)
  | setOptions update =>
      obtain ⟨-, rfl⟩ := Prod.mk.inj (Except.ok.inj performed)
      exact faithful.keepNetwork (update engine.options) engine.traversal faithful.delivered
  | solve environment assumptions =>
      have solved := faithful.valid.solve environment assumptions
      rw [Request.perform] at performed
      generalize engine.solve environment assumptions = result at solved performed
      cases result with
      | error stuck => contradiction
      | ok result =>
          obtain ⟨-, rfl⟩ := Prod.mk.inj (Except.ok.inj performed)
          exact faithful.solved solved
  | openTraversal maximumLength maximumGlue =>
      obtain ⟨-, rfl⟩ := Prod.mk.inj (Except.ok.inj performed)
      apply faithful.keepNetwork engine.options _
      intro clauses traversal clause member _ models
      obtain rfl := Option.some.inj traversal
      exact faithful.valid.smallLearnts member models
  | nextLearnt =>
      obtain ⟨-, rfl⟩ := Prod.mk.inj (Except.ok.inj performed)
      exact faithful.keepLearnt
  | closeTraversal =>
      obtain ⟨-, rfl⟩ := Prod.mk.inj (Except.ok.inj performed)
      exact faithful.keepNetwork engine.options none fun clauses impossible => by contradiction

end Faithful

/-- A submission is accepted if the engine is consistent after it. -/
theorem acceptedConsistent {request : Request} {engine after : Engine} {accepted : Bool}
    (performed : request.perform engine = .ok (.accepted accepted, after)) :
    after.consistent = accepted := by
  cases request with
  | addClause literals =>
      obtain ⟨same, rfl⟩ := Prod.mk.inj (Except.ok.inj performed)
      exact Reply.accepted.inj same
  | addParity atoms parity =>
      obtain ⟨same, rfl⟩ := Prod.mk.inj (Except.ok.inj performed)
      exact Reply.accepted.inj same
  | solve environment assumptions =>
      rw [Request.perform] at performed
      generalize engine.solve environment assumptions = result at performed
      cases result with
      | error stuck => contradiction
      | ok result =>
          obtain ⟨impossible, -⟩ := Prod.mk.inj (Except.ok.inj performed)
          contradiction
  | _ => simp [Request.perform] at performed

/-- A new engine knows nothing. -/
theorem ofOptionsFaithful (options : Options) : Faithful [] (ofOptions options) where
  valid := by
    refine .steady ⟨⟨?_, ?_, ?_, ?_, ?_, ?_, rfl⟩, Network.emptyReady⟩ rfl
    · exact ⟨fun assignment _ reference inside => absurd inside (Nat.not_lt_zero _),
        fun assignment _ index inside => absurd inside (Nat.not_lt_zero _),
        fun assignment _ literal member => absurd member List.not_mem_nil⟩
    · exact fun assignment _ constraint member => absurd member List.not_mem_nil
    · exact ⟨Queue.emptyIndexed, rfl, fun atom inside => absurd inside (Nat.not_lt_zero _)⟩
    · exact ⟨rfl, fun atom => rfl⟩
    · exact fun reference member => absurd member List.not_mem_nil
    · exact fun literal member => absurd member List.not_mem_nil
  inside constraint member := absurd member List.not_mem_nil
  submitted := rfl
  delivered clauses impossible := by contradiction

section Run

variable {constraints : List Constraint} {engine after : Engine}

/-- A run keeps the engine faithful, and a refuted engine stays refuted during it. -/
theorem Faithful.run (requests : List Request) (faithful : Faithful constraints engine)
    (ran : Engine.run requests engine = .ok after) :
    Performed constraints (history requests) engine after := by
  induction requests generalizing constraints engine with
  | nil =>
      obtain rfl := Except.ok.inj ran
      refine ⟨?_, id⟩
      rwa [history, List.flatMap_nil, List.append_nil]
  | cons request rest inductionHypothesis =>
      rw [Engine.run] at ran
      cases performed : request.perform engine with
      | error stuck =>
          rw [performed] at ran
          contradiction
      | ok result =>
          obtain ⟨reply, middle⟩ := result
          rw [performed] at ran
          have served := faithful.perform performed
          have later := inductionHypothesis served.faithful ran
          refine ⟨?_, fun inconsistent => later.refuted (served.refuted inconsistent)⟩
          rw [history, List.flatMap_cons, ← List.append_assoc]
          exact later.faithful

/-- What is computed from the outcome of a run is a fact about the engine it reaches. -/
theorem reachedObserved {options : Options} {requests : List Request} {Fact : Type}
    {observe : Engine → Fact} {fact : Fact}
    (computed : (Engine.run requests (ofOptions options)).toOption.map observe = some fact) :
    ∃ reached, Engine.run requests (ofOptions options) = .ok reached ∧ observe reached = fact := by
  cases ran : Engine.run requests (ofOptions options) with
  | error stuck =>
      rw [ran] at computed
      contradiction
  | ok reached =>
      rw [ran] at computed
      exact ⟨reached, rfl, Option.some.inj computed⟩

/-- A run from a new engine is faithful to the constraints it has submitted. -/
theorem reachedFaithful {options : Options} {requests : List Request}
    (reached : Engine.run requests (ofOptions options) = .ok engine) :
    Faithful (history requests) engine :=
  ((ofOptionsFaithful options).run requests reached).faithful

end Run

end Engine

end ParitySat
