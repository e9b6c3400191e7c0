/-
This file shows that every table keeps a slot for each atom and that every call ends at the root
level, whatever the caller asks for.
-/

import ParitySat.Proofs.Engine.Registry
import ParitySat.Proofs.Engine.Runs
import ParitySat.Proofs.Engine.Steps

namespace ParitySat

namespace Engine

/-- The network and every table of the engine are in order, even after a refutation. -/
structure Tidy (engine : Engine) : Prop where
  shaped : engine.network.Shaped
  registered : engine.Registered
  ranked : engine.Ranked
  queued : engine.network.trail.Queued engine.order
  width : engine.marks.size = engine.atomCount

/-- Between two calls a tidy engine is at the root level. -/
structure Resting (engine : Engine) : Prop extends Tidy engine where
  root : engine.level = 0

theorem ofOptionsResting (options : Options) : Resting (ofOptions options) where
  shaped := Network.emptyReady.shaped
  registered _ := rfl
  ranked := rfl
  queued := ⟨Queue.emptyIndexed, rfl, fun _ inside => absurd inside (Nat.not_lt_zero _)⟩
  width := rfl
  root := rfl

section Resting

variable {engine : Engine}

/-- Only the tables and the network matter. -/
theorem Resting.same {after : Engine} (resting : engine.Resting)
    (network : after.network = engine.network) (order : after.order = engine.order)
    (marks : after.marks = engine.marks) (learnts : after.learnts = engine.learnts) :
    after.Resting where
  shaped := by
    rw [network]
    exact resting.shaped
  registered := resting.registered.same learnts fun reference => by rw [network]
  ranked := by
    rw [Ranked, order, atomCount, network]
    exact resting.ranked
  queued := by
    rw [order, network]
    exact resting.queued
  width := by
    rw [marks, atomCount, network]
    exact resting.width
  root := by
    rw [level, network]
    exact resting.root

theorem Sane.tidy {models : (Nat → Bool) → Prop} (sane : engine.Sane models)
    (shaped : engine.network.Shaped) (registered : engine.Registered) (ranked : engine.Ranked) :
    engine.Tidy where
  shaped
  registered
  ranked
  queued := sane.queued
  width := sane.unmarked.width

theorem Resting.addAtom (resting : engine.Resting) : engine.addAtom.Resting := by
  have count := atomCountAddAtom engine
  exact
    { shaped := (Network.growInherits resting.shaped).shaped resting.shaped
      registered := resting.registered.same rfl fun _ => rfl
      ranked := by
        rw [Ranked, count, ← resting.ranked]
        exact Array.size_push _
      queued := resting.queued.grow
      width := by
        rw [count, ← resting.width]
        exact Array.size_push _
      root := resting.root }

theorem Tends.ranked {after : Engine} (tends : engine.Tends after) (ranked : engine.Ranked)
    (atoms : after.atomCount = engine.atomCount) : after.Ranked := by
  rw [Ranked, tends.activity, atoms]
  exact ranked

/-- A propagation keeps an engine tidy, whatever its outcome. -/
theorem Steady.tidyPropagate {models : (Nat → Bool) → Prop} (steady : engine.Steady models)
    (registered : engine.Registered) (ranked : engine.Ranked) : engine.propagate.2.Tidy := by
  obtain ⟨sane, stable, -, -⟩ := steady.propagate
  have tends := tendsPropagate steady.ready
  exact sane.tidy stable.shaped (tends.registered registered)
    (tends.ranked ranked (keepsPropagate steady.ready).atoms)

/-- At the root level there is nothing to undo. -/
theorem cancelRoot (root : engine.level = 0) : engine.cancelUntil 0 = engine := by
  have shut : ¬0 < engine.network.trail.level := Nat.not_lt.2 (Nat.le_of_eq root)
  simp only [cancelUntil, Trail.released, Trail.cancelUntil, if_neg shut, List.foldl_nil]

end Resting

end Engine

/-- The engine at the next moment has the property, if there is a next moment. -/
def Progress.Leads (property : Engine → Prop) : Progress → Prop
  | .running next => property next.engine
  | .finished _ final => property final.engine
  | .stuck => True

theorem Progress.Leads.trans {first second : Engine} {progress : Progress}
    (tends : first.Tends second) (leads : progress.Leads second.Tends) :
    progress.Leads first.Tends := by
  cases progress with
  | running next => exact tends.trans leads
  | finished verdict final => exact tends.trans leads
  | stuck => trivial

namespace Engine

section Step

variable (budget : Budget) (search : Search)

theorem afterAnalysisTends (outcome : Option Analysis) (engine : Engine) :
    (search.afterAnalysis budget (outcome, engine)).Leads engine.Tends := by
  cases outcome with
  | none => trivial
  | some analysis =>
      simp only [Search.afterAnalysis]
      split <;> exact tendsLearn analysis

theorem branchTends (choice : Option Nat) (engine : Engine) :
    (search.branch (choice, engine)).Leads engine.Tends := by
  cases choice with
  | none => exact .refl engine
  | some atom => exact .same rfl rfl rfl rfl rfl

theorem decideTends (generator : Generator) (assumptions : List Literal) :
    (search.decide generator assumptions).Leads search.engine.Tends := by
  rw [Search.decideEq]
  cases assume search.engine.network.trail (assumptions.drop search.engine.level) with
  | failed trail => exact .same rfl rfl rfl rfl rfl
  | decide literal trail => exact .same rfl rfl rfl rfl rfl
  | complete trail =>
      have counted : search.engine.Tends { search.engine.withTrail trail with
          statistics := { search.engine.statistics with
            decisions := search.engine.statistics.decisions + 1 } } :=
        .same rfl rfl rfl rfl rfl
      exact (branchTends search _ _).trans (counted.trans (tendsPickBranch generator))

theorem relievedTends (shaped : search.engine.network.Shaped) :
    search.engine.Tends search.relieved.engine := by
  unfold Search.relieved
  simp only
  split
  · exact tendsReduce shaped
  · exact .refl _

theorem afterFixpointTends (generator : Generator) (assumptions : List Literal)
    (shaped : search.engine.network.Shaped) :
    (search.afterFixpoint generator budget assumptions).Leads search.engine.Tends := by
  rw [Search.afterFixpointEq]
  split
  · exact (tendsCancelUntil 0).trans (.same rfl rfl rfl rfl rfl)
  · split
    · exact .refl _
    · exact (decideTends search.relieved generator assumptions).trans (relievedTends search shaped)

end Step

/-- A search stays tidy, and its end leaves everything at rest. -/
def StepRests (before : Engine) : Progress → Prop
  | .running next => next.engine.Registered ∧ next.engine.Ranked ∧
    before.learntUnits.toList <+: next.engine.learntUnits.toList
  | .finished verdict final => (final.engine.conclude verdict).Resting ∧
    before.learntUnits.toList <+: (final.engine.conclude verdict).learntUnits.toList
  | .stuck => True

theorem unitsConclude (verdict : Verdict) (engine : Engine) :
    (engine.conclude verdict).learntUnits = engine.learntUnits := by
  cases verdict <;> rfl

section Search

variable {models : (Nat → Bool) → Prop} {assumptions : List Literal} {base engine : Engine}

theorem Searching.resting (searching : Searching models assumptions base engine)
    (registered : engine.Registered) (ranked : engine.Ranked) (verdict : Verdict) :
    (engine.conclude verdict).Resting := by
  have ended (model : Array Truth) : ({ engine with model }.cancelUntil 0).Resting := by
    have kept : Searching models assumptions base { engine with model } :=
      searching.same rfl rfl rfl rfl rfl rfl rfl rfl rfl
    have undone : Tends { engine with model } ({ engine with model }.cancelUntil 0) :=
      tendsCancelUntil 0
    have steady := kept.toSteady.cancelUntil 0
    refine ⟨steady.toSane.tidy steady.ready.shaped (undone.registered registered)
      (undone.ranked ranked Network.atomCountBacktrack), ?_⟩
    rw [levelCancelUntil, Nat.zero_min]
  cases verdict with
  | satisfiable => exact ended _
  | unsatisfiable => exact ended engine.model
  | unknown => exact ended engine.model

variable {generator : Generator} {budget : Budget} {search : Search}
  (searching : Searching models assumptions base search.engine)
  (registered : search.engine.Registered) (ranked : search.engine.Ranked)
include searching registered ranked

/-- Whatever keeps the engine consistent leaves it at rest. -/
theorem leadsRests {progress : Progress} (leads : progress.Leads search.engine.Tends)
    (meets : StepMeets models assumptions budget base progress) :
    StepRests search.engine progress := by
  have counted {after : Engine} (tends : search.engine.Tends after) (keeps : base.Keeps after) :
      after.Ranked :=
    tends.ranked ranked (keeps.atoms.trans searching.keeps.atoms.symm)
  cases progress with
  | stuck => trivial
  | running next =>
      exact ⟨leads.registered registered, counted leads meets.keeps, leads.units⟩
  | finished verdict final =>
      have rests (ended : Searching models assumptions base final.engine) :
          StepRests search.engine (.finished verdict final) :=
        ⟨ended.resting (leads.registered registered) (counted leads ended.keeps) verdict, by
          rw [unitsConclude]
          exact leads.units⟩
      cases meets with
      | satisfiable ended _ _ _ => exact rests ended
      | refuted _ inconsistent _ =>
          rw [leads.consistent, searching.consistent] at inconsistent
          contradiction
      | failed ended _ _ => exact rests ended
      | unknown ended _ _ _ => exact rests ended

/-- A step keeps the engine consistent, or it refutes the constraints at the root level. -/
theorem stepTends : (search.step generator budget assumptions).Leads search.engine.Tends ∨
    ∃ final, search.step generator budget assumptions = .finished .unsatisfiable final ∧
      final.engine.Resting ∧
      search.engine.learntUnits.toList <+: final.engine.learntUnits.toList := by
  have propagated := tendsPropagate searching.ready
  have tidy := searching.toSteady.tidyPropagate registered ranked
  rw [Search.stepEq]
  cases outcome : search.engine.propagate.1 with
  | none =>
      exact Or.inl (.trans propagated
        (afterFixpointTends budget _ generator assumptions tidy.shaped))
  | some conflict =>
      rw [Search.afterPropagation, Search.afterConflictEq]
      by_cases root : search.engine.propagate.2.level = 0
      · have resting : search.engine.propagate.2.Resting := ⟨tidy, root⟩
        rw [if_pos root]
        exact Or.inr ⟨_, rfl, resting.same rfl rfl rfl rfl, propagated.units⟩
      · have analyzed : search.engine.Tends
            (Engine.analyze (Search.clash { search with
              engine := search.engine.propagate.2 }).engine conflict).2 :=
          propagated.trans (.same rfl rfl rfl rfl rfl)
        rw [if_neg root]
        exact Or.inl (.trans analyzed (afterAnalysisTends budget _ _ _))

/-- A refutation leaves everything at rest as well. -/
theorem stepRests (inside : ∀ literal ∈ assumptions, literal.atom < base.atomCount) :
    StepRests search.engine (search.step generator budget assumptions) := by
  have meets := stepMeets budget generator searching inside
  rcases stepTends searching registered ranked with leads | ⟨final, same, resting, units⟩
  · exact leadsRests searching registered ranked leads meets
  · rw [same]
    have undone : final.engine.conclude .unsatisfiable = final.engine := cancelRoot resting.root
    rw [StepRests, undone]
    exact ⟨resting, units⟩

/-- Whatever a search reaches is tidy. -/
theorem reachesTidy (inside : ∀ literal ∈ assumptions, literal.atom < base.atomCount)
    {later : Search} (reaches : Reaches generator budget assumptions search later) :
    later.engine.Tidy := by
  induction reaches with
  | refl => exact searching.toSane.tidy searching.ready.shaped registered ranked
  | @step first second third next _ inductionHypothesis =>
      have meets := stepMeets budget generator searching inside
      have rests : StepRests first.engine (first.step generator budget assumptions) :=
        stepRests searching registered ranked inside
      rw [next] at meets rests
      exact inductionHypothesis meets rests.1 rests.2.1

/-- A whole search leaves everything at rest. -/
theorem runRests (inside : ∀ literal ∈ assumptions, literal.atom < base.atomCount) (steps : Nat)
    {verdict : Verdict} {final : Search}
    (ran : Search.run generator budget assumptions steps search = .ok (verdict, final)) :
    StepRests search.engine (.finished verdict final) := by
  induction steps generalizing search with
  | zero => contradiction
  | succ steps inductionHypothesis =>
      have meets := stepMeets budget generator searching inside
      have rests : StepRests search.engine (search.step generator budget assumptions) :=
        stepRests searching registered ranked inside
      rw [Search.run] at ran
      generalize search.step generator budget assumptions = progress at meets rests ran
      cases progress with
      | running next =>
          obtain ⟨listed, counted, units⟩ := rests
          obtain ⟨resting, later⟩ := inductionHypothesis meets listed counted ran
          exact ⟨resting, units.trans later⟩
      | finished answer ended =>
          obtain ⟨rfl, rfl⟩ := Prod.mk.inj (Except.ok.inj ran)
          exact rests
      | stuck => contradiction

end Search

/-- A call leaves everything at rest and forgets no learnt unit. -/
structure Tended (before after : Engine) : Prop where
  resting : after.Resting
  units : before.learntUnits.toList <+: after.learntUnits.toList

theorem Resting.tended {engine : Engine} (resting : engine.Resting) : engine.Tended engine :=
  ⟨resting, List.prefix_refl _⟩

theorem Tended.addAtom {before after : Engine} (tended : before.Tended after) :
    before.Tended after.addAtom :=
  ⟨tended.resting.addAtom, tended.units⟩

section Submission

variable {models : (Nat → Bool) → Prop} {engine : Engine} (steady : engine.Steady models)
  (resting : engine.Resting)
include steady resting

theorem Steady.tendPropagateRoot : engine.Tended engine.propagateRoot := by
  have level : engine.propagate.2.level = 0 := by
    have limits := (Network.propagateSpec steady.ready).1.propagates.frame.1
    exact (congrArg Array.size limits).trans resting.root
  have rests : engine.propagate.2.Resting :=
    ⟨steady.tidyPropagate resting.registered resting.ranked, level⟩
  have units := (tendsPropagate steady.ready).units
  unfold Engine.propagateRoot
  generalize engine.propagate = propagated at rests units
  obtain ⟨outcome, after⟩ := propagated
  cases outcome with
  | none => exact ⟨rests, units⟩
  | some conflict => exact ⟨rests.same rfl rfl rfl rfl, units⟩

/-- A new unit is propagated at once. -/
theorem Steady.tendEnqueueRoot {literal : Literal} (inside : literal.atom < engine.atomCount)
    (unknown : engine.network.trail.atomValue literal.atom = none) :
    engine.Tended (engine.enqueue literal none).propagateRoot := by
  have assigned : Steady (fun assignment => models assignment ∧ literal.holds assignment = true)
      (engine.enqueue literal none) :=
    steady.enqueueRoot resting.root inside unknown fun _ _ => Iff.rfl
  have rests : (engine.enqueue literal none).Resting :=
    ⟨assigned.toSane.tidy assigned.ready.shaped (resting.registered.same rfl fun _ => rfl)
      (resting.ranked.trans (Network.atomCountAssign none).symm), resting.root⟩
  obtain ⟨resting, units⟩ := assigned.tendPropagateRoot rests
  exact ⟨resting, units⟩

theorem Steady.tendAddReduced {literals reduced : List Literal}
    (kept : Reduced engine.network.trail literals reduced)
    (inside : ∀ literal ∈ literals, literal.atom < engine.atomCount) :
    engine.Tended (engine.addReduced reduced) := by
  match reduced, kept with
  | [], _ => exact ⟨resting.same rfl rfl rfl rfl, List.prefix_refl _⟩
  | [literal], kept =>
      exact steady.tendEnqueueRoot resting
        (inside literal (kept.member literal List.mem_cons_self))
        (kept.unknown literal List.mem_cons_self)
  | first :: second :: rest, kept =>
      obtain ⟨stored, root⟩ := (steady.addReduced resting.root kept inside).consistentSteady
        steady.consistent
      have registered : (engine.addReduced (first :: second :: rest)).Registered :=
        resting.registered.attach { literals := first :: second :: rest } rfl
      exact ⟨⟨stored.toSane.tidy stored.ready.shaped registered resting.ranked, root⟩,
        List.prefix_refl _⟩

theorem Steady.tendAddSubstituted {parity : Bool} {atoms : List Nat}
    {constraint : ParityConstraint}
    (substituted : Substituted engine.network.trail parity atoms constraint)
    (distinct : atoms.Nodup) (inside : ∀ atom ∈ atoms, atom < engine.atomCount) :
    engine.Tended (engine.addSubstituted constraint) := by
  obtain ⟨free, sign⟩ := constraint
  match free, substituted with
  | [], _ =>
      cases sign with
      | true => exact ⟨resting.same rfl rfl rfl rfl, List.prefix_refl _⟩
      | false => exact resting.tended
  | [atom], substituted =>
      exact steady.tendEnqueueRoot resting
        (inside atom (substituted.kept.subset List.mem_cons_self))
        (substituted.unknown atom List.mem_cons_self)
  | first :: second :: rest, substituted =>
      obtain ⟨stored, root⟩ := (steady.addSubstituted resting.root substituted distinct
        inside).consistentSteady steady.consistent
      have registered :
          (engine.addSubstituted ⟨first :: second :: rest, sign⟩).Registered :=
        resting.registered.same rfl fun _ => rfl
      exact ⟨⟨stored.toSane.tidy stored.ready.shaped registered resting.ranked, root⟩,
        List.prefix_refl _⟩

end Submission

section Requests

variable {models : (Nat → Bool) → Prop} {engine : Engine}

theorem Valid.tendSubmit (valid : engine.Valid models) (resting : engine.Resting)
    (atoms : List Nat) {absorb : Engine → Engine}
    (step : ∀ before : Engine, before.Steady models → before.Resting →
      (∀ atom ∈ atoms, atom < before.atomCount) → before.Tended (absorb before)) :
    engine.Tended (engine.submit atoms absorb) := by
  obtain ⟨rests, units⟩ : engine.Tended (engine.ensureAtoms atoms) :=
    ensureAtomsInduction (fun _ tended => tended.addAtom) atoms resting.tended
  have counted : (engine.ensureAtoms atoms).counted.Resting := rests.same rfl rfl rfl rfl
  unfold Engine.submit
  simp only
  split
  · next consistent =>
      have steady := ((valid.ensureAtoms atoms).consistentSteady consistent).1.counted
      obtain ⟨absorbed, later⟩ := step _ steady counted ensureAtomsInside
      exact ⟨absorbed, units.trans later⟩
  · exact ⟨counted, units⟩

theorem Valid.tendAddClause (valid : engine.Valid models) (resting : engine.Resting)
    (literals : List Literal) : engine.Tended (engine.addClause literals) := by
  rw [addClauseSubmit]
  apply valid.tendSubmit resting
  intro before steady rests inside
  split
  · exact rests.tended
  · next reduced kept =>
      exact steady.tendAddReduced rests (reducedSome steady.ready.shaped.trail kept)
        fun literal member => inside literal.atom (List.mem_map_of_mem member)

theorem Valid.tendAddParity (valid : engine.Valid models) (resting : engine.Resting)
    (atoms : List Nat) (parity : Bool) : engine.Tended (engine.addParity atoms parity) := by
  rw [addParitySubmit]
  apply valid.tendSubmit resting
  intro before steady rests inside
  exact steady.tendAddSubstituted rests (substituteSpec steady.ready.shaped.trail _ _)
    (ParityConstraint.normalizeNodup atoms)
    fun atom member => inside atom (ParityConstraint.memberNormalize member)

variable {assumptions : List Literal} {environment : Environment}

theorem Steady.tendSearchWith (steady : engine.Steady models) (resting : engine.Resting)
    (inside : ∀ literal ∈ assumptions, literal.atom < engine.atomCount) {budget : Budget}
    {result : Verdict × Engine}
    (ended : searchWith environment budget assumptions engine = .ok result) :
    engine.Tended result.2 := by
  unfold searchWith at ended
  cases ran : Search.run environment.generator budget assumptions environment.steps
      (Search.start engine) with
  | error stuck =>
      rw [ran] at ended
      contradiction
  | ok found =>
      rw [ran] at ended
      obtain rfl := Except.ok.inj ended
      obtain ⟨rests, units⟩ := runRests (steady.startSearching resting.root) resting.registered
        resting.ranked inside environment.steps ran
      exact ⟨rests, units⟩

/-- A worker starts from the tables of the engine that employs it. -/
theorem Steady.tendWorker (steady : engine.Steady models) (resting : engine.Resting)
    (index : Nat) : engine.Tended (engine.worker index) := by
  have employs := steady.employs index
  obtain ⟨learnts, store, order, units⟩ : (engine.worker index).learnts = engine.learnts ∧
      (engine.worker index).network.store = engine.network.store ∧
      (engine.worker index).order = engine.order ∧
      (engine.worker index).learntUnits = engine.learntUnits := by
    unfold Engine.worker
    simp only
    split
    · exact ⟨rfl, rfl, rfl, rfl⟩
    · split <;> exact ⟨rfl, rfl, rfl, rfl⟩
  refine ⟨⟨employs.steady.toSane.tidy employs.steady.ready.shaped ?_ ?_,
    employs.level.trans resting.root⟩, ?_⟩
  · exact resting.registered.same learnts fun reference =>
      congrArg (fun store => (store.clause reference).learnt) store
  · rw [Ranked, order, employs.atoms]
    exact resting.ranked
  · exact units ▸ List.prefix_refl _

/-- The winner of a portfolio is at rest whoever it is. -/
theorem Steady.tendRunWorkers (steady : engine.Steady models) (resting : engine.Resting)
    (inside : ∀ literal ∈ assumptions, literal.atom < engine.atomCount)
    {result : Verdict × Engine}
    (ended : runWorkers environment assumptions engine = .ok result) :
    engine.Tended result.2 := by
  have every : ∀ result, runWorkers environment assumptions engine = .ok result →
      engine.Tended result.2 := by
    apply runWorkersInduction (motive := fun outcome : Except Stuck (Verdict × Engine) =>
      ∀ result, outcome = .ok result → engine.Tended result.2)
    intro index result ran
    have employs := steady.employs index
    have own := steady.tendWorker resting index
    have ended := employs.steady.tendSearchWith own.resting (by rwa [employs.atoms]) ran
    exact ⟨ended.resting, own.units.trans ended.units⟩
  exact every result ended

theorem Resting.prepare (resting : engine.Resting) (assumptions : List Literal) :
    engine.Tended (engine.prepare assumptions) := by
  apply ensureAtomsInduction (fun _ tended => tended.addAtom)
  exact ⟨resting.same rfl rfl rfl rfl, List.prefix_refl _⟩

theorem Valid.tendSolve (valid : engine.Valid models) (resting : engine.Resting)
    {result : Verdict × Engine}
    (answered : engine.solve environment assumptions = .ok result) : engine.Tended result.2 := by
  obtain ⟨rests, units⟩ := resting.prepare assumptions
  have inside := engine.assumedInside assumptions
  unfold Engine.solve at answered
  simp only at answered
  split at answered
  · obtain rfl := Except.ok.inj answered
    exact ⟨rests, units⟩
  · next consistent =>
      obtain ⟨steady, -⟩ := (valid.prepare assumptions).consistentSteady
        (by simpa using consistent)
      split at answered
      · unfold solvePortfolio at answered
        cases ran : runWorkers environment assumptions (engine.prepare assumptions) with
        | error stuck =>
            rw [ran] at answered
            contradiction
        | ok winner =>
            rw [ran] at answered
            obtain rfl := Except.ok.inj answered
            have won := steady.tendRunWorkers rests inside ran
            exact ⟨won.resting.same rfl rfl rfl rfl, units.trans won.units⟩
      · have ended := steady.tendSearchWith rests inside answered
        exact ⟨ended.resting, units.trans ended.units⟩

end Requests

/-- Every request leaves the engine at rest. -/
theorem Faithful.tend {constraints : List Constraint} {engine after : Engine}
    (faithful : Faithful constraints engine) (resting : engine.Resting) {request : Request}
    {reply : Reply} (performed : request.perform engine = .ok (reply, after)) :
    engine.Tended after := by
  cases request with
  | addAtoms count =>
      obtain ⟨-, rfl⟩ := Prod.mk.inj (Except.ok.inj performed)
      exact addAtomsInduction (fun _ tended => tended.addAtom) count resting.tended
  | addClause literals =>
      obtain ⟨-, rfl⟩ := Prod.mk.inj (Except.ok.inj performed)
      exact faithful.valid.tendAddClause resting literals
  | addParity atoms parity =>
      obtain ⟨-, rfl⟩ := Prod.mk.inj (Except.ok.inj performed)
      exact faithful.valid.tendAddParity resting atoms parity
  | setOptions update =>
      obtain ⟨-, rfl⟩ := Prod.mk.inj (Except.ok.inj performed)
      exact ⟨resting.same rfl rfl rfl rfl, List.prefix_refl _⟩
  | solve environment assumptions =>
      rw [Request.perform] at performed
      cases answered : engine.solve environment assumptions with
      | error stuck =>
          rw [answered] at performed
          contradiction
      | ok result =>
          rw [answered] at performed
          obtain ⟨-, rfl⟩ := Prod.mk.inj (Except.ok.inj performed)
          exact faithful.valid.tendSolve resting answered
  | openTraversal maximumLength maximumGlue =>
      obtain ⟨-, rfl⟩ := Prod.mk.inj (Except.ok.inj performed)
      exact ⟨resting.same rfl rfl rfl rfl, List.prefix_refl _⟩
  | nextLearnt =>
      obtain ⟨-, rfl⟩ := Prod.mk.inj (Except.ok.inj performed)
      unfold Engine.nextLearnt
      split
      · exact ⟨resting.same rfl rfl rfl rfl, List.prefix_refl _⟩
      · exact resting.tended
  | closeTraversal =>
      obtain ⟨-, rfl⟩ := Prod.mk.inj (Except.ok.inj performed)
      exact ⟨resting.same rfl rfl rfl rfl, List.prefix_refl _⟩

/-- Every run leaves the engine at rest. -/
theorem Faithful.tendRun {constraints : List Constraint} {engine after : Engine}
    (requests : List Request) (faithful : Faithful constraints engine) (resting : engine.Resting)
    (ran : Engine.run requests engine = .ok after) : engine.Tended after := by
  induction requests generalizing constraints engine with
  | nil =>
      obtain rfl := Except.ok.inj ran
      exact resting.tended
  | cons request rest inductionHypothesis =>
      rw [Engine.run] at ran
      cases performed : request.perform engine with
      | error stuck =>
          rw [performed] at ran
          contradiction
      | ok result =>
          obtain ⟨reply, middle⟩ := result
          rw [performed] at ran
          have tended := faithful.tend resting performed
          have later := inductionHypothesis (faithful.perform performed).faithful tended.resting ran
          exact ⟨later.resting, tended.units.trans later.units⟩

theorem reachedResting {options : Options} {requests : List Request} {engine : Engine}
    (reached : Engine.run requests (ofOptions options) = .ok engine) : engine.Resting :=
  ((ofOptionsFaithful options).tendRun requests (ofOptionsResting options) reached).resting

end Engine

end ParitySat
