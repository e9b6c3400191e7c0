/-
This file shows that what every single operation of an engine maintains holds at all its moments.
-/

import ParitySat.Proofs.Engine.Reactions

namespace ParitySat

/-- A fresh literal has an atom that exists and is not on the trail. -/
structure Network.Fresh (network : Network) (literal : Literal) : Prop where
  inside : literal.atom < network.atomCount
  absent : ∀ other ∈ network.trail.literals.toList, other.atom ≠ literal.atom

theorem Trail.Coherent.fresh {network : Network} {literal : Literal}
    (coherent : network.trail.Coherent) (inside : literal.atom < network.atomCount)
    (unknown : network.trail.atomValue literal.atom = none) : network.Fresh literal :=
  ⟨inside, fun _ member => coherent.undetermined unknown member⟩

namespace Trail

/-- The literal has been assigned at the root level. -/
def Rooted (trail : Trail) (literal : Literal) : Prop :=
  literal ∈ trail.literals.toList ∧ trail.atomLevel literal.atom = 0

variable {trail : Trail} {literal : Literal} (rooted : trail.Rooted literal)
include rooted

theorem Rooted.enqueue {other : Literal} (reason : Option Reason)
    (different : literal.atom ≠ other.atom) : (trail.enqueue other reason).Rooted literal := by
  obtain ⟨member, root⟩ := rooted
  refine ⟨?_, ?_⟩
  · rw [literalsEnqueue]
    exact List.mem_append_left _ member
  · rw [atomLevelEnqueue _ _ _ different.symm, root]

/-- The root level is never undone. -/
theorem Rooted.cancelUntil (coherent : trail.Coherent) (level : Nat) :
    (trail.cancelUntil level).Rooted literal := by
  obtain ⟨member, root⟩ := rooted
  refine ⟨?_, (atomLevelCancelUntil literal.atom).trans root⟩
  rw [literalsCancelUntil]
  exact coherent.memberBoundary.2 ⟨member, root ▸ Nat.zero_le level⟩

theorem Rooted.alike {after : Trail} (alike : trail.Alike after) : after.Rooted literal := by
  obtain ⟨member, root⟩ := rooted
  exact ⟨alike.literals ▸ member, (alike.level literal.atom).trans root⟩

end Trail

theorem Network.Propagates.rooted {start network : Network} (propagates : start.Propagates network)
    (shaped : start.Shaped) {literal : Literal} (rooted : start.trail.Rooted literal) :
    network.trail.Rooted literal := by
  obtain ⟨added, grown, -, kept⟩ := propagates.trail shaped
  obtain ⟨member, root⟩ := rooted
  refine ⟨?_, ?_⟩
  · rw [grown]
    exact List.mem_append_left _ member
  · rw [Trail.atomLevel, kept literal member]
    exact root

/-- The atom of a learnt unit had its value at the current level. -/
theorem Network.assertingNotRooted {network : Network} {point : Literal} {rest : List Literal}
    {analysis : Analysis}
    (asserting : Analysis.Asserting network.Fits network.trail point rest analysis)
    (deep : 0 < network.trail.level) {literal : Literal}
    (rooted : network.trail.Rooted literal) : literal.atom ≠ point.negate.atom := by
  intro same
  have root := rooted.2
  rw [same, Literal.atomNegate, asserting.level] at root
  omega

namespace Engine

/-- Whatever is learnt, the root level keeps its literals. -/
theorem rootedLearn {engine : Engine} {analysis : Analysis} {point : Literal} {rest : List Literal}
    (coherent : engine.network.trail.Coherent) (deep : 0 < engine.level)
    (asserting : Analysis.Asserting engine.network.Fits engine.network.trail point rest analysis)
    {literal : Literal} (rooted : engine.network.trail.Rooted literal) :
    (engine.learn analysis).network.trail.Rooted literal := by
  obtain ⟨reason, trail⟩ := engine.learnTrail asserting.literals
  rw [trail]
  exact (rooted.cancelUntil coherent analysis.returnLevel).enqueue reason
    (Network.assertingNotRooted asserting deep rooted)

/-- The property is about the network and the learnt units, and every operation maintains it. -/
structure Maintains (property : Engine → Prop) : Prop where
  same : ∀ (before : Engine) {after : Engine}, after.network = before.network →
    after.learntUnits = before.learntUnits → property before → property after
  addAtom : ∀ {engine : Engine}, property engine → property engine.addAtom
  attach : ∀ {engine : Engine} (literals : List Literal), property engine →
    property { engine with network := engine.network.attach { literals } }
  impose : ∀ {engine : Engine} (constraint : ParityConstraint), property engine →
    property { engine with network := engine.network.impose constraint }
  flip : ∀ {engine : Engine}, engine.network.Shaped → property engine →
    property { engine with network := flipNetwork engine.network }
  assign : ∀ {engine : Engine} {literal : Literal}, engine.network.Fresh literal →
    property engine → property (engine.enqueue literal none)
  deepen : ∀ {engine : Engine}, property engine → property engine.openLevel
  undo : ∀ {engine : Engine}, engine.network.trail.Coherent → property engine →
    property (engine.cancelUntil 0)
  propagate : ∀ {engine : Engine}, engine.network.Ready → property engine →
    property engine.propagate.2
  reduce : ∀ {engine : Engine}, engine.Tidy → property engine → property engine.reduce
  learn : ∀ {engine : Engine} {analysis : Analysis} {point : Literal} {rest : List Literal},
    engine.network.Stable → 0 < engine.level →
    Analysis.Asserting engine.network.Fits engine.network.trail point rest analysis →
    property engine → property (engine.learn analysis)

/-- A search ends with a trail that is in order, even if it has refuted the constraints. -/
theorem finishedCoherent {models : (Nat → Bool) → Prop} {assumptions : List Literal}
    {base : Engine} {generator : Generator} {budget : Budget} {search : Search}
    (searching : Searching models assumptions base search.engine)
    (registered : search.engine.Registered) (ranked : search.engine.Ranked)
    (inside : ∀ literal ∈ assumptions, literal.atom < base.atomCount) {verdict : Verdict}
    {final : Search} (finished : search.step generator budget assumptions = .finished verdict final) :
    final.engine.network.trail.Coherent := by
  have meets := stepMeets budget generator searching inside
  have tends : (search.step generator budget assumptions).Leads search.engine.Tends ∨
      ∃ final, search.step generator budget assumptions = .finished .unsatisfiable final ∧
        final.engine.Resting ∧
        search.engine.learntUnits.toList <+: final.engine.learntUnits.toList :=
    stepTends searching registered ranked
  rw [finished] at meets tends
  rcases tends with leads | ⟨other, same, resting, -⟩
  · cases meets with
    | satisfiable ended _ _ _ => exact ended.ready.shaped.trail
    | refuted _ inconsistent _ =>
        rw [leads.consistent, searching.consistent] at inconsistent
        contradiction
    | failed ended _ _ => exact ended.ready.shaped.trail
    | unknown ended _ _ _ => exact ended.ready.shaped.trail
  · cases same
    exact resting.shaped.trail

section Maintains

variable {property : Engine → Prop} (maintains : Maintains property)
include maintains

theorem Maintains.proceeds {start after : Engine} (proceeds : Proceeds start after)
    (holds : property start) : property after := by
  induction proceeds with
  | refl => exact holds
  | same _ network units inductionHypothesis =>
      exact maintains.same _ network units inductionHypothesis
  | reduce _ tidy inductionHypothesis => exact maintains.reduce tidy inductionHypothesis
  | deepen _ inductionHypothesis => exact maintains.deepen inductionHypothesis
  | @decide engine literal _ coherent inside unknown inductionHypothesis =>
      have fresh := coherent.fresh inside unknown
      have opened : engine.openLevel.network.Fresh literal := ⟨fresh.inside, fresh.absent⟩
      exact maintains.assign opened (maintains.deepen inductionHypothesis)

theorem Maintains.reacts {start after : Engine} (coherent : start.network.trail.Coherent)
    (reacts : Reacts start after) (holds : property start) : property after := by
  cases reacts with
  | learnt stable deep asserting network units =>
      exact maintains.same _ network units (maintains.learn stable deep asserting holds)
  | restarted network units =>
      exact maintains.same (start.cancelUntil 0) network units
        (maintains.undo coherent holds)
  | proceeds proceeds => exact maintains.proceeds proceeds holds

/-- The end of a search undoes its decisions. -/
theorem Maintains.conclude {engine : Engine} (coherent : engine.network.trail.Coherent)
    (holds : property engine) (verdict : Verdict) : property (engine.conclude verdict) := by
  cases verdict with
  | satisfiable =>
      have answered : property { engine with model := engine.network.trail.values.toArray } :=
        maintains.same engine rfl rfl holds
      exact maintains.undo coherent answered
  | unsatisfiable => exact maintains.undo coherent holds
  | unknown => exact maintains.undo coherent holds

section Search

variable {models : (Nat → Bool) → Prop} {assumptions : List Literal} {base : Engine}
  {generator : Generator} {budget : Budget} {search : Search}
  (searching : Searching models assumptions base search.engine)
  (registered : search.engine.Registered) (ranked : search.engine.Ranked)
  (inside : ∀ literal ∈ assumptions, literal.atom < base.atomCount)
  (holds : property search.engine)
include searching registered ranked inside holds

theorem Maintains.step : (search.step generator budget assumptions).Leads property := by
  have propagated := maintains.propagate searching.ready holds
  have coherent : search.engine.propagate.2.network.trail.Coherent :=
    searching.toSteady.propagate.2.1.shaped.trail
  exact Progress.leadsMono (fun _ reacts => maintains.reacts coherent reacts propagated)
    (stepReacts budget generator searching registered ranked inside)

theorem Maintains.reaches {later : Search}
    (reaches : Reaches generator budget assumptions search later) : property later.engine := by
  induction reaches with
  | refl => exact holds
  | @step first second third next _ inductionHypothesis =>
      have meets := stepMeets budget generator searching inside
      have rests : StepRests first.engine (first.step generator budget assumptions) :=
        stepRests searching registered ranked inside
      have leads : (first.step generator budget assumptions).Leads property :=
        maintains.step searching registered ranked inside holds
      rw [next] at meets rests leads
      exact inductionHypothesis meets rests.1 rests.2.1 leads

theorem Maintains.run (steps : Nat) {verdict : Verdict} {final : Search}
    (ran : Search.run generator budget assumptions steps search = .ok (verdict, final)) :
    property (final.engine.conclude verdict) := by
  induction steps generalizing search with
  | zero => contradiction
  | succ steps inductionHypothesis =>
      have meets := stepMeets budget generator searching inside
      have rests : StepRests search.engine (search.step generator budget assumptions) :=
        stepRests searching registered ranked inside
      have leads : (search.step generator budget assumptions).Leads property :=
        maintains.step searching registered ranked inside holds
      rw [Search.run] at ran
      cases stepped : search.step generator budget assumptions with
      | running next =>
          rw [stepped] at meets rests leads ran
          exact inductionHypothesis meets rests.1 rests.2.1 leads ran
      | stuck =>
          rw [stepped] at ran
          contradiction
      | finished answer ended =>
          rw [stepped] at leads ran
          obtain ⟨rfl, rfl⟩ := Prod.mk.inj (Except.ok.inj ran)
          exact maintains.conclude
            (finishedCoherent searching registered ranked inside stepped) leads answer

end Search

section Requests

variable {models : (Nat → Bool) → Prop} {engine : Engine} {assumptions : List Literal}
  {environment : Environment}

theorem Maintains.searchWith (steady : engine.Steady models) (resting : engine.Resting)
    (inside : ∀ literal ∈ assumptions, literal.atom < engine.atomCount) {budget : Budget}
    (holds : property engine) {result : Verdict × Engine}
    (ended : Engine.searchWith environment budget assumptions engine = .ok result) :
    property result.2 := by
  unfold Engine.searchWith at ended
  cases ran : Search.run environment.generator budget assumptions environment.steps
      (Search.start engine) with
  | error stuck =>
      rw [ran] at ended
      contradiction
  | ok found =>
      rw [ran] at ended
      obtain rfl := Except.ok.inj ended
      have begun : property (Search.start engine).engine :=
        maintains.same engine rfl rfl holds
      exact maintains.run (steady.startSearching resting.root) resting.registered resting.ranked
        inside begun environment.steps ran

theorem Maintains.worker (shaped : engine.network.Shaped) (holds : property engine)
    (index : Nat) : property (engine.worker index) := by
  unfold Engine.worker
  simp only
  split
  · exact maintains.same engine rfl rfl holds
  · split
    · exact maintains.same { engine with network := flipNetwork engine.network } rfl rfl
        (maintains.flip shaped holds)
    · exact maintains.same engine rfl rfl holds

theorem Maintains.runWorkers (steady : engine.Steady models) (resting : engine.Resting)
    (inside : ∀ literal ∈ assumptions, literal.atom < engine.atomCount)
    (holds : property engine) {result : Verdict × Engine}
    (ended : Engine.runWorkers environment assumptions engine = .ok result) :
    property result.2 := by
  have every : ∀ result, Engine.runWorkers environment assumptions engine = .ok result →
      property result.2 := by
    apply runWorkersInduction (motive := fun outcome : Except Stuck (Verdict × Engine) =>
      ∀ result, outcome = .ok result → property result.2)
    intro index result ran
    have employs := steady.employs index
    exact maintains.searchWith employs.steady (steady.tendWorker resting index).resting
      (by rwa [employs.atoms]) (maintains.worker steady.ready.shaped holds index) ran
  exact every result ended

theorem Maintains.prepare (holds : property engine) (assumptions : List Literal) :
    property (engine.prepare assumptions) :=
  ensureAtomsInduction (motive := property) (fun _ => maintains.addAtom) _
    (maintains.same engine rfl rfl holds)

theorem Maintains.solve (valid : engine.Valid models) (resting : engine.Resting)
    (holds : property engine) {result : Verdict × Engine}
    (answered : engine.solve environment assumptions = .ok result) : property result.2 := by
  obtain ⟨rests, -⟩ := resting.prepare assumptions
  have inside := engine.assumedInside assumptions
  have prepared := maintains.prepare holds assumptions
  unfold Engine.solve at answered
  simp only at answered
  split at answered
  · obtain rfl := Except.ok.inj answered
    exact prepared
  · next consistent =>
      obtain ⟨steady, -⟩ := (valid.prepare assumptions).consistentSteady
        (by simpa using consistent)
      split at answered
      · unfold solvePortfolio at answered
        cases ran : Engine.runWorkers environment assumptions (engine.prepare assumptions) with
        | error stuck =>
            rw [ran] at answered
            contradiction
        | ok winner =>
            rw [ran] at answered
            obtain rfl := Except.ok.inj answered
            exact maintains.same winner.2 rfl rfl
              (maintains.runWorkers steady rests inside prepared ran)
      · exact maintains.searchWith steady rests inside prepared answered

theorem Maintains.propagateRoot (ready : engine.network.Ready) (holds : property engine) :
    property engine.propagateRoot := by
  have propagated := maintains.propagate ready holds
  unfold Engine.propagateRoot
  generalize engine.propagate = outcome at propagated
  obtain ⟨conflict, after⟩ := outcome
  cases conflict with
  | none => exact propagated
  | some conflict => exact maintains.same after rfl rfl propagated

/-- A new unit is propagated at once. -/
theorem Maintains.enqueueRoot (steady : engine.Steady models) (root : engine.level = 0)
    {literal : Literal} (inside : literal.atom < engine.atomCount)
    (unknown : engine.network.trail.atomValue literal.atom = none) (holds : property engine) :
    property (engine.enqueue literal none).propagateRoot :=
  maintains.propagateRoot (steady.ready.assignRoot root inside unknown)
    (maintains.assign (steady.ready.shaped.trail.fresh inside unknown) holds)

theorem Maintains.addReduced (steady : engine.Steady models) (root : engine.level = 0)
    {literals reduced : List Literal} (kept : Reduced engine.network.trail literals reduced)
    (inside : ∀ literal ∈ literals, literal.atom < engine.atomCount) (holds : property engine) :
    property (engine.addReduced reduced) := by
  match reduced, kept with
  | [], _ => exact maintains.same engine rfl rfl holds
  | [literal], kept =>
      exact maintains.enqueueRoot steady root
        (inside literal (kept.member literal List.mem_cons_self))
        (kept.unknown literal List.mem_cons_self) holds
  | first :: second :: rest, _ => exact maintains.attach (first :: second :: rest) holds

theorem Maintains.addSubstituted (steady : engine.Steady models) (root : engine.level = 0)
    {parity : Bool} {atoms : List Nat} {constraint : ParityConstraint}
    (substituted : Substituted engine.network.trail parity atoms constraint)
    (inside : ∀ atom ∈ atoms, atom < engine.atomCount) (holds : property engine) :
    property (engine.addSubstituted constraint) := by
  obtain ⟨free, sign⟩ := constraint
  match free, substituted with
  | [], _ =>
      cases sign with
      | true => exact maintains.same engine rfl rfl holds
      | false => exact holds
  | [atom], substituted =>
      exact maintains.enqueueRoot steady root
        (inside atom (substituted.kept.subset List.mem_cons_self))
        (substituted.unknown atom List.mem_cons_self) holds
  | first :: second :: rest, _ => exact maintains.impose ⟨first :: second :: rest, sign⟩ holds

theorem Maintains.submit (valid : engine.Valid models) (atoms : List Nat)
    {absorb : Engine → Engine}
    (step : ∀ before : Engine, before.Steady models → before.level = 0 →
      (∀ atom ∈ atoms, atom < before.atomCount) → property before → property (absorb before))
    (holds : property engine) : property (engine.submit atoms absorb) := by
  have grown : property (engine.ensureAtoms atoms).counted :=
    maintains.same (engine.ensureAtoms atoms) rfl rfl
      (ensureAtomsInduction (motive := property) (fun _ => maintains.addAtom) atoms holds)
  unfold Engine.submit
  simp only
  split
  · next consistent =>
      obtain ⟨steady, root⟩ := (valid.ensureAtoms atoms).consistentSteady consistent
      exact step _ steady.counted root ensureAtomsInside grown
  · exact grown

theorem Maintains.addClause (valid : engine.Valid models) (literals : List Literal)
    (holds : property engine) : property (engine.addClause literals) := by
  rw [addClauseSubmit]
  refine maintains.submit valid _ (fun before steady root inside held => ?_) holds
  split
  · exact held
  · next reduced kept =>
      exact maintains.addReduced steady root (reducedSome steady.ready.shaped.trail kept)
        (fun literal member => inside literal.atom (List.mem_map_of_mem member)) held

theorem Maintains.addParity (valid : engine.Valid models) (atoms : List Nat) (parity : Bool)
    (holds : property engine) : property (engine.addParity atoms parity) := by
  rw [addParitySubmit]
  refine maintains.submit valid _ (fun before steady root inside held => ?_) holds
  exact maintains.addSubstituted steady root (substituteSpec steady.ready.shaped.trail _ _)
    (fun atom member => inside atom (ParityConstraint.memberNormalize member)) held

/-- Every request maintains the property. -/
theorem Maintains.perform {constraints : List Constraint} (faithful : Faithful constraints engine)
    (resting : engine.Resting) (holds : property engine) {request : Request} {reply : Reply}
    {after : Engine} (performed : request.perform engine = .ok (reply, after)) :
    property after := by
  cases request with
  | addAtoms count =>
      obtain ⟨-, rfl⟩ := Prod.mk.inj (Except.ok.inj performed)
      exact addAtomsInduction (motive := property) (fun _ => maintains.addAtom) count holds
  | addClause literals =>
      obtain ⟨-, rfl⟩ := Prod.mk.inj (Except.ok.inj performed)
      exact maintains.addClause faithful.valid literals holds
  | addParity atoms parity =>
      obtain ⟨-, rfl⟩ := Prod.mk.inj (Except.ok.inj performed)
      exact maintains.addParity faithful.valid atoms parity holds
  | setOptions update =>
      obtain ⟨-, rfl⟩ := Prod.mk.inj (Except.ok.inj performed)
      exact maintains.same engine rfl rfl holds
  | solve environment assumptions =>
      rw [Request.perform] at performed
      cases answered : engine.solve environment assumptions with
      | error stuck =>
          rw [answered] at performed
          contradiction
      | ok result =>
          rw [answered] at performed
          obtain ⟨-, rfl⟩ := Prod.mk.inj (Except.ok.inj performed)
          exact maintains.solve faithful.valid resting holds answered
  | openTraversal maximumLength maximumGlue =>
      obtain ⟨-, rfl⟩ := Prod.mk.inj (Except.ok.inj performed)
      exact maintains.same engine rfl rfl holds
  | nextLearnt =>
      obtain ⟨-, rfl⟩ := Prod.mk.inj (Except.ok.inj performed)
      unfold Engine.nextLearnt
      split
      · exact maintains.same engine rfl rfl holds
      · exact holds
  | closeTraversal =>
      obtain ⟨-, rfl⟩ := Prod.mk.inj (Except.ok.inj performed)
      exact maintains.same engine rfl rfl holds

theorem Maintains.requests {constraints : List Constraint} (requests : List Request)
    (faithful : Faithful constraints engine) (resting : engine.Resting) (holds : property engine)
    {after : Engine} (ran : Engine.run requests engine = .ok after) : property after := by
  induction requests generalizing constraints engine with
  | nil =>
      obtain rfl := Except.ok.inj ran
      exact holds
  | cons request rest inductionHypothesis =>
      rw [Engine.run] at ran
      cases performed : request.perform engine with
      | error stuck =>
          rw [performed] at ran
          contradiction
      | ok result =>
          obtain ⟨reply, middle⟩ := result
          rw [performed] at ran
          exact inductionHypothesis (faithful.perform performed).faithful
            (faithful.tend resting performed).resting
            (maintains.perform faithful resting holds performed) ran

/-- The property holds at every moment of an engine that has it between two calls. -/
theorem Maintains.visits {constraints : List Constraint} (faithful : Faithful constraints engine)
    (resting : engine.Resting) (holds : property engine) {moment : Engine}
    (visits : engine.Visits moment) : property moment := by
  have valid := faithful.valid
  have searched {assumptions : List Literal} {worker : Engine} {generator : Generator}
      {budget : Budget} {search : Search}
      (consistent : (engine.prepare assumptions).consistent = true)
      (employed : engine.Employed assumptions worker)
      (reaches : Reaches generator budget assumptions (.start worker) search) :
      property search.engine := by
    obtain ⟨steady, root, -, inside⟩ := valid.employed consistent employed
    have rests := (resting.prepare assumptions).resting
    have prepared := maintains.prepare holds assumptions
    have begun : worker.Resting ∧ property worker := by
      rcases employed with rfl | ⟨index, rfl⟩
      · exact ⟨rests, prepared⟩
      · have engaged := (valid.prepare assumptions).consistentSteady consistent
        exact ⟨(engaged.1.tendWorker rests index).resting,
          maintains.worker engaged.1.ready.shaped prepared index⟩
    exact maintains.reaches (steady.startSearching root) begun.1.registered begun.1.ranked inside
      (maintains.same worker rfl rfl begun.2) reaches
  cases visits with
  | rest => exact holds
  | step consistent employed reaches => exact searched consistent employed reaches
  | propagated consistent employed reaches =>
      exact maintains.propagate (valid.searching consistent employed reaches).ready
        (searched consistent employed reaches)

end Requests

end Maintains

end Engine

end ParitySat
