/-
This file shows that an engine finds its last model again as long as everything that is added or
assumed holds in that model.
-/

import ParitySat.Proofs.Engine.Guidance

namespace ParitySat

namespace Engine

/-- The engine would find the model again: its phases lead there, and nothing excludes it. -/
structure Recalls (engine : Engine) (assignment : Nat → Bool) : Prop where
  steady : ∃ models, engine.Steady models ∧ models assignment
  root : engine.level = 0
  favors : engine.network.trail.Favors assignment

/-- The trail has been prolonged without a search. -/
structure Continues (before after : Engine) : Prop where
  trail : before.network.trail.Prolongs after.network.trail
  statistics : after.statistics = before.statistics

theorem Continues.refl (engine : Engine) : engine.Continues engine :=
  ⟨.refl _, rfl⟩

theorem Continues.trans {first second third : Engine} (left : first.Continues second)
    (right : second.Continues third) : first.Continues third :=
  ⟨left.trail.trans right.trail, right.statistics.trans left.statistics⟩

/-- A model of whatever an engine at the root level continues to is still recalled. -/
theorem Recalls.carry {before after : Engine} {assignment : Nat → Bool}
    (recalls : before.Recalls assignment) (continues : before.Continues after)
    {models : (Nat → Bool) → Prop} (valid : after.Valid models) (model : models assignment) :
    after.Recalls assignment := by
  cases valid with
  | refuted _ unsatisfiable => exact absurd model (unsatisfiable assignment)
  | steady steady root =>
      exact ⟨⟨models, steady, model⟩, root,
        recalls.favors.prolong continues.trail (steady.rootHolds root model)⟩

section Submission

variable {models : (Nat → Bool) → Prop} {engine : Engine}

/-- Atoms that exist are not created. -/
theorem ensureAtomsSame {atoms : List Nat} (inside : ∀ atom ∈ atoms, atom < engine.atomCount) :
    engine.ensureAtoms atoms = engine := by
  unfold ensureAtoms
  induction atoms with
  | nil => rfl
  | cons atom rest inductionHypothesis =>
      have existing : atom + 1 - engine.atomCount = 0 :=
        Nat.sub_eq_zero_of_le (inside atom List.mem_cons_self)
      rw [List.foldl_cons, ensureAtom, existing]
      exact inductionHypothesis fun other member => inside other (List.mem_cons_of_mem _ member)

theorem continuesPropagateRoot (ready : engine.network.Ready) :
    engine.Continues engine.propagateRoot := by
  have prolongs := (Network.propagateSpec ready).1.propagates.prolongs
  have continues : engine.Continues engine.propagate.2 := ⟨prolongs, rfl⟩
  unfold propagateRoot
  generalize engine.propagate = propagated at *
  obtain ⟨outcome, after⟩ := propagated
  cases outcome with
  | none => exact continues
  | some conflict => exact ⟨continues.trail, continues.statistics⟩

section Root

variable (steady : engine.Steady models)
include steady

/-- A submission over existing atoms only does what its constraint asks for. -/
theorem Steady.continuesSubmit {atoms : List Nat} (inside : ∀ atom ∈ atoms, atom < engine.atomCount)
    {absorb : Engine → Engine} (absorbs : engine.counted.Continues (absorb engine.counted)) :
    engine.Continues (engine.submit atoms absorb) := by
  have counted : engine.Continues engine.counted := ⟨.refl _, rfl⟩
  have consistent : engine.counted.consistent = true := steady.consistent
  rw [submit, ensureAtomsSame inside]
  simp only [consistent, if_true]
  exact counted.trans absorbs

variable (root : engine.level = 0)
include root

theorem Steady.continuesEnqueue {literal : Literal} (inside : literal.atom < engine.atomCount)
    (unknown : engine.network.trail.atomValue literal.atom = none) :
    engine.Continues (engine.enqueue literal none).propagateRoot := by
  have enqueued : engine.Continues (engine.enqueue literal none) :=
    ⟨Trail.prolongsEnqueue _ literal none, rfl⟩
  exact enqueued.trans (continuesPropagateRoot (steady.ready.assignRoot root inside unknown))

theorem Steady.continuesReduced {literals reduced : List Literal}
    (kept : Reduced engine.network.trail literals reduced)
    (inside : ∀ literal ∈ literals, literal.atom < engine.atomCount) :
    engine.Continues (engine.addReduced reduced) := by
  match reduced, kept with
  | [], _ => exact ⟨.refl _, rfl⟩
  | [literal], kept =>
      exact steady.continuesEnqueue root
        (inside literal (kept.member literal List.mem_cons_self))
        (kept.unknown literal List.mem_cons_self)
  | _ :: _ :: _, _ => exact ⟨.refl _, rfl⟩

theorem Steady.continuesSubstituted {parity : Bool} {atoms : List Nat}
    {constraint : ParityConstraint}
    (substituted : Substituted engine.network.trail parity atoms constraint)
    (inside : ∀ atom ∈ atoms, atom < engine.atomCount) :
    engine.Continues (engine.addSubstituted constraint) := by
  obtain ⟨free, sign⟩ := constraint
  match free, substituted with
  | [], _ => cases sign <;> exact ⟨.refl _, rfl⟩
  | [atom], substituted =>
      exact steady.continuesEnqueue root
        (inside atom (substituted.kept.subset List.mem_cons_self))
        (substituted.unknown atom List.mem_cons_self)
  | _ :: _ :: _, _ => exact ⟨.refl _, rfl⟩

theorem Steady.continuesClause {literals : List Literal}
    (inside : ∀ literal ∈ literals, literal.atom < engine.atomCount) :
    engine.Continues (engine.addClause literals) := by
  rw [addClauseSubmit]
  refine steady.continuesSubmit (List.forall_mem_map.2 inside) ?_
  cases kept : reduced? engine.counted.network.trail literals with
  | none => exact .refl _
  | some reduced =>
      exact steady.counted.continuesReduced root
        (reducedSome steady.ready.shaped.trail kept) inside

theorem Steady.continuesParity {atoms : List Nat} (parity : Bool)
    (inside : ∀ atom ∈ atoms, atom < engine.atomCount) :
    engine.Continues (engine.addParity atoms parity) := by
  rw [addParitySubmit]
  refine steady.continuesSubmit inside (steady.counted.continuesSubstituted root
    (substituteSpec steady.ready.shaped.trail parity _) fun atom member => ?_)
  exact inside atom (ParityConstraint.memberNormalize member)

end Root

end Submission

/-- The request adds no atoms, it does not solve, and its constraints hold in the model. -/
def Request.Respects (atomCount : Nat) (assignment : Nat → Bool) : Request → Prop
  | .addAtoms _ => False
  | .solve _ _ => False
  | request => ∀ constraint ∈ request.constraints,
      (∀ atom ∈ constraint.atoms, atom < atomCount) ∧ constraint.holds assignment = true

section Requests

variable {engine : Engine} {assignment : Nat → Bool} (recalls : engine.Recalls assignment)
include recalls

/-- Settings and traversals do not touch the network. -/
theorem Recalls.keepNetwork (options : Options) (traversal : Option (List (List Literal))) :
    Recalls { engine with options, traversal } assignment := by
  obtain ⟨⟨models, steady, model⟩, root, favors⟩ := recalls
  exact ⟨⟨models, ⟨steady.toSane.same rfl rfl rfl rfl rfl rfl, steady.ready⟩, model⟩, root, favors⟩

theorem Recalls.perform {request : Request}
    (respects : request.Respects engine.atomCount assignment) :
    ∃ reply after, request.perform engine = .ok (reply, after) ∧ after.Recalls assignment ∧
      engine.Continues after := by
  obtain ⟨models, steady, model⟩ := recalls.steady
  have root := recalls.root
  cases request with
  | addAtoms count => exact respects.elim
  | solve environment assumptions => exact respects.elim
  | addClause literals =>
      obtain ⟨inside, holds⟩ := respects _ List.mem_cons_self
      have continues := steady.continuesClause root (List.forall_mem_map.1 inside)
      exact ⟨_, _, rfl, recalls.carry continues
        (Valid.addClause (.steady steady root) literals).valid ⟨model, holds⟩, continues⟩
  | addParity atoms parity =>
      obtain ⟨inside, holds⟩ := respects _ List.mem_cons_self
      have continues := steady.continuesParity root parity inside
      exact ⟨_, _, rfl, recalls.carry continues
        (Valid.addParity (.steady steady root) atoms parity).valid ⟨model, holds⟩, continues⟩
  | setOptions update =>
      exact ⟨_, _, rfl, recalls.keepNetwork (update engine.options) engine.traversal, .refl _, rfl⟩
  | openTraversal maximumLength maximumGlue =>
      exact ⟨_, _, rfl, recalls.keepNetwork engine.options _, .refl _, rfl⟩
  | nextLearnt =>
      refine ⟨_, _, rfl, ?_⟩
      unfold nextLearnt
      split <;> exact ⟨recalls.keepNetwork engine.options _, .refl _, rfl⟩
  | closeTraversal =>
      exact ⟨_, _, rfl, recalls.keepNetwork engine.options none, .refl _, rfl⟩

/-- Any number of such requests are served, and the model is still recalled after them. -/
theorem Recalls.run {requests : List Request}
    (respect : ∀ request ∈ requests, request.Respects engine.atomCount assignment) :
    ∃ after, Engine.run requests engine = .ok after ∧ after.Recalls assignment ∧
      engine.Continues after := by
  induction requests generalizing engine with
  | nil => exact ⟨engine, rfl, recalls, .refl engine⟩
  | cons request rest inductionHypothesis =>
      obtain ⟨reply, next, performed, recalled, continues⟩ :=
        recalls.perform (respect request List.mem_cons_self)
      have atoms : next.atomCount = engine.atomCount := continues.trail.size
      obtain ⟨after, ran, last, further⟩ := inductionHypothesis recalled fun other member => by
        rw [atoms]
        exact respect other (List.mem_cons_of_mem _ member)
      refine ⟨after, ?_, last, continues.trans further⟩
      rw [Engine.run, performed]
      exact ran

end Requests

/-- A single search without a deadline, with room for a conflict in its first run and within its
limit. -/
structure Unhurried (engine : Engine) : Prop where
  threads : engine.options.threads ≤ 1
  initial : 1 ≤ engine.options.restartInitial
  time : ∀ limit ∈ engine.options.maximumTime, Budget.clockRange ≤ limit
  conflicts : ∀ limit ∈ engine.options.maximumConflicts,
    1 ≤ limit ∧ engine.statistics.conflicts < Budget.counterBound

/-- Without a conflict such a search may poll its budget as often as it likes. -/
theorem Unhurried.endless {engine : Engine} (unhurried : engine.Unhurried)
    (environment : Environment) (poll : Nat) :
    (engine.ownBudget environment).exhausted engine.statistics.conflicts poll = false := by
  have deadline : engine.options.maximumTime.filter (· < Budget.clockRange) = none := by
    rw [Option.filter_eq_none_iff]
    intro limit given
    simpa using unhurried.time limit given
  have conflicts : (engine.options.maximumConflicts.map fun limit =>
      min (engine.statistics.conflicts + limit) Budget.counterBound).any
        (· ≤ engine.statistics.conflicts) = false := by
    cases given : engine.options.maximumConflicts with
    | none => rfl
    | some limit =>
        obtain ⟨positive, room⟩ := unhurried.conflicts limit given
        simp only [Option.map_some, Option.any_some, decide_eq_false_iff_not]
        omega
  simp only [ownBudget, Budget.ofOptions, Budget.exhausted, deadline, conflicts, Option.any_none,
    Bool.or_false]

section Solve

variable {models : (Nat → Bool) → Prop} {engine : Engine} {assumptions : List Literal}
  {environment : Environment}

/-- A search that ends with a model has left no atom without a value. -/
theorem Steady.completed (steady : engine.Steady models) (root : engine.level = 0)
    (inside : ∀ literal ∈ assumptions, literal.atom < engine.atomCount) {generator : Generator}
    {budget : Budget} {steps : Nat} {final : Search}
    (ran : Search.run generator budget assumptions steps (.start engine) =
      .ok (.satisfiable, final)) :
    Searching models assumptions engine final.engine ∧ final.engine.network.trail.Total ∧
      models final.engine.network.trail.assignment := by
  have answers : Ends (fun result => Answers models assumptions budget engine result.2.engine
      result.1) (Search.run generator budget assumptions steps (.start engine)) :=
    runAnswers (steady.startSearching root) inside steps
  rw [ran] at answers
  cases answers with
  | satisfiable searching total model => exact ⟨searching, total, model⟩

/-- A complete search leaves its model behind in the phases. -/
theorem Searching.recalls {base : Engine}
    (searching : Searching models assumptions base engine)
    (total : engine.network.trail.Total) (model : models engine.network.trail.assignment) :
    (engine.conclude .satisfiable).Recalls (engine.conclude .satisfiable).modelAssignment := by
  obtain ⟨valid, -⟩ := searching.conclude engine.network.trail.values.toArray
  obtain ⟨steady, root⟩ := valid.consistentSteady searching.consistent
  have same : (engine.conclude .satisfiable).modelAssignment =
      engine.network.trail.assignment := (modelledValues total).2
  rw [same]
  exact ⟨⟨models, steady, model⟩, root,
    (total.favors searching.ready.shaped.trail).cancelUntil 0⟩

/-- After a satisfiable verdict the engine recalls its model. -/
theorem Valid.recalls (valid : engine.Valid models) (single : engine.options.threads ≤ 1)
    {after : Engine} (answered : engine.solve environment assumptions = .ok (.satisfiable, after)) :
    after.Recalls after.modelAssignment := by
  cases consistent : (engine.prepare assumptions).consistent with
  | false => simp [solveRefuted consistent] at answered
  | true =>
      obtain ⟨steady, root, -, inside⟩ := valid.employed consistent (.inl rfl)
      rw [solveSingle consistent single, searchWith] at answered
      cases ran : Search.run environment.generator
          ((engine.prepare assumptions).ownBudget environment) assumptions environment.steps
          (.start (engine.prepare assumptions)) with
      | error stuck => simp [ran] at answered
      | ok result =>
          obtain ⟨verdict, final⟩ := result
          simp only [ran, Except.ok.injEq, Prod.mk.injEq] at answered
          obtain ⟨rfl, rfl⟩ := answered
          obtain ⟨searching, total, model⟩ := steady.completed root inside ran
          exact searching.recalls total model

/-- The model has been found without a conflict or a restart. -/
structure Refound (engine : Engine) (assignment : Nat → Bool) (final : Engine) : Prop where
  modelled : final.Modelled
  atoms : final.atomCount = engine.atomCount
  values : ∀ atom < engine.atomCount, final.modelAssignment atom = assignment atom
  conflicts : final.statistics.conflicts = engine.statistics.conflicts
  restarts : final.statistics.restarts = engine.statistics.restarts

variable {assignment : Nat → Bool} (recalls : engine.Recalls assignment)
  (inside : ∀ literal ∈ assumptions, literal.atom < engine.atomCount)
include recalls inside

/-- A search goes straight to the model that is recalled. -/
theorem Recalls.search (unhurried : engine.Unhurried)
    (enough : engine.atomCount < environment.steps)
    (assumed : ∀ literal ∈ assumptions, literal.holds assignment = true) :
    ∃ final, searchWith environment (engine.ownBudget environment) assumptions engine =
      .ok (.satisfiable, final) ∧ Refound engine assignment final := by
  obtain ⟨models, steady, model⟩ := recalls.steady
  have unhindered : Unhindered (engine.ownBudget environment) (.start engine) :=
    ⟨allowancePositive unhurried.initial (show Luby.exponent 0 = 0 from rfl),
      unhurried.endless environment⟩
  obtain ⟨final, ran, nears⟩ := runApproaches environment.generator inside model assumed
    environment.steps (steady.startSearching recalls.root) recalls.favors unhindered
    (Nat.lt_of_lt_of_le enough (Nat.le_add_left _ _))
  obtain ⟨searching, total, -⟩ := steady.completed recalls.root inside ran
  obtain ⟨modelled, same⟩ := modelledValues total
  have atoms : final.engine.atomCount = engine.atomCount := searching.keeps.atoms
  refine ⟨final.engine.conclude .satisfiable, by rw [searchWith, ran], modelled,
    Network.atomCountBacktrack.trans atoms, fun atom existing => ?_, nears.conflicts,
    nears.restarts⟩
  rw [← atoms] at existing
  exact (congrFun same atom).trans
    (total.agrees searching.ready.shaped.trail nears.favors.holds existing)

/-- A call under assumptions that hold in the model finds it again. -/
theorem Recalls.solve (unhurried : engine.Unhurried)
    (enough : engine.atomCount < environment.steps)
    (assumed : ∀ literal ∈ assumptions, literal.holds assignment = true) :
    ∃ final, engine.solve environment assumptions = .ok (.satisfiable, final) ∧
      Refound engine assignment final := by
  obtain ⟨models, steady, model⟩ := recalls.steady
  have prepared : engine.prepare assumptions = { engine with
      statistics := { engine.statistics with solves := engine.statistics.solves + 1 }
      model := #[] } := ensureAtomsSame (List.forall_mem_map.2 inside)
  have consistent : (engine.prepare assumptions).consistent = true := by
    rw [prepared]
    exact steady.consistent
  rw [solveSingle consistent unhurried.threads, prepared]
  have begun : Recalls { engine with
      statistics := { engine.statistics with solves := engine.statistics.solves + 1 }
      model := #[] } assignment :=
    ⟨⟨models, ⟨steady.toSane.same rfl rfl rfl rfl rfl rfl, steady.ready⟩, model⟩, recalls.root,
      recalls.favors⟩
  obtain ⟨final, found, refound⟩ := begun.search inside
    ⟨unhurried.threads, unhurried.initial, unhurried.time, unhurried.conflicts⟩ enough assumed
  exact ⟨final, found, refound.modelled, refound.atoms, refound.values, refound.conflicts,
    refound.restarts⟩

end Solve

/-- Two models without gaps are the same if their assignments are. -/
theorem Modelled.unique {first second : Engine} (one : first.Modelled) (other : second.Modelled)
    (atoms : second.atomCount = first.atomCount)
    (same : ∀ atom < first.atomCount, second.modelAssignment atom = first.modelAssignment atom) :
    second.model = first.model := by
  rw [← Array.toList_inj, one.values, other.values, atoms]
  refine List.map_congr_left fun atom listed => ?_
  rw [same atom (List.mem_range.1 listed)]

/-- As long as everything that is added and assumed holds in the last model, a single search finds
this model again, in whatever order the atoms wait and whatever is drawn at random.

It counts no conflict and no restart, and it takes at most one step for each atom and another one
to end. -/
theorem modelStable {options : Options} {requests : List Request} {engine : Engine}
    (reached : run requests (ofOptions options) = .ok engine)
    (single : engine.options.threads ≤ 1) {earlier : Environment} {before : List Literal}
    {after : Engine} (answered : engine.solve earlier before = .ok (.satisfiable, after))
    {added : List Request}
    (respect : ∀ request ∈ added, request.Respects after.atomCount after.modelAssignment) :
    ∃ next, run added after = .ok next ∧ next.network.trail.Queued next.order ∧
      ∀ (order : DecisionOrder) (random : RandomStream), next.network.trail.Queued order →
        ∀ (environment : Environment) (assumptions : List Literal), next.Unhurried →
          after.atomCount < environment.steps →
          (∀ literal ∈ assumptions, literal.atom < after.atomCount ∧
            literal.holds after.modelAssignment = true) →
          ∃ final, { next with order, random }.solve environment assumptions =
              .ok (.satisfiable, final) ∧
            final.model = after.model ∧
            final.statistics.conflicts = after.statistics.conflicts ∧
            final.statistics.restarts = after.statistics.restarts := by
  have valid := (reachedFaithful reached).valid
  have solved := valid.solve earlier before
  rw [answered] at solved
  obtain ⟨next, ran, recalls, continues⟩ := (valid.recalls single answered).run respect
  obtain ⟨models, steady, model⟩ := recalls.steady
  have atoms : next.atomCount = after.atomCount := continues.trail.size
  refine ⟨next, ran, steady.queued,
    fun order random queued environment assumptions unhurried enough holds => ?_⟩
  have shuffled : Recalls { next with order, random } after.modelAssignment :=
    ⟨⟨models, ⟨(steady.toSane.reorder queued).same rfl rfl rfl rfl rfl rfl, steady.ready⟩, model⟩,
      recalls.root, recalls.favors⟩
  rw [← atoms] at enough holds
  obtain ⟨final, found, refound⟩ := shuffled.solve (fun literal member => (holds literal member).1)
    ⟨unhurried.threads, unhurried.initial, unhurried.time, unhurried.conflicts⟩ enough
    fun literal member => (holds literal member).2
  refine ⟨final, found, solved.decides.1.unique refound.modelled (refound.atoms.trans atoms) ?_,
    refound.conflicts.trans (congrArg Statistics.conflicts continues.statistics),
    refound.restarts.trans (congrArg Statistics.restarts continues.statistics)⟩
  rw [← atoms]
  exact refound.values

/-- These constraints hold in the model of the mixed requests, and one conflict is allowed. -/
def friendlyRequests : List Request :=
  [.addClause [⟨0, true⟩, ⟨2, true⟩], .addParity [1, 3] false,
    .setOptions fun options => { options with maximumConflicts := some 1 }]

/-- With other assumptions the engine repeats its model. -/
theorem modelStableMixed :
    ∃ engine after next final, run mixedRequests (ofOptions {}) = .ok engine ∧
      engine.solve stillEnvironment [⟨2, false⟩] = .ok (.satisfiable, after) ∧
      run friendlyRequests after = .ok next ∧ next.options.maximumConflicts = some 1 ∧
      next.solve stillEnvironment [⟨3, false⟩] = .ok (.satisfiable, final) ∧
      final.model = after.model ∧ final.model = #[some false, some true, some true, some true] := by
  obtain ⟨engine, reached, facts⟩ := reachedObserved
    (show (run mixedRequests (ofOptions {})).toOption.map (fun engine =>
      (engine.solve stillEnvironment [⟨2, false⟩]).toOption.any fun answer =>
        answer.1 = .satisfiable && engine.options.threads ≤ 1 && answer.2.atomCount = 4 &&
          answer.2.model = #[some false, some true, some true, some true] &&
          (run friendlyRequests answer.2).toOption.any fun next =>
            next.options.threads ≤ 1 && 1 ≤ next.options.restartInitial &&
              next.options.maximumTime = none && next.options.maximumConflicts = some 1 &&
              next.statistics.conflicts < Budget.counterBound) = some true by
      decide +kernel)
  cases answered : engine.solve stillEnvironment [⟨2, false⟩] with
  | error stuck =>
      simp [answered, Except.toOption] at facts
  | ok result =>
      obtain ⟨verdict, after⟩ := result
      simp only [answered, Except.toOption, Option.any_some, Bool.and_eq_true,
        decide_eq_true_eq] at facts
      obtain ⟨⟨⟨⟨rfl, single⟩, atoms⟩, model⟩, later⟩ := facts
      have assignment : after.modelAssignment = Truth.total fun atom =>
          #[some false, some true, some true, some true].getD atom none := by
        rw [modelAssignment, model]
      have respect : ∀ request ∈ friendlyRequests,
          request.Respects after.atomCount after.modelAssignment := by
        rw [atoms, assignment]
        simp only [friendlyRequests, List.forall_mem_cons, Request.Respects, Request.constraints]
        exact ⟨by decide, by decide, by decide, by simp⟩
      obtain ⟨next, ran, queued, stable⟩ := modelStable reached single answered respect
      simp only [ran, Option.any_some, Bool.and_eq_true, decide_eq_true_eq] at later
      obtain ⟨⟨⟨⟨threads, initial⟩, time⟩, conflicts⟩, room⟩ := later
      have unhurried : next.Unhurried :=
        ⟨threads, initial, by simp [time], by simp [conflicts, room]⟩
      obtain ⟨final, found, same, -, -⟩ := stable next.order next.random queued
        stillEnvironment [⟨3, false⟩] unhurried (by rw [atoms]; decide)
        (by rw [atoms, assignment]; decide)
      exact ⟨engine, after, next, final, reached, answered, ran, conflicts, found, same,
        same.trans model⟩

end Engine

end ParitySat
