/-
This file shows that a portfolio answers rightly whichever worker wins, and that it leaves behind
what a single search would leave.
-/

import ParitySat.Proofs.Engine.Independence
import ParitySat.Proofs.Engine.Representation

namespace ParitySat

namespace Engine

open Constraint

/-- This function lets a worker take the place of the engine that has employed it. -/
def install (engine winner : Engine) : Engine :=
  { winner with
    options := engine.options
    traversal := engine.traversal
    statistics := { winner.statistics with solves := engine.statistics.solves } }

/-- This function forbids the engine to employ several workers. -/
def alone (engine : Engine) : Engine :=
  { engine with options := { engine.options with threads := 1 } }

/-- A worker is only told to stop if another worker has a verdict. -/
def Honest (environment : Environment) (assumptions : List Literal) (engine : Engine) : Prop :=
  ∀ index poll, environment.signal index = some poll →
    ∃ other < workerCount environment engine.options, other ≠ index ∧
      ∃ result, runWorker environment assumptions engine other = .ok result ∧
        result.1 ≠ .unknown

section Workers

variable {environment : Environment} {assumptions : List Literal} {engine : Engine}

theorem solvePortfolioEq : engine.solvePortfolio environment assumptions =
    (engine.runWorkers environment assumptions).map (Prod.map id engine.install) := by
  unfold solvePortfolio
  cases engine.runWorkers environment assumptions <;> rfl

theorem raceWinner {run : Nat → Except Stuck (Verdict × Engine)} {first result : Verdict × Engine}
    {rest : List Nat} (raced : race run first rest = .ok result) :
    result = first ∨ ∃ index ∈ rest, run index = .ok result := by
  induction rest with
  | nil => exact Or.inl (Except.ok.inj raced).symm
  | cons index rest inductionHypothesis =>
      rw [race] at raced
      split at raced
      · contradiction
      · rcases inductionHypothesis raced with same | ⟨later, member, won⟩
        · exact Or.inl same
        · exact Or.inr ⟨later, List.mem_cons_of_mem _ member, won⟩
      · next won =>
          exact Or.inr ⟨index, List.mem_cons_self, won.trans raced⟩

/-- The answer of a portfolio is the answer of one of its workers. -/
theorem runWorkersWinner {result : Verdict × Engine}
    (ran : engine.runWorkers environment assumptions = .ok result) :
    ∃ index < workerCount environment engine.options,
      runWorker environment assumptions engine index = .ok result := by
  have several : 0 < workerCount environment engine.options := Nat.le_max_left _ _
  unfold runWorkers at ran
  simp only at ran
  split at ran
  · contradiction
  · next first ended =>
      rcases raceWinner ran with rfl | ⟨index, member, won⟩
      · exact ⟨0, several, ended⟩
      · exact ⟨index, List.mem_range.1 (List.mem_of_mem_drop member), won⟩
  · next won => exact ⟨0, several, won.trans ran⟩

/-- Without other workers there is nobody to wait for. -/
theorem runWorkersLone (lone : workerCount environment engine.options = 1) :
    engine.runWorkers environment assumptions = runWorker environment assumptions engine 0 := by
  unfold runWorkers
  simp only [lone]
  split
  · next failed => exact failed.symm
  · next ended => exact ended.symm
  · next won => exact won.symm

theorem Honest.lone (honest : Honest environment assumptions engine)
    (lone : workerCount environment engine.options = 1) : environment.signal 0 = none := by
  cases signalled : environment.signal 0 with
  | none => rfl
  | some poll =>
      obtain ⟨other, below, different, -⟩ := honest 0 poll signalled
      omega

end Workers

section Prepare

/-- The preparation counts the call and leaves the other labels. -/
theorem prepareLabels (engine : Engine) (assumptions : List Literal) :
    (engine.prepare assumptions).labels =
      { engine.labels with solves := engine.statistics.solves + 1 } := by
  unfold prepare
  apply ensureAtomsInduction (motive := fun grown : Engine => grown.labels =
    { engine.labels with solves := engine.statistics.solves + 1 })
  · exact fun _ same => same
  · rfl

/-- The preparation does not look at the number of threads. -/
theorem prepareAlone (engine : Engine) (assumptions : List Literal) :
    engine.alone.prepare assumptions = (engine.prepare assumptions).alone := by
  have prepared : engine.alone.prepare assumptions = (engine.prepare assumptions).relabel
      { engine.labels with threads := 1, solves := engine.statistics.solves + 1 } := by
    unfold prepare
    rw [← ensureAtomsCommute (relabel _) (fun _ => rfl) fun _ => rfl]
    rfl
  have alone : (engine.prepare assumptions).alone = (engine.prepare assumptions).relabel
      { (engine.prepare assumptions).labels with threads := 1 } := rfl
  rw [prepared, alone, prepareLabels]

end Prepare

/-- What a solver call leaves behind, whoever has answered it. -/
structure Answered (constraints : List Constraint) (assumptions : List Literal) (before : Engine)
    (result : Verdict × Engine) : Prop where
  decides : Decides (Models constraints) assumptions result.2 result.1
  options : result.2.options = before.options
  solves : result.2.statistics.solves = before.statistics.solves + 1
  traversal : result.2.traversal = before.traversal
  atoms : result.2.atomCount = grownCount (assumptions.map Literal.atom) before.atomCount
  clauses : result.2.clauseCount = before.clauseCount
  represents : ∀ assignment, result.2.Represents assignment ↔ before.Represents assignment

section Answered

variable {constraints : List Constraint} {engine : Engine} {environment : Environment}
  {assumptions : List Literal} {result : Verdict × Engine}

/-- Every call is counted, and the workers count none. -/
theorem solveCounts (answered : engine.solve environment assumptions = .ok result) :
    result.2.statistics.solves = engine.statistics.solves + 1 := by
  have prepared : (engine.prepare assumptions).statistics.solves = engine.statistics.solves + 1 :=
    congrArg Labels.solves (prepareLabels engine assumptions)
  unfold solve at answered
  simp only at answered
  split at answered
  · obtain rfl := Except.ok.inj answered
    exact prepared
  · split at answered
    · rw [solvePortfolioEq] at answered
      cases ran : (engine.prepare assumptions).runWorkers environment assumptions with
      | error stuck =>
          rw [ran] at answered
          contradiction
      | ok winner =>
          rw [ran] at answered
          obtain rfl := Except.ok.inj answered
          exact prepared
    · exact (congrArg Labels.solves (searchWithLabels answered)).trans prepared

/-- A call leaves the same constraints, and nothing else that the caller could see changes. -/
theorem Faithful.answered (faithful : Faithful constraints engine)
    (answered : engine.solve environment assumptions = .ok result) :
    Answered constraints assumptions engine result := by
  have solved := faithful.valid.solve environment assumptions
  rw [answered] at solved
  exact
    { decides := solved.decides
      options := solved.options
      solves := solveCounts answered
      traversal := solved.traversal
      atoms := solved.count
      clauses := solved.submitted
      represents := fun assignment => (solved.valid.represents assignment).symm.trans
        (faithful.valid.represents assignment) }

/-- Any worker could take the place of the engine. -/
theorem Faithful.installed (faithful : Faithful constraints engine)
    (consistent : engine.consistent = true) {index : Nat}
    (ran : runWorker environment assumptions (engine.prepare assumptions) index = .ok result) :
    Answered constraints assumptions engine
      (result.1, (engine.prepare assumptions).install result.2) := by
  have grows := prepareGrows engine assumptions
  obtain ⟨steady, root⟩ :=
    (faithful.valid.prepare assumptions).consistentSteady (grows.consistent.trans consistent)
  have won := runWorkerWon environment steady root
    (engine.assumedInside assumptions) index
  rw [ran] at won
  have valid : Valid (Models constraints) ((engine.prepare assumptions).install result.2) :=
    won.valid.same rfl rfl rfl rfl rfl rfl
  exact
    { decides := by
        obtain ⟨verdict, winner⟩ := result
        cases verdict <;> exact won.decides
      options := grows.options
      solves := congrArg Labels.solves (prepareLabels engine assumptions)
      traversal := grows.traversal
      atoms := won.atoms.trans (atomCountEnsureAtoms _ _)
      clauses := won.submitted.trans grows.submitted
      represents := fun assignment => (valid.represents assignment).symm.trans
        (faithful.valid.represents assignment) }

/-- Two workers never contradict each other. -/
theorem Answered.agree {other : Verdict × Engine}
    (first : Answered constraints assumptions engine result)
    (second : Answered constraints assumptions engine other)
    (satisfiable : result.1 = .satisfiable) : other.1 ≠ .unsatisfiable := by
  intro unsatisfiable
  have found := first.decides
  have excluded := second.decides
  rw [satisfiable] at found
  rw [unsatisfiable] at excluded
  obtain ⟨-, model, assumed⟩ := found
  obtain ⟨literal, member, isFalse⟩ := excluded.1 _ model
  rw [assumed literal member] at isFalse
  contradiction

/-- The answer of several workers is that of one of them. -/
theorem solveWinner (consistent : engine.consistent = true) (several : 1 < engine.options.threads)
    (answered : engine.solve environment assumptions = .ok result) :
    ∃ index < workerCount environment engine.options, ∃ winner,
      runWorker environment assumptions (engine.prepare assumptions) index =
          .ok (result.1, winner) ∧
        result.2 = (engine.prepare assumptions).install winner := by
  have grows := prepareGrows engine assumptions
  rw [solve] at answered
  simp only [grows.consistent, consistent, grows.options, several, Bool.not_true,
    Bool.false_eq_true, if_false, if_true, solvePortfolioEq] at answered
  cases ran : (engine.prepare assumptions).runWorkers environment assumptions with
  | error stuck =>
      rw [ran] at answered
      contradiction
  | ok winner =>
      rw [ran] at answered
      obtain rfl := Except.ok.inj answered
      obtain ⟨index, below, won⟩ := runWorkersWinner ran
      rw [grows.options] at below
      exact ⟨index, below, winner.2, won, rfl⟩

/-- This function is the search of an engine that employs nobody. -/
def ownSearch (environment : Environment) (assumptions : List Literal) (engine : Engine) :
    Except Stuck (Verdict × Engine) :=
  searchWith environment
    (.ofOptions engine.options engine.statistics.conflicts (environment.clock 0) none)
    assumptions engine

/-- The number of threads makes no difference to an own search. -/
theorem ownSearchRelabel (labels : Labels) :
    ownSearch environment assumptions (engine.relabel labels) =
      (ownSearch environment assumptions engine).map (Prod.map id (relabel labels)) :=
  searchWithRelabel labels environment
    (.ofOptions engine.options engine.statistics.conflicts (environment.clock 0) none)
    assumptions engine

/-- A worker that nobody interrupts searches like the engine. -/
theorem runWorkerLone (silent : environment.signal 0 = none) :
    runWorker environment assumptions engine 0 =
      (ownSearch environment assumptions engine).map
        (Prod.map id (relabel { engine.labels with traversal := none, threads := 1 })) := by
  rw [← ownSearchRelabel, runWorker, silent]
  rfl

/-- The winner gets back what the workers have not seen. -/
theorem installRelabel (labels : Labels) {after : Engine} (same : after.options = engine.options) :
    engine.install (after.relabel labels) = after.relabel engine.labels := by
  have options : engine.options = { after.options with threads := engine.options.threads } := by
    rw [same]
  exact congrArg (fun options => { after with
    options
    traversal := engine.traversal
    statistics := { after.statistics with solves := engine.statistics.solves } }) options

/-- An engine with one thread makes an own search. -/
theorem solveAlone (consistent : (engine.prepare assumptions).consistent = true) :
    engine.alone.solve environment assumptions =
      (ownSearch environment assumptions (engine.prepare assumptions)).map
        (Prod.map id (relabel { (engine.prepare assumptions).labels with threads := 1 })) := by
  rw [← ownSearchRelabel, solve, prepareAlone]
  have same : (engine.prepare assumptions).alone.consistent = true := consistent
  simp only [same, Bool.not_true, Bool.false_eq_true, if_false]
  rfl

/-- With one worker a call does what it would do with one thread. -/
theorem Faithful.solveLone (faithful : Faithful constraints engine)
    (lone : workerCount environment engine.options = 1)
    (honest : Honest environment assumptions (engine.prepare assumptions)) :
    engine.solve environment assumptions =
      (engine.alone.solve environment assumptions).map (Prod.map id fun after =>
        { after with options := { after.options with threads := engine.options.threads } }) := by
  have grows := prepareGrows engine assumptions
  cases prepared : (engine.prepare assumptions).consistent with
  | false =>
      rw [solve, solve, prepareAlone]
      have same : (engine.prepare assumptions).alone.consistent = false := prepared
      simp only [same, prepared, Bool.not_false, if_true]
      rw [← grows.options]
      rfl
  | true =>
      obtain ⟨steady, root⟩ := (faithful.valid.prepare assumptions).consistentSteady prepared
      have concluded := searchWithConcluded environment
        (.ofOptions (engine.prepare assumptions).options
          (engine.prepare assumptions).statistics.conflicts (environment.clock 0) none)
        steady root (engine.assumedInside assumptions)
      rw [solveAlone prepared, solve]
      rw [← grows.options] at lone ⊢
      simp only [prepared, Bool.not_true, Bool.false_eq_true, if_false, solvePortfolioEq,
        runWorkersLone lone, runWorkerLone (honest.lone lone)]
      change (if _ then _ else ownSearch environment assumptions (engine.prepare assumptions)) = _
      cases ended : ownSearch environment assumptions (engine.prepare assumptions) with
      | error stuck => exact ite_self _
      | ok result =>
          have labels := searchWithLabels ended
          rw [ownSearch] at ended
          rw [ended] at concluded
          have own : result.2.relabel (engine.prepare assumptions).labels = result.2 := by
            rw [← labels, relabelLabels]
          change (if 1 < (engine.prepare assumptions).options.threads then
              Except.ok (result.1, (engine.prepare assumptions).install (result.2.relabel
                { (engine.prepare assumptions).labels with traversal := none, threads := 1 }))
            else Except.ok result) =
              Except.ok (result.1, result.2.relabel (engine.prepare assumptions).labels)
          rw [installRelabel _ concluded.keeps.options, own, ite_self]

end Answered

/-- Whichever worker wins, its verdict is right, no other worker contradicts it, and the caller
finds everything as after a call with one thread.

With one worker the whole outcome is that of a call with one thread. -/
theorem portfolioCorrect {options : Options} {requests : List Request} {engine : Engine}
    (reached : run requests (ofOptions options) = .ok engine) (environment : Environment)
    (assumptions : List Literal) :
    (engine.consistent = true → ∀ index result,
      runWorker environment assumptions (engine.prepare assumptions) index = .ok result →
        Answered (history requests) assumptions engine
          (result.1, (engine.prepare assumptions).install result.2) ∧
        ∀ another other,
          runWorker environment assumptions (engine.prepare assumptions) another = .ok other →
            result.1 = .satisfiable → other.1 ≠ .unsatisfiable) ∧
    (∀ result, engine.solve environment assumptions = .ok result →
      Answered (history requests) assumptions engine result ∧
      (engine.consistent = true → 1 < engine.options.threads →
        ∃ index < workerCount environment engine.options, ∃ winner,
          runWorker environment assumptions (engine.prepare assumptions) index =
              .ok (result.1, winner) ∧
            result.2 = (engine.prepare assumptions).install winner) ∧
      ∀ calm single, engine.alone.solve calm assumptions = .ok single →
        result.2.options = { single.2.options with threads := engine.options.threads } ∧
        result.2.statistics.solves = single.2.statistics.solves ∧
        result.2.traversal = single.2.traversal ∧ result.2.atomCount = single.2.atomCount ∧
        result.2.clauseCount = single.2.clauseCount) ∧
    (workerCount environment engine.options = 1 →
      Honest environment assumptions (engine.prepare assumptions) →
        engine.solve environment assumptions =
          (engine.alone.solve environment assumptions).map (Prod.map id fun after =>
            { after with options := { after.options with
              threads := engine.options.threads } })) := by
  have faithful := reachedFaithful reached
  have faithfulAlone : Faithful (history requests) engine.alone :=
    ⟨faithful.valid.same rfl rfl rfl rfl rfl rfl, faithful.inside, faithful.submitted,
      faithful.delivered⟩
  refine ⟨fun consistent index result ran => ?_, fun result answered => ?_, faithful.solveLone⟩
  · have own := faithful.installed consistent ran
    refine ⟨own, fun another other ranToo satisfiable => ?_⟩
    have agreed := own.agree (faithful.installed consistent ranToo) satisfiable
    exact agreed
  · have own := faithful.answered answered
    refine ⟨own, fun consistent several => solveWinner consistent several answered,
      fun calm single answeredAlone => ?_⟩
    have alone := faithfulAlone.answered answeredAlone
    refine ⟨?_, own.solves.trans alone.solves.symm, own.traversal.trans alone.traversal.symm,
      own.atoms.trans alone.atoms.symm, own.clauses.trans alone.clauses.symm⟩
    rw [own.options, alone.options]
    rfl

/-- In this environment the first worker is told to stop before it has found anything. -/
def crowdedEnvironment : Environment :=
  { stillEnvironment with
    signal := fun index => if index = 0 then some 0 else none
    pool := 3 }

/-- These requests end with a call for several workers. -/
def crowdedRequests : List Request :=
  mixedRequests ++ [.setOptions fun options => { options with threads := 4 }]

/-- The second worker wins, and a lone worker answers like a single thread. -/
theorem portfolioCorrectCrowded :
    ∃ engine result, run crowdedRequests (ofOptions {}) = .ok engine ∧
      engine.solve crowdedEnvironment [⟨2, false⟩] = .ok result ∧
      result.1 = .satisfiable ∧
      Answered (history crowdedRequests) [⟨2, false⟩] engine result ∧
      engine.solve stillEnvironment [⟨2, false⟩] =
        (engine.alone.solve stillEnvironment [⟨2, false⟩]).map (Prod.map id fun after =>
          { after with options := { after.options with threads := engine.options.threads } }) := by
  obtain ⟨engine, reached, facts⟩ := reachedObserved
    (show (run crowdedRequests (ofOptions {})).toOption.map (fun engine =>
      ((engine.solve crowdedEnvironment [⟨2, false⟩]).toOption.map Prod.fst,
        workerCount stillEnvironment engine.options)) = some (some .satisfiable, 1) by
      decide +kernel)
  simp only [Prod.mk.injEq] at facts
  obtain ⟨verdict, lone⟩ := facts
  cases answered : engine.solve crowdedEnvironment [⟨2, false⟩] with
  | error stuck => simp [Except.toOption, answered] at verdict
  | ok result =>
      simp only [Except.toOption, answered, Option.map_some, Option.some.injEq] at verdict
      have crowded := portfolioCorrect reached crowdedEnvironment [⟨2, false⟩]
      have still := portfolioCorrect reached stillEnvironment [⟨2, false⟩]
      exact ⟨engine, result, reached, answered, verdict,
        (crowded.2.1 result answered).1, still.2.2 lone fun index poll signalled =>
          (Option.some_ne_none poll signalled.symm).elim⟩

end Engine

end ParitySat
