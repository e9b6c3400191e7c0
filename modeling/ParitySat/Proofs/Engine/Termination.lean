/-
This file shows that every run of a search has few conflicts and that a call without limits answers.
-/

import ParitySat.Proofs.Engine.Limits
import ParitySat.Proofs.Engine.Soundness
import ParitySat.Proofs.Luby

namespace ParitySat.Engine

/-- The limits grow with the Luby sequence until they leave the range of a word. -/
theorem allowanceAtLeast {options : Options} (initial : 1 ≤ options.restartInitial)
    (growth : 2.0 ≤ options.restartGrowth) (restarts : Nat) :
    min (2 ^ Luby.exponent restarts) Budget.counterBound ≤ allowance options restarts := by
  have product := (Luby.valueAtLeast growth restarts).times (.ofWhole initial)
  refine Nat.le_trans ?_ product.toUInt64
  have grows : 2 ^ Luby.exponent restarts ≤
      2 ^ (Luby.exponent restarts + options.restartInitial.log2) :=
    Nat.pow_le_pow_right Nat.two_pos (Nat.le_add_right _ _)
  unfold Budget.counterBound
  omega

/-- These limits are those of the options, except that no word has to hold them. -/
structure Unbounds (options : Options) (limits : Nat → Nat) : Prop where
  inside : ∀ restarts, allowance options restarts < Budget.counterBound →
    limits restarts = allowance options restarts
  beyond : ∀ restarts, Budget.counterBound ≤ allowance options restarts →
    2 ^ Luby.exponent restarts ≤ limits restarts

/-- This function is the limit of the options, or a power of two where a word is full. -/
def freeLimits (options : Options) (restarts : Nat) : Nat :=
  if allowance options restarts < Budget.counterBound then allowance options restarts
  else 2 ^ Luby.exponent restarts

theorem freeLimitsUnbounds (options : Options) : Unbounds options (freeLimits options) where
  inside _ inside := if_pos inside
  beyond _ beyond := (if_neg (Nat.not_lt.mpr beyond)).ge

theorem Unbounds.atLeast {options : Options} {limits : Nat → Nat}
    (unbounds : Unbounds options limits) (initial : 1 ≤ options.restartInitial)
    (growth : 2.0 ≤ options.restartGrowth) (restarts : Nat) :
    2 ^ Luby.exponent restarts ≤ limits restarts := by
  have grows := allowanceAtLeast initial growth restarts
  rcases Nat.lt_or_ge (allowance options restarts) Budget.counterBound with inside | beyond
  · rw [unbounds.inside restarts inside]
    omega
  · exact unbounds.beyond restarts beyond

/-- This function is the budget of a call that employs no workers. -/
def ownBudget (environment : Environment) (engine : Engine) : Budget :=
  .ofOptions engine.options engine.statistics.conflicts (environment.clock 0) none

section Own

variable {environment : Environment} {assumptions : List Literal} {engine : Engine}

/-- A call whose constraints are refuted does not search. -/
theorem solveRefuted (refuted : (engine.prepare assumptions).consistent = false) :
    engine.solve environment assumptions = .ok (.unsatisfiable, engine.prepare assumptions) := by
  simp [Engine.solve, refuted]

/-- An engine with one thread searches itself. -/
theorem solveSingle (consistent : (engine.prepare assumptions).consistent = true)
    (single : engine.options.threads ≤ 1) :
    engine.solve environment assumptions = searchWith environment
      ((engine.prepare assumptions).ownBudget environment) assumptions
      (engine.prepare assumptions) := by
  have alone : ¬1 < (engine.prepare assumptions).options.threads := by
    rw [(prepareGrows engine assumptions).options]
    exact Nat.not_lt.2 single
  simp only [Engine.solve, consistent, alone, Bool.not_true, Bool.false_eq_true, if_false]
  rfl

end Own

/-- This function solves with one search under other limits. -/
def solveWithin (limits : Nat → Nat) (environment : Environment) (assumptions : List Literal)
    (engine : Engine) : Except Stuck (Verdict × Engine) :=
  let prepared := engine.prepare assumptions
  if !prepared.consistent then .ok (.unsatisfiable, prepared)
  else
    (Search.runWithin limits environment.generator (prepared.ownBudget environment) assumptions
      environment.steps (.start prepared)).map fun ended =>
        (ended.1, ended.2.engine.conclude ended.1)

/-- Without limits of the caller the budget never ends. -/
theorem unlimitedEndless {options : Options} (unlimited : options.Unlimited) (used : Nat)
    (clock : Nat → Nat) : (Budget.ofOptions options used clock none).Endless := by
  intro conflicts poll
  refine Bool.eq_false_iff.mpr fun exhausted => ?_
  rcases limitedOfExhausted exhausted with limited | limited
  · exact limited unlimited.conflicts
  · exact limited unlimited.time

/-- No run has more conflicts than the bound, and a run that may use more of them answers. -/
structure RunsShort (assumptions : List Literal) (bound : Nat) (worker : Engine) : Prop where
  conflicts : ∀ limits generator budget search,
    ReachesWithin limits generator budget assumptions (.start worker) search →
      search.runConflicts ≤ bound
  finished : ∀ limits generator budget search verdict final,
    ReachesWithin limits generator budget assumptions (.start worker) search →
      search.stepWithin limits generator budget assumptions = .finished verdict final →
        final.runConflicts ≤ bound
  answers : ∀ limits generator budget search,
    ReachesWithin limits generator budget assumptions (.start worker) search → budget.Endless →
      bound < limits search.restarts →
        ∃ verdict final,
          Search.runWithin limits generator budget assumptions bound search =
            .ok (verdict, final) ∧ verdict ≠ .unknown ∧ final.restarts = search.restarts

/-- A call settles the question if it ends with a verdict. -/
def Settles (call : Except Stuck (Verdict × Engine)) : Prop :=
  ∃ verdict after, call = .ok (verdict, after) ∧ verdict ≠ .unknown

/-- Some run of the call has as many conflicts as a word can count. -/
def Overflows (environment : Environment) (assumptions : List Literal) (engine : Engine) : Prop :=
  ∃ search, Reaches environment.generator ((engine.prepare assumptions).ownBudget environment)
      assumptions (.start (engine.prepare assumptions)) search ∧
    Budget.counterBound ≤ search.runConflicts

section Valid

variable {models : (Nat → Bool) → Prop} {engine : Engine} {assumptions : List Literal}

theorem Valid.runsShort (valid : engine.Valid models) {worker : Engine}
    (consistent : (engine.prepare assumptions).consistent = true)
    (employed : engine.Employed assumptions worker) :
    RunsShort assumptions
      (conflictBound (engine.prepare assumptions).atomCount assumptions.length) worker := by
  obtain ⟨steady, root, atoms, inside⟩ := valid.employed consistent employed
  rw [← atoms]
  have few {limits : Nat → Nat} {generator : Generator} {budget : Budget} {search : Search}
      (reaches : ReachesWithin limits generator budget assumptions (.start worker) search) :
      Bounded models assumptions worker search ∧
        search.runConflicts < conflictBound worker.atomCount assumptions.length := by
    have bounded := reachesBounded inside (.start steady root) reaches
    exact ⟨bounded, Nat.lt_of_le_of_lt bounded.conflicts bounded.weightLt⟩
  refine ⟨fun limits generator budget search reaches => Nat.le_of_lt (few reaches).2,
    fun limits generator budget search verdict final reaches finished => ?_,
    fun limits generator budget search reaches endless large => ?_⟩
  · obtain ⟨bounded, below⟩ := few reaches
    have falls := stepFalls limits generator budget inside bounded
    rw [finished] at falls
    cases falls with
    | finish _ _ conflicts => omega
  · have enough : potential assumptions worker search.restarts search ≤
        conflictBound worker.atomCount assumptions.length := by
      rw [potential, Nat.sub_self, Nat.zero_mul, Nat.zero_add]
      exact Nat.sub_le _ _
    obtain ⟨verdict, final, ran, known, late, early⟩ := runWithinEnds generator endless inside
      (conflictBound worker.atomCount assumptions.length) (few reaches).1
      (fun later further _ => Nat.lt_trans (few (reaches.trans further)).2 large)
      (Nat.le_refl _) enough
    exact ⟨verdict, final, ran, known, Nat.le_antisymm early late⟩

/-- A call under other limits answers rightly, unless the steps run out. -/
theorem Valid.solveWithinSolved (valid : engine.Valid models) (limits : Nat → Nat)
    (environment : Environment) :
    Ends (Solved models assumptions engine)
      (engine.solveWithin limits environment assumptions) := by
  unfold solveWithin
  cases valid.prepare assumptions with
  | refuted inconsistent unsatisfiable =>
      simp only [inconsistent, Bool.not_false, if_true]
      exact solvedRefuted inconsistent unsatisfiable
  | steady steady root =>
      simp only [steady.consistent, Bool.not_true, Bool.false_eq_true, if_false]
      have answers := runWithinAnswers limits environment.generator
        ((engine.prepare assumptions).ownBudget environment) (engine.assumedInside assumptions)
        environment.steps (.start steady root)
      generalize Search.runWithin limits environment.generator _ assumptions environment.steps _ =
        outcome at answers
      cases outcome with
      | error stuck => exact answers
      | ok ended => exact (Answers.conclude answers).solved steady.consistent

/-- A call settles the question before the given run, unless that run uses up its limit. -/
theorem Valid.solveWithinSettles (valid : engine.Valid models)
    (unlimited : engine.options.Unlimited) (limits : Nat → Nat) (last : Nat) :
    ∃ steps, ∀ environment : Environment, steps ≤ environment.steps →
      Settles (engine.solveWithin limits environment assumptions) ∨
        (engine.prepare assumptions).consistent = true ∧
          ∃ search, ReachesWithin limits environment.generator
              ((engine.prepare assumptions).ownBudget environment) assumptions
              (.start (engine.prepare assumptions)) search ∧
            search.restarts = last ∧ limits last ≤ search.runConflicts := by
  cases consistent : (engine.prepare assumptions).consistent with
  | false =>
      refine ⟨0, fun environment _ => Or.inl ⟨.unsatisfiable, engine.prepare assumptions, ?_,
        by decide⟩⟩
      simp [solveWithin, consistent]
  | true =>
      obtain ⟨steady, root, -, inside⟩ := valid.employed consistent (.inl rfl)
      refine ⟨potential assumptions (engine.prepare assumptions) last
        (.start (engine.prepare assumptions)), fun environment enough => ?_⟩
      by_cases spent : ∃ search, ReachesWithin limits environment.generator
          ((engine.prepare assumptions).ownBudget environment) assumptions
          (.start (engine.prepare assumptions)) search ∧
        search.restarts = last ∧ limits last ≤ search.runConflicts
      · exact Or.inr ⟨rfl, spent⟩
      · have endless := unlimitedEndless
          ((prepareGrows engine assumptions).options.symm ▸ unlimited)
          (engine.prepare assumptions).statistics.conflicts (environment.clock 0)
        obtain ⟨verdict, final, ran, known, -⟩ := runWithinEnds environment.generator endless
          inside environment.steps (.start steady root)
          (fun later reaches same => Nat.lt_of_not_le fun due =>
            spent ⟨later, reaches, same, due⟩) (Nat.zero_le _) enough
        refine Or.inl ⟨verdict, final.engine.conclude verdict, ?_, known⟩
        simp only [solveWithin, ownBudget, consistent, ran, Except.map, Bool.not_true,
          Bool.false_eq_true, if_false]

/-- Under the limits of the options the call is the usual one. -/
theorem Valid.solveWithinOwn (valid : engine.Valid models) (single : engine.options.threads ≤ 1)
    (environment : Environment) :
    engine.solveWithin (allowance engine.options) environment assumptions =
      engine.solve environment assumptions := by
  rw [← (prepareGrows engine assumptions).options]
  cases consistent : (engine.prepare assumptions).consistent with
  | false =>
      rw [solveRefuted consistent]
      simp [solveWithin, consistent]
  | true =>
      obtain ⟨steady, root, -, inside⟩ := valid.employed consistent (.inl rfl)
      rw [solveSingle consistent single, searchWith]
      simp only [solveWithin, consistent, Bool.not_true, Bool.false_eq_true, if_false,
        runWithinOwn inside (.start steady root) rfl]
      cases Search.run environment.generator _ assumptions environment.steps _ with
      | error stuck => rfl
      | ok ended => rfl

/-- Limits that outgrow every word settle the question. -/
theorem Valid.solveWithinUnbounded (valid : engine.Valid models)
    (unlimited : engine.options.Unlimited) (initial : 1 ≤ engine.options.restartInitial)
    (growth : 2.0 ≤ engine.options.restartGrowth) {limits : Nat → Nat}
    (unbounds : Unbounds engine.options limits) :
    ∃ steps, ∀ environment : Environment, steps ≤ environment.steps →
      Settles (engine.solveWithin limits environment assumptions) := by
  let bound := conflictBound (engine.prepare assumptions).atomCount assumptions.length
  obtain ⟨steps, settles⟩ :=
    valid.solveWithinSettles unlimited limits (Luby.blockSize bound - 1)
  refine ⟨steps, fun environment enough => (settles environment enough).resolve_right ?_⟩
  rintro ⟨consistent, search, reaches, -, spent⟩
  have few : search.runConflicts ≤ bound :=
    (valid.runsShort consistent (.inl rfl)).conflicts _ _ _ _ reaches
  have large := unbounds.atLeast initial growth (Luby.blockSize bound - 1)
  rw [Luby.exponentLast] at large
  have power : bound < 2 ^ bound := Nat.lt_two_pow_self
  omega

/-- Limits that are kept in words settle the question unless one of them is too small. -/
theorem Valid.solveSettles (valid : engine.Valid models)
    (unlimited : engine.options.Unlimited) (initial : 1 ≤ engine.options.restartInitial)
    (growth : 2.0 ≤ engine.options.restartGrowth) :
    ∃ steps, ∀ environment : Environment, steps ≤ environment.steps →
      Settles (engine.solve environment assumptions) ∨
        Budget.counterBound ≤
            conflictBound (engine.prepare assumptions).atomCount assumptions.length ∧
          engine.Overflows environment assumptions := by
  obtain ⟨steps, settles⟩ := valid.solveWithinSettles unlimited (allowance engine.options)
    (Luby.blockSize 64 - 1)
  refine ⟨steps, fun environment enough => ?_⟩
  rw [← valid.solveWithinOwn unlimited.threads]
  refine (settles environment enough).imp_right ?_
  rintro ⟨consistent, search, reaches, -, spent⟩
  have few := (valid.runsShort consistent (.inl rfl)).conflicts _ _ _ _ reaches
  have large := allowanceAtLeast initial growth (Luby.blockSize 64 - 1)
  rw [Luby.exponentLast, Nat.min_eq_right (by decide)] at large
  have overflow := Nat.le_trans large spent
  obtain ⟨steady, root, -, inside⟩ := valid.employed consistent (.inl rfl)
  rw [← (prepareGrows engine assumptions).options] at reaches
  exact ⟨Nat.le_trans overflow few, search,
    reaches.reaches inside (.start steady root) rfl, overflow⟩

end Valid

/-- No run of a search has more conflicts than a bound that only depends on the number of atoms
and on the number of assumptions.

So a call without limits settles the question if the limits of its runs are not kept in words.  If
they are, only a run with as many conflicts as a word can count could prevent that. -/
theorem searchTerminates {options : Options} {requests : List Request} {engine : Engine}
    (reached : run requests (ofOptions options) = .ok engine) (assumptions : List Literal) :
    ((engine.prepare assumptions).consistent = true →
      ∀ worker, engine.Employed assumptions worker →
        RunsShort assumptions
          (conflictBound (engine.prepare assumptions).atomCount assumptions.length) worker) ∧
    (engine.options.Unlimited → 1 ≤ engine.options.restartInitial →
      2.0 ≤ engine.options.restartGrowth →
        (∀ limits, Unbounds engine.options limits →
          ∃ steps, ∀ environment : Environment, steps ≤ environment.steps →
            Settles (engine.solveWithin limits environment assumptions)) ∧
        ∃ steps, ∀ environment : Environment, steps ≤ environment.steps →
          Settles (engine.solve environment assumptions) ∨
            Budget.counterBound ≤
                conflictBound (engine.prepare assumptions).atomCount assumptions.length ∧
              engine.Overflows environment assumptions) ∧
    (engine.options.threads ≤ 1 → ∀ environment,
      engine.solveWithin (allowance engine.options) environment assumptions =
        engine.solve environment assumptions) := by
  have valid := (reachedFaithful reached).valid
  exact ⟨fun consistent worker employed => valid.runsShort consistent employed,
    fun unlimited initial growth =>
      ⟨fun limits unbounds => valid.solveWithinUnbounded unlimited initial growth unbounds,
        valid.solveSettles unlimited initial growth⟩,
    valid.solveWithinOwn⟩

/-- Four atoms and one assumption make the bound small enough for a word. -/
theorem searchTerminatesMixed :
    ∃ engine limits, run mixedRequests (ofOptions {}) = .ok engine ∧
      RunsShort [⟨2, false⟩] 15625 (engine.prepare [⟨2, false⟩]) ∧
      Unbounds engine.options limits ∧
      (∃ steps, ∀ environment : Environment, steps ≤ environment.steps →
        Settles (engine.solveWithin limits environment [⟨2, false⟩])) ∧
      ∃ steps, ∀ environment : Environment, steps ≤ environment.steps →
        Settles (engine.solve environment [⟨2, false⟩]) := by
  obtain ⟨engine, reached, facts⟩ := reachedObserved
    (show (run mixedRequests (ofOptions {})).toOption.map (fun engine =>
      ((engine.prepare [⟨2, false⟩]).consistent, (engine.prepare [⟨2, false⟩]).atomCount,
        decide engine.options.Unlimited, engine.options.restartInitial,
        decide (2.0 ≤ engine.options.restartGrowth))) = some (true, 4, true, 100, true) by
      decide +kernel)
  simp only [Prod.mk.injEq, decide_eq_true_eq] at facts
  obtain ⟨consistent, atoms, unlimited, initial, growth⟩ := facts
  obtain ⟨short, settles, -⟩ := searchTerminates reached [⟨2, false⟩]
  obtain ⟨unbounded, steps, word⟩ := settles unlimited (by omega) growth
  rw [atoms] at short word
  have unbounds := freeLimitsUnbounds engine.options
  exact ⟨engine, freeLimits engine.options, reached, short consistent _ (.inl rfl), unbounds,
    unbounded _ unbounds, steps, fun environment enough =>
      (word environment enough).resolve_right fun overflow => absurd overflow.1 (by decide)⟩

end ParitySat.Engine
