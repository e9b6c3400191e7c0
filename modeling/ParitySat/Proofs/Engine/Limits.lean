/-
This file lets every run of a search use any number of conflicts, and shows that a search ends once
a run may use more conflicts than a trail can gain weight.
-/

import ParitySat.Proofs.Engine.Progress
import ParitySat.Proofs.Engine.Solve

namespace ParitySat

/-- A budget without end never interrupts a search. -/
def Budget.Endless (budget : Budget) : Prop :=
  ∀ conflicts poll, budget.exhausted conflicts poll = false

namespace Search

/-- This function gives the current run another limit. -/
def limited (limits : Nat → Nat) (search : Search) : Search :=
  { search with allowance := limits search.restarts }

/-- This function takes a step under the other limits. -/
def stepWithin (limits : Nat → Nat) (generator : Generator) (budget : Budget)
    (assumptions : List Literal) (search : Search) : Progress :=
  (search.limited limits).step generator budget assumptions

def runWithin (limits : Nat → Nat) (generator : Generator) (budget : Budget)
    (assumptions : List Literal) : Nat → Search → Except Stuck (Verdict × Search)
  | 0, _ => .error .outOfSteps
  | steps + 1, search =>
    match search.stepWithin limits generator budget assumptions with
    | .running next => runWithin limits generator budget assumptions steps next
    | .finished verdict final => .ok (verdict, final)
    | .stuck => .error .noImplicationPoint

end Search

namespace Engine

/-- A search reaches what any number of its steps under the other limits leads to. -/
inductive ReachesWithin (limits : Nat → Nat) (generator : Generator) (budget : Budget)
    (assumptions : List Literal) : Search → Search → Prop where
  | refl (search : Search) : ReachesWithin limits generator budget assumptions search search
  | step {first second third : Search}
      (next : first.stepWithin limits generator budget assumptions = .running second)
      (later : ReachesWithin limits generator budget assumptions second third) :
      ReachesWithin limits generator budget assumptions first third

theorem ReachesWithin.trans {limits : Nat → Nat} {generator : Generator} {budget : Budget}
    {assumptions : List Literal} {first second third : Search}
    (earlier : ReachesWithin limits generator budget assumptions first second)
    (later : ReachesWithin limits generator budget assumptions second third) :
    ReachesWithin limits generator budget assumptions first third := by
  induction earlier with
  | refl => exact later
  | step next _ inductionHypothesis => exact .step next (inductionHypothesis later)

/-- The conflicts of the current run are paid with weight. -/
structure Bounded (models : (Nat → Bool) → Prop) (assumptions : List Literal) (base : Engine)
    (search : Search) : Prop where
  searching : Searching models assumptions base search.engine
  decided : search.engine.network.trail.Decided assumptions.length
  conflicts : search.runConflicts ≤ search.engine.network.trail.weight assumptions.length

/-- No run over so many atoms and under so many assumptions has as many conflicts. -/
def conflictBound (atoms assumptions : Nat) : Nat :=
  Trail.heaviest atoms assumptions

section Bounded

variable {models : (Nat → Bool) → Prop} {assumptions : List Literal} {base : Engine}
  {search : Search}

theorem Bounded.start (steady : base.Steady models) (root : base.level = 0) :
    Bounded models assumptions base (.start base) where
  searching := steady.startSearching root
  decided := Trail.decidedRoot root
  conflicts := Nat.zero_le _

theorem Bounded.weightLt (bounded : Bounded models assumptions base search) :
    search.engine.network.trail.weight assumptions.length <
      conflictBound base.atomCount assumptions.length := by
  have light := Trail.weightLt assumptions.length bounded.searching.ready.shaped.trail
  have atoms : search.engine.network.trail.atoms.size = base.atomCount :=
    bounded.searching.keeps.atoms
  rwa [atoms] at light

/-- The potential of a search falls with every step: a restart may lose all the weight, but there
are only so many restarts up to the last one. -/
def potential (assumptions : List Literal) (base : Engine) (last : Nat) (search : Search) : Nat :=
  (last - search.restarts) * (conflictBound base.atomCount assumptions.length + 1) +
    (conflictBound base.atomCount assumptions.length -
      search.engine.network.trail.weight assumptions.length)

/-- The outcomes of a step under other limits. -/
inductive Falls (models : (Nat → Bool) → Prop) (assumptions : List Literal) (budget : Budget)
    (base : Engine) (limits : Nat → Nat) (search : Search) : Progress → Prop where
  | restart {next : Search} (bounded : Bounded models assumptions base next)
      (due : limits search.restarts ≤ search.runConflicts)
      (restarts : next.restarts = search.restarts + 1)
      (allowance : next.allowance = allowance base.options next.restarts) :
      Falls models assumptions budget base limits search (.running next)
  | rise {next : Search} (bounded : Bounded models assumptions base next)
      (weight : search.engine.network.trail.weight assumptions.length <
        next.engine.network.trail.weight assumptions.length)
      (restarts : next.restarts = search.restarts)
      (allowance : next.allowance = limits search.restarts) :
      Falls models assumptions budget base limits search (.running next)
  | finish {verdict : Verdict} {final : Search}
      (answers : Answers models assumptions budget base final.engine verdict)
      (restarts : final.restarts = search.restarts)
      (conflicts : final.runConflicts ≤ search.runConflicts + 1) :
      Falls models assumptions budget base limits search (.finished verdict final)

/-- Every step under other limits keeps the bound. -/
theorem stepFalls (limits : Nat → Nat) (generator : Generator) (budget : Budget)
    (inside : ∀ literal ∈ assumptions, literal.atom < base.atomCount)
    (bounded : Bounded models assumptions base search) :
    Falls models assumptions budget base limits search
      (search.stepWithin limits generator budget assumptions) := by
  have searching : Searching models assumptions base (search.limited limits).engine :=
    bounded.searching
  have meets := stepMeets budget generator searching inside
  have moves := stepMoves budget generator searching inside bounded.decided
  rw [← Search.stepWithin] at meets moves
  generalize search.stepWithin limits generator budget assumptions = progress at meets moves
  cases moves with
  | restart due decided restarts none allowance =>
      refine .restart ⟨meets, decided, ?_⟩ due restarts ?_
      · rw [none]
        exact Nat.zero_le _
      · rw [allowance, meets.keeps.options]
  | @rise next rises restarts conflicts allowance =>
      have gained : search.engine.network.trail.weight assumptions.length + 1 ≤
          next.engine.network.trail.weight assumptions.length := rises.weight
      have few : next.runConflicts ≤ search.runConflicts + 1 := conflicts
      have paid := bounded.conflicts
      exact .rise ⟨meets, rises.decided, by omega⟩ gained restarts allowance
  | finish restarts conflicts => exact .finish meets restarts conflicts

theorem Falls.bounded {budget : Budget} {limits : Nat → Nat} {next : Search}
    (falls : Falls models assumptions budget base limits search (.running next)) :
    Bounded models assumptions base next := by
  cases falls with
  | restart bounded => exact bounded
  | rise bounded => exact bounded

/-- A search under other limits never leaves the bound. -/
theorem reachesBounded {limits : Nat → Nat} {generator : Generator} {budget : Budget}
    (inside : ∀ literal ∈ assumptions, literal.atom < base.atomCount) {later : Search}
    (bounded : Bounded models assumptions base search)
    (reaches : ReachesWithin limits generator budget assumptions search later) :
    Bounded models assumptions base later := by
  induction reaches with
  | refl => exact bounded
  | step next _ inductionHypothesis =>
      have falls := stepFalls limits generator budget inside bounded
      rw [next] at falls
      exact inductionHypothesis falls.bounded

/-- A step to another search lowers the potential, unless the last run has used up its limit. -/
theorem Falls.lower {budget : Budget} {limits : Nat → Nat} {next : Search} {last : Nat}
    (falls : Falls models assumptions budget base limits search (.running next))
    (bounded : Bounded models assumptions base search)
    (spare : search.restarts = last → search.runConflicts < limits last)
    (early : search.restarts ≤ last) :
    search.restarts ≤ next.restarts ∧ next.restarts ≤ last ∧
      potential assumptions base last next < potential assumptions base last search := by
  have light := bounded.weightLt
  unfold potential
  cases falls with
  | restart after due restarts _ =>
      have before : search.restarts < last := by
        refine Nat.lt_of_le_of_ne early fun same => ?_
        have few := spare same
        rw [same] at due
        omega
      have fewer : last - search.restarts = last - next.restarts + 1 := by omega
      refine ⟨by omega, by omega, ?_⟩
      rw [fewer, Nat.succ_mul]
      omega
  | rise after weight restarts _ =>
      have later := after.weightLt
      rw [restarts]
      refine ⟨Nat.le_refl _, early, ?_⟩
      omega

/-- A search without a budget ends, at the latest in a run that does not use up its limit. -/
theorem runWithinEnds {limits : Nat → Nat} (generator : Generator) {budget : Budget}
    (endless : budget.Endless)
    (inside : ∀ literal ∈ assumptions, literal.atom < base.atomCount) {last : Nat} (steps : Nat)
    (bounded : Bounded models assumptions base search)
    (spare : ∀ later, ReachesWithin limits generator budget assumptions search later →
      later.restarts = last → later.runConflicts < limits last)
    (early : search.restarts ≤ last)
    (enough : potential assumptions base last search ≤ steps) :
    ∃ verdict final, Search.runWithin limits generator budget assumptions steps search =
        .ok (verdict, final) ∧ verdict ≠ .unknown ∧
      search.restarts ≤ final.restarts ∧ final.restarts ≤ last := by
  induction steps generalizing search with
  | zero =>
      have light := bounded.weightLt
      unfold potential at enough
      omega
  | succ steps inductionHypothesis =>
      have falls := stepFalls limits generator budget inside bounded
      rw [Search.runWithin]
      cases stepped : search.stepWithin limits generator budget assumptions with
      | running next =>
          rw [stepped] at falls
          obtain ⟨later, onTime, lower⟩ := falls.lower bounded (spare search (.refl search)) early
          obtain ⟨verdict, final, ran, known, high, low⟩ :=
            inductionHypothesis falls.bounded
              (fun third reaches => spare third (.step stepped reaches)) onTime (by omega)
          exact ⟨verdict, final, ran, known, Nat.le_trans later high, low⟩
      | finished verdict final =>
          rw [stepped] at falls
          cases falls with
          | finish answers restarts _ =>
              refine ⟨verdict, final, rfl, ?_, Nat.le_of_eq restarts.symm, restarts ▸ early⟩
              rintro rfl
              cases answers with
              | unknown _ conflicts poll exhausted =>
                  rw [endless] at exhausted
                  contradiction
      | stuck =>
          rw [stepped] at falls
          cases falls

/-- A search under other limits that does not run out of steps has an answer. -/
theorem runWithinAnswers (limits : Nat → Nat) (generator : Generator) (budget : Budget)
    (inside : ∀ literal ∈ assumptions, literal.atom < base.atomCount) (steps : Nat)
    (bounded : Bounded models assumptions base search) :
    Ends (fun result => Answers models assumptions budget base result.2.engine result.1)
      (Search.runWithin limits generator budget assumptions steps search) := by
  induction steps generalizing search with
  | zero => exact rfl
  | succ steps inductionHypothesis =>
      have falls := stepFalls limits generator budget inside bounded
      rw [Search.runWithin]
      generalize search.stepWithin limits generator budget assumptions = progress at falls
      cases progress with
      | running next => exact inductionHypothesis falls.bounded
      | finished verdict final =>
          cases falls with
          | finish answers => exact answers
      | stuck => cases falls

section Own

variable {generator : Generator} {budget : Budget}
  (inside : ∀ literal ∈ assumptions, literal.atom < base.atomCount)
  (bounded : Bounded models assumptions base search)
  (current : search.allowance = allowance base.options search.restarts)

include current in
theorem stepWithinOwn : search.stepWithin (allowance base.options) generator budget assumptions =
    search.step generator budget assumptions := by
  rw [Search.stepWithin, Search.limited, ← current]

/-- The limits of the options are taken from the options again after a restart. -/
theorem Falls.renewed {next : Search}
    (falls : Falls models assumptions budget base (allowance base.options) search
      (.running next)) : next.allowance = allowance base.options next.restarts := by
  cases falls with
  | restart _ _ _ allowance => exact allowance
  | rise _ _ restarts allowance => rw [allowance, restarts]

include inside bounded current

/-- Under the limits of the options a search runs as it does anyway. -/
theorem runWithinOwn (steps : Nat) :
    Search.runWithin (allowance base.options) generator budget assumptions steps search =
      Search.run generator budget assumptions steps search := by
  induction steps generalizing search with
  | zero => rfl
  | succ steps inductionHypothesis =>
      have falls := stepFalls (allowance base.options) generator budget inside bounded
      rw [stepWithinOwn current] at falls
      rw [Search.runWithin, Search.run, stepWithinOwn current]
      cases stepped : search.step generator budget assumptions with
      | running next =>
          rw [stepped] at falls
          exact inductionHypothesis falls.bounded falls.renewed
      | finished verdict final => rfl
      | stuck => rfl

/-- Under the limits of the options a search reaches what it reaches anyway. -/
theorem ReachesWithin.reaches {later : Search}
    (reaching : ReachesWithin (allowance base.options) generator budget assumptions search later) :
    Reaches generator budget assumptions search later := by
  induction reaching with
  | refl search => exact .refl search
  | step next _ inductionHypothesis =>
      have falls := stepFalls (allowance base.options) generator budget inside bounded
      rw [next] at falls
      rw [stepWithinOwn current] at next
      exact .step next (inductionHypothesis falls.bounded falls.renewed)

end Own

end Bounded

end Engine

end ParitySat
