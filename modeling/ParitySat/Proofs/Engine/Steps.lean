/-
This file cuts a step of the search into its parts, so that a proof may go through one at a time.
-/

import ParitySat.Engine.Solve

namespace ParitySat.Search

/-- A conflict counts for the engine and for the run. -/
def clash (search : Search) : Search :=
  { search with
    engine := { search.engine with
      statistics := { search.engine.statistics with
        conflicts := search.engine.statistics.conflicts + 1 } }
    runConflicts := search.runConflicts + 1 }

/-- This function goes on with what the analysis of a conflict has found. -/
def afterAnalysis (budget : Budget) (search : Search) : Option Analysis × Engine → Progress
  | (none, _) => .stuck
  | (some analysis, engine) =>
    let learnt := { search with engine := engine.learn analysis }
    if learnt.exhausted budget then .finished .unknown { learnt with polls := learnt.polls + 1 }
    else .running { learnt with polls := learnt.polls + 1 }

/-- This function goes on with the atom that has been picked, if there is one. -/
def branch (search : Search) : Option Nat × Engine → Progress
  | (none, engine) => .finished .satisfiable { search with engine }
  | (some atom, engine) =>
    .running { search with engine := engine.decideOn (engine.phaseLiteral atom) }

/-- This function goes on with what the assumptions ask for. -/
def afterAssumptions (generator : Generator) (search : Search) : Engine.Assumed → Progress
  | .failed trail =>
    .finished .unsatisfiable { search with engine := search.engine.withTrail trail }
  | .decide literal trail =>
    .running { search with engine := (search.engine.withTrail trail).decideOn literal }
  | .complete trail =>
    search.branch (Engine.pickBranch generator { search.engine.withTrail trail with
      statistics := { search.engine.statistics with
        decisions := search.engine.statistics.decisions + 1 } })

/-- Every decision polls the limits, and a crowded store is reduced first. -/
def relieved (search : Search) : Search :=
  let polled := { search with polls := search.polls + 1 }
  if polled.engine.crowded then { polled with engine := polled.engine.reduce } else polled

/-- This function goes on with the conflict of the propagation, if there is one. -/
def afterPropagation (generator : Generator) (budget : Budget) (assumptions : List Literal)
    (search : Search) : Option Reason → Progress
  | some conflict => search.afterConflict budget conflict
  | none => search.afterFixpoint generator budget assumptions

section Equations

variable (generator : Generator) (budget : Budget) (assumptions : List Literal) (search : Search)

theorem afterConflictEq (conflict : Reason) :
    search.afterConflict budget conflict =
      if search.engine.level = 0 then
        .finished .unsatisfiable
          { search.clash with engine := { search.clash.engine with consistent := false } }
      else search.clash.afterAnalysis budget (search.clash.engine.analyze conflict) := by
  rfl

theorem decideEq :
    search.decide generator assumptions =
      search.afterAssumptions generator
        (Engine.assume search.engine.network.trail (assumptions.drop search.engine.level)) := by
  unfold decide
  simp only
  cases Engine.assume search.engine.network.trail (assumptions.drop search.engine.level) <;> rfl

theorem afterFixpointEq :
    search.afterFixpoint generator budget assumptions =
      if search.allowance ≤ search.runConflicts then .running search.restart
      else if search.exhausted budget then
        .finished .unknown { search with polls := search.polls + 1 }
      else search.relieved.decide generator assumptions := by
  unfold afterFixpoint relieved
  simp only [apply_ite (decide generator assumptions)]

theorem stepEq :
    search.step generator budget assumptions =
      afterPropagation generator budget assumptions
        { search with engine := search.engine.propagate.2 } search.engine.propagate.1 := by
  unfold step
  obtain ⟨outcome, engine⟩ := search.engine.propagate
  cases outcome <;> rfl

end Equations

end ParitySat.Search
