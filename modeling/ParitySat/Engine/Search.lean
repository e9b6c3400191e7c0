/-
This file defines the search as a sequence of steps: propagate, learn, restart or decide.
-/

import ParitySat.Engine.Constraints
import ParitySat.Engine.Learning
import ParitySat.Luby
import ParitySat.Verdict

namespace ParitySat

/-- A conflict counts for the current run and a restart begins the next run. -/
structure Search where
  engine : Engine
  restarts : Nat
  runConflicts : Nat
  allowance : Nat
  polls : Nat

/-- The outcome of one step. -/
inductive Progress where
  | running (search : Search)
  | finished (verdict : Verdict) (search : Search)
  | stuck

namespace Engine

/-- This function is the number of conflicts that the run after so many restarts may use. -/
def allowance (options : Options) (restarts : Nat) : Nat :=
  (Luby.value options.restartGrowth restarts *
    Float.ofNat options.restartInitial).toUInt64.toNat

/-- A missing number gives way to the other operand. -/
def greater (first second : Float) : Float :=
  if first.isNaN then second else if second.isNaN then first
  else if first < second then second else first

/-- The first bound depends on the number of stored clauses that were not learnt. -/
def startBound (engine : Engine) : LearntBound :=
  let stored := (engine.network.store.clauses.toList.filter fun clause => !clause.learnt).length
  { maximum := greater (Float.ofNat stored * engine.options.learntFactor)
      (Float.ofNat engine.options.minimumLearnts)
    interval := Float.ofNat engine.options.adjustStart
    countdown := engine.options.adjustStart }

/-- At the end of the countdown the bound and the next countdown grow. -/
def tickBound (options : Options) (bound : LearntBound) : LearntBound :=
  if bound.countdown - 1 = 0 then
    let interval := bound.interval * options.adjustGrowth
    { maximum := bound.maximum * options.learntGrowth
      interval
      countdown := interval.toUInt64.toNat }
  else { bound with countdown := bound.countdown - 1 }

def crowded (engine : Engine) : Bool :=
  Float.ofNat engine.learnts.size - Float.ofNat engine.network.trail.literals.size ≥
    engine.bound.maximum

def analyze (engine : Engine) (conflict : Reason) : Option Analysis × Engine :=
  let analyzed := engine.network.analyze engine.marks conflict
  (analyzed.1, { engine with marks := analyzed.2 })

/-- This function returns to the level of the learnt clause and records it. -/
def learn (engine : Engine) (analysis : Analysis) : Engine :=
  let bumped := { engine with
    order := analysis.touched.foldl DecisionOrder.bump engine.order }
  let recorded := (bumped.cancelUntil analysis.returnLevel).record analysis
  { recorded with
    order := recorded.order.decay
    bound := tickBound recorded.options recorded.bound }

/-- The outcome of reading the assumptions above the current level. -/
inductive Assumed where
  | complete (trail : Trail)
  | decide (literal : Literal) (trail : Trail)
  | failed (trail : Trail)

/-- A true assumption opens a level without a decision. -/
def assume (trail : Trail) : List Literal → Assumed
  | [] => .complete trail
  | literal :: rest =>
    match trail.value literal with
    | some true => assume trail.openLevel rest
    | some false => .failed trail
    | none => .decide literal trail

/-- This function takes atoms from the queue until one is undetermined. -/
def popUndetermined (trail : Trail) : Nat → DecisionOrder → Option Nat × DecisionOrder
  | 0, order => (none, order)
  | fuel + 1, order =>
    match order.pop with
    | (none, order) => (none, order)
    | (some atom, order) =>
      if trail.atomValue atom = none then (some atom, order)
      else popUndetermined trail fuel order

/-- Without an undetermined atom in the queue there is nothing to decide. -/
def queueBranch (engine : Engine) : Option Nat × Engine :=
  let popped := popUndetermined engine.network.trail (engine.order.queue.entries.size + 1)
    engine.order
  (popped.1, { engine with order := popped.2 })

/-- Some decisions take a random atom of the queue if it is undetermined. -/
def randomBranch (generator : Generator) (engine : Engine) : Option Nat × Engine :=
  if 0.0 < engine.options.randomFrequency && !engine.order.isEmpty then
    let (coin, random) := engine.random.fraction generator
    if coin < engine.options.randomFrequency then
      let (slot, random) := random.below generator engine.order.queue.entries.size
      let atom := engine.order.queue.entry slot
      (if engine.network.trail.atomValue atom = none then some atom else none,
        { engine with random })
    else (none, { engine with random })
  else (none, engine)

/-- This function chooses the atom of the next decision. -/
def pickBranch (generator : Generator) (engine : Engine) : Option Nat × Engine :=
  match engine.randomBranch generator with
  | (some atom, engine) => (some atom, engine)
  | (none, engine) => engine.queueBranch

/-- The next decision on an atom repeats its phase. -/
def phaseLiteral (engine : Engine) (atom : Nat) : Literal :=
  ⟨atom, (engine.network.trail.atom atom).phase⟩

def decideOn (engine : Engine) (literal : Literal) : Engine :=
  engine.openLevel.enqueue literal none

end Engine

namespace Search

def start (engine : Engine) : Search :=
  { engine := { engine with bound := engine.startBound }
    restarts := 0
    runConflicts := 0
    allowance := Engine.allowance engine.options 0
    polls := 0 }

def exhausted (budget : Budget) (search : Search) : Bool :=
  budget.exhausted search.engine.statistics.conflicts search.polls

/-- A conflict at the root level refutes the constraints, and any other one is learnt from. -/
def afterConflict (budget : Budget) (search : Search) (conflict : Reason) : Progress :=
  let engine := { search.engine with
    statistics := { search.engine.statistics with
      conflicts := search.engine.statistics.conflicts + 1 } }
  let counted := { search with runConflicts := search.runConflicts + 1 }
  if engine.level = 0 then
    .finished .unsatisfiable { counted with engine := { engine with consistent := false } }
  else
    match engine.analyze conflict with
    | (none, _) => .stuck
    | (some analysis, engine) =>
      let learnt := { counted with engine := engine.learn analysis }
      let polled := { learnt with polls := learnt.polls + 1 }
      if learnt.exhausted budget then .finished .unknown polled else .running polled

/-- A restart undoes every decision. -/
def restart (search : Search) : Search :=
  let engine := search.engine.cancelUntil 0
  { search with
    engine := { engine with
      statistics := { engine.statistics with restarts := engine.statistics.restarts + 1 } }
    restarts := search.restarts + 1
    runConflicts := 0
    allowance := Engine.allowance engine.options (search.restarts + 1) }

/-- The assumptions are decided first, and a model is complete without further decisions. -/
def decide (generator : Generator) (assumptions : List Literal) (search : Search) : Progress :=
  let engine := search.engine
  match Engine.assume engine.network.trail (assumptions.drop engine.level) with
  | .failed trail => .finished .unsatisfiable { search with engine := engine.withTrail trail }
  | .decide literal trail =>
    .running { search with engine := (engine.withTrail trail).decideOn literal }
  | .complete trail =>
    let engine := engine.withTrail trail
    let counted := { engine with
      statistics := { engine.statistics with decisions := engine.statistics.decisions + 1 } }
    match counted.pickBranch generator with
    | (none, engine) => .finished .satisfiable { search with engine }
    | (some atom, engine) =>
      .running { search with engine := engine.decideOn (engine.phaseLiteral atom) }

/-- Without a conflict the run may end, the budget may end, or the search decides. -/
def afterFixpoint (generator : Generator) (budget : Budget) (assumptions : List Literal)
    (search : Search) : Progress :=
  if search.allowance ≤ search.runConflicts then .running search.restart
  else
    let polled := { search with polls := search.polls + 1 }
    if search.exhausted budget then .finished .unknown polled
    else if polled.engine.crowded then
      decide generator assumptions { polled with engine := polled.engine.reduce }
    else decide generator assumptions polled

def step (generator : Generator) (budget : Budget) (assumptions : List Literal)
    (search : Search) : Progress :=
  match search.engine.propagate with
  | (some conflict, engine) => afterConflict budget { search with engine } conflict
  | (none, engine) => afterFixpoint generator budget assumptions { search with engine }

/-- The steps of the environment bound the search. -/
def run (generator : Generator) (budget : Budget) (assumptions : List Literal) :
    Nat → Search → Except Stuck (Verdict × Search)
  | 0, _ => .error .outOfSteps
  | steps + 1, search =>
    match search.step generator budget assumptions with
    | .running next => run generator budget assumptions steps next
    | .finished verdict final => .ok (verdict, final)
    | .stuck => .error .noImplicationPoint

end Search

end ParitySat
