/-
This file solves under assumptions, with one search or with a portfolio of workers.
-/

import ParitySat.Engine.Search

namespace ParitySat.Engine

/-- A satisfiable search leaves its assignment as the model. -/
def conclude (verdict : Verdict) (engine : Engine) : Engine :=
  let answered := match verdict with
    | .satisfiable => { engine with model := engine.network.trail.values.toArray }
    | _ => engine
  answered.cancelUntil 0

/-- This function runs a single search to its end and undoes all its decisions. -/
def searchWith (environment : Environment) (budget : Budget) (assumptions : List Literal)
    (engine : Engine) : Except Stuck (Verdict × Engine) :=
  match Search.run environment.generator budget assumptions environment.steps
      (Search.start engine) with
  | .error stuck => .error stuck
  | .ok (verdict, search) => .ok (verdict, search.engine.conclude verdict)

/-- Every worker but the first draws its own numbers, and every second one starts from
opposite phases. -/
def worker (engine : Engine) (index : Nat) : Engine :=
  let single := { engine with
    options := { engine.options with threads := 1 }
    traversal := none }
  if index = 0 then single
  else
    let seeded := { single with
      random := .ofSeed (engine.options.seed + UInt64.ofNat index)
      options := { single.options with
        randomFrequency := greater single.options.randomFrequency (0.01 * Float.ofNat index) } }
    if index % 2 = 1 then
      let trail := seeded.network.trail
      seeded.withTrail { trail with
        atoms := (trail.atoms.toList.map fun state =>
          { state with phase := !state.phase }).toArray }
    else seeded

/-- A worker stops early when it sees that another worker has finished. -/
def runWorker (environment : Environment) (assumptions : List Literal) (engine : Engine)
    (index : Nat) : Except Stuck (Verdict × Engine) :=
  let own := engine.worker index
  searchWith environment
    (.ofOptions own.options own.statistics.conflicts (environment.clock index)
      (environment.signal index))
    assumptions own

/-- The lowest worker with a verdict wins, and without any the first worker counts. -/
def race (run : Nat → Except Stuck (Verdict × Engine)) (first : Verdict × Engine) :
    List Nat → Except Stuck (Verdict × Engine)
  | [] => .ok first
  | index :: rest =>
    match run index with
    | .error stuck => .error stuck
    | .ok (.unknown, _) => race run first rest
    | .ok answer => .ok answer

/-- At least one worker runs, and no more than the pool holds. -/
def workerCount (environment : Environment) (options : Options) : Nat :=
  max 1 (min options.threads environment.pool)

/-- The later workers only count if the first one has no verdict. -/
def runWorkers (environment : Environment) (assumptions : List Literal) (engine : Engine) :
    Except Stuck (Verdict × Engine) :=
  let run := runWorker environment assumptions engine
  match run 0 with
  | .error stuck => .error stuck
  | .ok (.unknown, first) =>
    race run (.unknown, first) ((List.range (workerCount environment engine.options)).drop 1)
  | .ok answer => .ok answer

/-- The winner replaces the engine but for its options, its solve count and its traversal. -/
def solvePortfolio (environment : Environment) (assumptions : List Literal) (engine : Engine) :
    Except Stuck (Verdict × Engine) :=
  match runWorkers environment assumptions engine with
  | .error stuck => .error stuck
  | .ok (verdict, winner) =>
    .ok (verdict, { winner with
      options := engine.options
      traversal := engine.traversal
      statistics := { winner.statistics with solves := engine.statistics.solves } })

/-- This function counts the call, forgets the last model and creates the assumed atoms. -/
def prepare (engine : Engine) (assumptions : List Literal) : Engine :=
  { engine with
    statistics := { engine.statistics with solves := engine.statistics.solves + 1 }
    model := #[] }.ensureAtoms (assumptions.map Literal.atom)

/-- The assumptions hold for this call only. -/
def solve (environment : Environment) (assumptions : List Literal) (engine : Engine) :
    Except Stuck (Verdict × Engine) :=
  let prepared := engine.prepare assumptions
  if !prepared.consistent then .ok (.unsatisfiable, prepared)
  else if 1 < prepared.options.threads then
    solvePortfolio environment assumptions prepared
  else
    searchWith environment
      (.ofOptions prepared.options prepared.statistics.conflicts (environment.clock 0) none)
      assumptions prepared

end ParitySat.Engine
