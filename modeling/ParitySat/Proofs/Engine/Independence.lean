/-
This file shows that a search never looks at the traversal, at the number of threads or at the
number of solver calls, and at its conflicts only to compare them with its budget.
-/

import ParitySat.Proofs.Engine.Steps

namespace ParitySat

/-- These parts of an engine only matter between the searches. -/
structure Labels where
  traversal : Option (List (List Literal))
  threads : Nat
  solves : Nat

/-- Another budget says the same about conflicts that are counted in another way. -/
structure Recounts (recount : Nat → Nat) (budget other : Budget) : Prop where
  next : ∀ conflicts, recount (conflicts + 1) = recount conflicts + 1
  exhausted : ∀ conflicts poll,
    other.exhausted (recount conflicts) poll = budget.exhausted conflicts poll

theorem Recounts.same (budget : Budget) : Recounts id budget budget :=
  ⟨fun _ => rfl, fun _ _ => rfl⟩

namespace Engine

def labels (engine : Engine) : Labels :=
  ⟨engine.traversal, engine.options.threads, engine.statistics.solves⟩

/-- This function replaces what a search never looks at. -/
def relabel (labels : Labels) (engine : Engine) : Engine :=
  { engine with
    options := { engine.options with threads := labels.threads }
    traversal := labels.traversal
    statistics := { engine.statistics with solves := labels.solves } }

theorem relabelLabels (engine : Engine) : engine.relabel engine.labels = engine := rfl

/-- This function counts the conflicts in another way as well. -/
def disguise (labels : Labels) (recount : Nat → Nat) (engine : Engine) : Engine :=
  { engine with
    options := { engine.options with threads := labels.threads }
    traversal := labels.traversal
    statistics := { engine.statistics with
      conflicts := recount engine.statistics.conflicts
      solves := labels.solves } }

end Engine

def Search.disguise (labels : Labels) (recount : Nat → Nat) (search : Search) : Search :=
  { search with engine := search.engine.disguise labels recount }

def Progress.disguise (labels : Labels) (recount : Nat → Nat) : Progress → Progress
  | .running search => .running (search.disguise labels recount)
  | .finished verdict search => .finished verdict (search.disguise labels recount)
  | .stuck => .stuck

section Disguise

variable (labels : Labels) (recount : Nat → Nat)

namespace Engine

theorem recordDisguise (engine : Engine) (analysis : Analysis) :
    (engine.disguise labels recount).record analysis =
      (engine.record analysis).disguise labels recount := by
  unfold record
  split <;> rfl

theorem learnDisguise (engine : Engine) (analysis : Analysis) :
    (engine.disguise labels recount).learn analysis =
      (engine.learn analysis).disguise labels recount := by
  have recorded := recordDisguise labels recount ({ engine with
    order := analysis.touched.foldl DecisionOrder.bump engine.order }.cancelUntil
      analysis.returnLevel) analysis
  exact congrArg (fun recorded : Engine => { recorded with
    order := recorded.order.decay
    bound := tickBound recorded.options recorded.bound }) recorded

theorem randomBranchDisguise (generator : Generator) (engine : Engine) :
    (engine.disguise labels recount).randomBranch generator =
      Prod.map id (disguise labels recount) (engine.randomBranch generator) := by
  unfold randomBranch
  simp only [apply_ite (Prod.map id (disguise labels recount))]
  rfl

theorem pickBranchDisguise (generator : Generator) (engine : Engine) :
    (engine.disguise labels recount).pickBranch generator =
      Prod.map id (disguise labels recount) (engine.pickBranch generator) := by
  rw [pickBranch, randomBranchDisguise, pickBranch]
  obtain ⟨picked, after⟩ := engine.randomBranch generator
  cases picked <;> rfl

theorem concludeDisguise (verdict : Verdict) (engine : Engine) :
    (engine.disguise labels recount).conclude verdict =
      (engine.conclude verdict).disguise labels recount := by
  cases verdict <;> rfl

end Engine

namespace Search

variable (generator : Generator) (assumptions : List Literal) (search : Search)

theorem branchDisguise (picked : Option Nat × Engine) :
    (search.disguise labels recount).branch (picked.map id (Engine.disguise labels recount)) =
      (search.branch picked).disguise labels recount := by
  obtain ⟨choice, engine⟩ := picked
  cases choice <;> rfl

theorem afterAssumptionsDisguise (assumed : Engine.Assumed) :
    (search.disguise labels recount).afterAssumptions generator assumed =
      (search.afterAssumptions generator assumed).disguise labels recount := by
  cases assumed with
  | complete trail =>
      rw [afterAssumptions, afterAssumptions, ← branchDisguise, ← Engine.pickBranchDisguise]
      rfl
  | decide literal trail => rfl
  | failed trail => rfl

theorem relievedDisguise :
    (search.disguise labels recount).relieved = search.relieved.disguise labels recount := by
  unfold relieved
  simp only [apply_ite (Search.disguise labels recount)]
  rfl

variable {recount} {budget other : Budget} (recounts : Recounts recount budget other)
include recounts

theorem afterAnalysisDisguise (analyzed : Option Analysis × Engine) :
    (search.disguise labels recount).afterAnalysis other
        (analyzed.map id (Engine.disguise labels recount)) =
      (search.afterAnalysis budget analyzed).disguise labels recount := by
  obtain ⟨outcome, engine⟩ := analyzed
  cases outcome with
  | none => rfl
  | some analysis =>
      have polled := recounts.exhausted (engine.learn analysis).statistics.conflicts search.polls
      simp only [afterAnalysis, Prod.map_apply, id_eq, Engine.learnDisguise,
        apply_ite (Progress.disguise labels recount)]
      change (if other.exhausted (recount (engine.learn analysis).statistics.conflicts)
        search.polls = true then _ else _) = _
      rw [polled]
      rfl

theorem clashDisguise :
    (search.disguise labels recount).clash = search.clash.disguise labels recount := by
  simp only [clash, disguise, Engine.disguise, recounts.next]

theorem afterConflictDisguise (conflict : Reason) :
    (search.disguise labels recount).afterConflict other conflict =
      (search.afterConflict budget conflict).disguise labels recount := by
  rw [afterConflictEq, afterConflictEq, apply_ite (Progress.disguise labels recount),
    ← afterAnalysisDisguise labels search.clash recounts, clashDisguise labels search recounts]
  rfl

theorem afterFixpointDisguise :
    (search.disguise labels recount).afterFixpoint generator other assumptions =
      (search.afterFixpoint generator budget assumptions).disguise labels recount := by
  have polled : (search.disguise labels recount).exhausted other = search.exhausted budget :=
    recounts.exhausted search.engine.statistics.conflicts search.polls
  rw [afterFixpointEq, afterFixpointEq, apply_ite (Progress.disguise labels recount),
    apply_ite (Progress.disguise labels recount), relievedDisguise, decideEq, decideEq,
    ← afterAssumptionsDisguise, polled]
  rfl

theorem afterPropagationDisguise (outcome : Option Reason) :
    (search.disguise labels recount).afterPropagation generator other assumptions outcome =
      (search.afterPropagation generator budget assumptions outcome).disguise labels recount := by
  cases outcome with
  | some conflict => exact afterConflictDisguise labels search recounts conflict
  | none => exact afterFixpointDisguise labels generator assumptions search recounts

/-- A step does the same whatever the labels are and however the conflicts are counted. -/
theorem stepDisguise :
    (search.disguise labels recount).step generator other assumptions =
      (search.step generator budget assumptions).disguise labels recount := by
  rw [stepEq, stepEq, ← afterPropagationDisguise labels generator assumptions _ recounts]
  rfl

theorem runDisguise (steps : Nat) :
    run generator other assumptions steps (search.disguise labels recount) =
      (run generator budget assumptions steps search).map
        (Prod.map id (disguise labels recount)) := by
  induction steps generalizing search with
  | zero => rfl
  | succ steps inductionHypothesis =>
      rw [run, stepDisguise labels generator assumptions search recounts, run]
      cases search.step generator budget assumptions with
      | running next => exact inductionHypothesis next
      | finished verdict final => rfl
      | stuck => rfl

end Search

namespace Engine

/-- Neither the labels nor the way of counting make a difference to anything else. -/
theorem searchWithDisguise (environment : Environment) (assumptions : List Literal)
    {recount : Nat → Nat} {budget other : Budget} (recounts : Recounts recount budget other)
    (engine : Engine) :
    searchWith environment other assumptions (engine.disguise labels recount) =
      (searchWith environment budget assumptions engine).map
        (Prod.map id (disguise labels recount)) := by
  have started : Search.start (engine.disguise labels recount) =
      (Search.start engine).disguise labels recount := rfl
  rw [searchWith, started, Search.runDisguise labels _ _ _ recounts, searchWith]
  cases Search.run environment.generator budget assumptions environment.steps
      (Search.start engine) with
  | error stuck => rfl
  | ok result =>
      exact congrArg (fun after => Except.ok (result.1, after))
        (concludeDisguise labels recount result.1 result.2.engine)

/-- The labels make no difference to anything else. -/
theorem searchWithRelabel (environment : Environment) (budget : Budget)
    (assumptions : List Literal) (engine : Engine) :
    searchWith environment budget assumptions (engine.relabel labels) =
      (searchWith environment budget assumptions engine).map (Prod.map id (relabel labels)) :=
  searchWithDisguise labels environment assumptions (.same budget) engine

/-- A search leaves the labels alone. -/
theorem searchWithLabels {environment : Environment} {budget : Budget}
    {assumptions : List Literal} {engine : Engine} {result : Verdict × Engine}
    (ended : searchWith environment budget assumptions engine = .ok result) :
    result.2.labels = engine.labels := by
  have same := searchWithRelabel engine.labels environment budget assumptions engine
  rw [relabelLabels, ended] at same
  have relabelled := congrArg (fun result : Verdict × Engine => result.2.labels)
    (Except.ok.inj same)
  exact relabelled

end Engine

end Disguise

namespace Engine

section Commute

variable (change : Engine → Engine)
  (creates : ∀ engine : Engine, (change engine).addAtom = change engine.addAtom)
include creates

/-- What a new atom does not look at may be changed before or after its creation. -/
theorem addAtomsCommute (count : Nat) (engine : Engine) :
    addAtoms count (change engine) = change (addAtoms count engine) := by
  induction count generalizing engine with
  | zero => rfl
  | succ count inductionHypothesis =>
      rw [addAtoms, creates]
      exact inductionHypothesis engine.addAtom

theorem ensureAtomsCommute (size : ∀ engine : Engine, (change engine).atomCount = engine.atomCount)
    (atoms : List Nat) (engine : Engine) :
    (change engine).ensureAtoms atoms = change (engine.ensureAtoms atoms) := by
  unfold ensureAtoms
  induction atoms generalizing engine with
  | nil => rfl
  | cons atom rest inductionHypothesis =>
      have single : (change engine).ensureAtom atom = change (engine.ensureAtom atom) := by
        rw [ensureAtom, size]
        exact addAtomsCommute change creates _ engine
      rw [List.foldl_cons, single]
      exact inductionHypothesis (engine.ensureAtom atom)

end Commute

end Engine

end ParitySat
