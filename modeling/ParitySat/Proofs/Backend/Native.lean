/-
This file shows what an engine guarantees to the session in front of it.
-/

import ParitySat.Backend.Native
import ParitySat.Intake.Literals
import ParitySat.Proofs.Engine.Runs
import ParitySat.Proofs.Solution

namespace ParitySat

open Constraint

namespace Engine

/-- A model without gaps is presented as its assignment. -/
theorem Modelled.solution {engine : Engine} (modelled : engine.Modelled)
    (format : SolutionFormat) :
    Solution.ofModel (Backend.model engine).toList format =
      .ok (.ofAssignment engine.atomCount format engine.modelAssignment) := by
  have bytes : (Backend.model engine).toList = engine.model.toList.map Truth.toByte := by
    simp [Backend.model]
  rw [bytes, modelled.values, Solution.ofModelTotal]

section Create

/-- This function creates the atoms up to the greatest one of the list. -/
def create (atoms : List Nat) (engine : Engine) : Engine :=
  if atoms.isEmpty then engine else Backend.ensureCapacity (Intake.maximumAtom atoms) engine

/-- One request or none creates atoms. -/
theorem createRuns (atoms : List Nat) (engine : Engine) :
    ∃ added, run added engine = .ok (create atoms engine) ∧ history added = [] := by
  unfold create Backend.ensureCapacity Backend.reserve
  split
  · exact ⟨[], rfl, rfl⟩
  · split
    · exact ⟨[.addAtoms _], rfl, rfl⟩
    · exact ⟨[], rfl, rfl⟩

theorem optionsCreate (atoms : List Nat) (engine : Engine) :
    (create atoms engine).options = engine.options := by
  unfold create Backend.ensureCapacity Backend.reserve
  split
  · rfl
  · split
    · exact (addAtomsGrows _ engine).options
    · rfl

theorem grownCountMaximum (atoms : List Nat) (greatest count : Nat) :
    grownCount atoms (max count (greatest + 1)) = max count (atoms.foldl max greatest + 1) := by
  induction atoms generalizing greatest with
  | nil => rfl
  | cons atom rest inductionHypothesis =>
      have step : max (max count (greatest + 1)) (atom + 1) = max count (max greatest atom + 1) := by
        omega
      rw [List.foldl_cons, ← inductionHypothesis, ← step]
      rfl

/-- All the listed atoms exist afterwards, and no others are created. -/
theorem atomCountCreate (atoms : List Nat) (engine : Engine) :
    (create atoms engine).atomCount = grownCount atoms engine.atomCount := by
  cases atoms with
  | nil => rfl
  | cons atom rest =>
      have grown := grownCountMaximum rest atom engine.atomCount
      have greatest : Intake.maximumAtom (atom :: rest) = rest.foldl max atom := by
        rw [Intake.maximumAtom, List.foldl_cons, Nat.zero_max]
      change (Backend.reserve (Intake.maximumAtom (atom :: rest) + 1) engine).atomCount =
        grownCount rest (max engine.atomCount (atom + 1))
      rw [grown, greatest]
      unfold Backend.reserve
      split
      · next fewer =>
          apply (atomCountAddAtoms _ engine).trans
          change engine.atomCount < _ at fewer
          change engine.atomCount + (_ - engine.atomCount) = _
          omega
      · next enough =>
          change ¬engine.atomCount < _ at enough
          omega

end Create

/-- Some requests lead to a search that does not end within its steps. -/
def OutOfSteps (environment : Environment) (engine : Engine) : Prop :=
  ∃ requests middle, run requests engine = .ok middle ∧
    middle.solve environment [] = .error .outOfSteps

theorem OutOfSteps.after {environment : Environment} {requests : List Request}
    {before middle : Engine} (ran : run requests before = .ok middle)
    (out : OutOfSteps environment middle) : OutOfSteps environment before := by
  obtain ⟨later, last, reached, ended⟩ := out
  exact ⟨requests ++ later, last, (runAppend ran).trans reached, ended⟩

/-- A search is one request. -/
theorem runSolve {environment : Environment} {verdict : Verdict} {before after : Engine}
    (answered : before.solve environment [] = .ok (verdict, after)) :
    run [.solve environment []] before = .ok after := by
  rw [run, Request.perform, answered]
  rfl

/-- The engine knows these constraints now, and its atoms and options are the same as before. -/
structure Retains (constraints : List Constraint) (before after : Engine) : Prop where
  faithful : Faithful constraints after
  count : after.atomCount = before.atomCount
  options : after.options = before.options

/-- The session sees the verdict as a byte. -/
theorem solveBytes (environment : Environment) (assumptions : List Literal) (engine : Engine) :
    Backend.solve environment assumptions engine =
      (engine.solve environment assumptions).map fun answer => (answer.1.toByte, answer.2) := rfl

/-- A search of an unlimited engine runs out of steps, finds a model or excludes all models. -/
inductive Round (constraints : List Constraint) (before : Engine) :
    Except Stuck (Verdict × Engine) → Prop where
  | unfinished : Round constraints before (.error .outOfSteps)
  | found {after : Engine} (retains : Retains constraints before after) (modelled : after.Modelled)
      (model : Models constraints after.modelAssignment) :
      Round constraints before (.ok (.satisfiable, after))
  | exhausted {after : Engine} (retains : Retains constraints before after)
      (none : ∀ assignment, ¬Models constraints assignment) :
      Round constraints before (.ok (.unsatisfiable, after))

/-- The answer of a call without limits and without assumptions is about the constraints. -/
theorem Faithful.roundOf {constraints : List Constraint} {engine : Engine}
    (faithful : Faithful constraints engine) (unlimited : engine.options.Unlimited)
    {answer : Except Stuck (Verdict × Engine)}
    (solved : Ends (Solved (Models constraints) [] engine) answer) :
    Round constraints engine answer := by
  cases answer with
  | error stuck =>
      obtain rfl := solved
      exact .unfinished
  | ok result =>
      obtain ⟨verdict, after⟩ := result
      have performed := faithful.solved solved
      have retains : Retains constraints engine after :=
        ⟨List.append_nil constraints ▸ performed.faithful, solved.count, solved.options⟩
      cases verdict with
      | satisfiable =>
          obtain ⟨modelled, model, -⟩ := solved.decides
          exact .found retains modelled model
      | unsatisfiable =>
          apply Round.exhausted retains
          intro assignment model
          obtain ⟨literal, impossible, -⟩ := solved.decides.1 assignment model
          exact absurd impossible List.not_mem_nil
      | unknown =>
          rcases solved.limited rfl unlimited.threads with limited | limited
          · exact absurd unlimited.conflicts limited
          · exact absurd unlimited.time limited

theorem Faithful.round {constraints : List Constraint} {engine : Engine}
    (faithful : Faithful constraints engine) (unlimited : engine.options.Unlimited)
    (environment : Environment) :
    Round constraints engine (engine.solve environment []) :=
  faithful.roundOf unlimited (faithful.valid.solve environment [])

end Engine

end ParitySat
