/-
This file shows that the program prints a model of the problem in a text, or that there is none.
-/

import ParitySat.CommandLine.Program
import ParitySat.Proofs.Engine.Termination
import ParitySat.Proofs.Session.Problem

namespace ParitySat.CommandLine

open Engine

section Chunks

variable {α : Type} (size : Nat)

theorem chunksFromFlatten (elements part : List α) (done : List (List α)) :
    (chunksFrom size elements part done).flatten =
      done.reverse.flatten ++ part.reverse ++ elements := by
  induction elements generalizing part done with
  | nil => cases part <;> simp [chunksFrom]
  | cons first rest inductionHypothesis =>
      rw [chunksFrom]
      split <;> rw [inductionHypothesis] <;> simp

/-- The parts together are the whole list. -/
theorem chunksFlatten (elements : List α) : (chunks size elements).flatten = elements := by
  rw [chunks, chunksFromFlatten]
  rfl

theorem chunksFromLength {elements part : List α} {done : List (List α)}
    (open_ : part.length < size) (closed : ∀ other ∈ done, 0 < other.length ∧ other.length ≤ size) :
    ∀ other ∈ chunksFrom size elements part done, 0 < other.length ∧ other.length ≤ size := by
  induction elements generalizing part done with
  | nil =>
      intro other member
      cases part with
      | nil => exact closed other (List.mem_reverse.1 member)
      | cons first rest =>
          rcases List.mem_cons.1 (List.mem_reverse.1 member) with rfl | old
          · simp only [List.length_reverse, List.length_cons] at open_ ⊢
            omega
          · exact closed other old
  | cons first rest inductionHypothesis =>
      rw [chunksFrom]
      split
      · next room => exact inductionHypothesis room closed
      · refine inductionHypothesis (Nat.zero_lt_of_lt open_) fun other member => ?_
        rcases List.mem_cons.1 member with rfl | old
        · simp only [List.length_reverse, List.length_cons]
          omega
        · exact closed other old

/-- No part is empty or longer than the size. -/
theorem chunksLength {size : Nat} (positive : 0 < size) (elements : List α) :
    ∀ part ∈ chunks size elements, 0 < part.length ∧ part.length ≤ size :=
  chunksFromLength size positive fun _ member => absurd member List.not_mem_nil

end Chunks

/-- This function lists the numbers from one on, and the sign of each tells whether it is true. -/
def signedNumbers (count : Nat) (assignment : Nat → Bool) : List Int :=
  (List.range count).map fun atom =>
    if assignment atom then (atom : Int) + 1 else -((atom : Int) + 1)

/-- The program denies that there is a model, or it prints one in lines of ten numbers at most.

The numbers tell the value of every variable in order, and whatever has these values is a model. -/
inductive Printed (lines : List (Option (List Char))) (problem : Dimacs) (count : Nat) :
    List String → Prop where
  | unsatisfiable (none : ∀ assignment, ¬Dimacs.Satisfied lines problem assignment) :
      Printed lines problem count ["s UNSATISFIABLE"]
  | satisfiable {parts : List (List Int)}
      (short : ∀ part ∈ parts, 0 < part.length ∧ part.length ≤ 10)
      (whole : ∃ assignment, parts.flatten = signedNumbers count assignment)
      (model : ∀ assignment, parts.flatten = signedNumbers count assignment →
        Dimacs.Satisfied lines problem assignment) :
      Printed lines problem count
        ("s SATISFIABLE" :: parts.map (fun part => "v " ++ numbersText part) ++ ["v 0"])

/-- The arguments ask for one answer of one thread without limits. -/
structure Arguments.Plain (arguments : Arguments) (config : Config) : Prop where
  configured : Config.ofHost arguments.verbosity arguments.timeLimit arguments.conflictLimit
    arguments.threads = .ok config
  single : arguments.maximumSolutions = none
  threads : config.threads = 1
  time : ¬0.0 < config.timeLimit
  conflicts : config.conflictLimit = 0

/-- The engine of a plain program differs from a new one in its verbosity only. -/
theorem Arguments.Plain.engine {arguments : Arguments} {config : Config}
    (plain : arguments.Plain config) :
    ∃ verbosity, config.apply (ofOptions {}) =
      { ofOptions {} with options := { verbosity } } := by
  have limits : ¬0 < config.conflictLimit := by
    rw [plain.conflicts]
    exact Nat.lt_irrefl 0
  unfold Config.apply
  simp only [if_neg plain.time, if_neg limits, plain.threads]
  split
  · exact ⟨config.verbosity, rfl⟩
  · exact ⟨0, rfl⟩

/-- Nothing has been submitted to the engine of a plain program, and nothing limits it. -/
theorem Arguments.Plain.begins {arguments : Arguments} {config : Config}
    (plain : arguments.Plain config) :
    Faithful [] (config.apply (ofOptions {})) ∧
      (config.apply (ofOptions {})).options.Unlimited ∧
      1 ≤ (config.apply (ofOptions {})).options.restartInitial ∧
      2.0 ≤ (config.apply (ofOptions {})).options.restartGrowth := by
  obtain ⟨verbosity, same⟩ := plain.engine
  have faithful : Faithful [] { ofOptions {} with options := { verbosity } } :=
    ((ofOptionsFaithful {}).keepNetwork { verbosity } none fun _ none => by contradiction).faithful
  rw [same]
  exact ⟨faithful, ⟨Nat.le_refl 1, rfl, rfl⟩, show 1 ≤ 100 by decide,
    show (2.0 : Float) ≤ 2.0 by decide +kernel⟩

/-- Without assumptions nothing can be wrong before the search. -/
theorem onSolve (environment : Environment) (session : Session Engine) :
    (Session.solve environment []).on session =
      match (Session.run environment []).on session with
      | (.error error, after) => (.error error, after)
      | (.ok .satisfiable, after) =>
        ((DenseSolution.ofModel (Backend.model after.backend).toList).map fun solution =>
          (.satisfiable, some solution), after)
      | (.ok verdict, after) => (.ok (verdict, none), after) := by
  unfold Session.solve
  rw [Call.onBind, Call.onGet]
  simp only [Intake.assumptions, traverseNil]
  rw [Call.onBind, Call.onLift]
  simp only
  rw [Call.onBind]
  generalize (Session.run environment []).on session = ended
  obtain ⟨result, after⟩ := ended
  rcases result with error | verdict
  · rfl
  · cases verdict with
    | satisfiable =>
        simp only [if_true]
        rw [Call.onBind, Call.onGet]
        simp only
        rw [Call.onBind, Call.onLift]
        cases DenseSolution.ofModel (Backend.model after.backend).toList <;> rfl
    | unsatisfiable => rfl
    | unknown => rfl

theorem signedValuesNumbers (count : Nat) (assignment : Nat → Bool) :
    signedValues ((List.range count).map fun atom => some (assignment atom)) =
      signedNumbers count assignment := by
  rw [Solution.signedValuesTotal, signedNumbers]
  apply List.map_congr_left
  intro atom _
  cases known : assignment atom <;> simp [Literal.external]

/-- The numbers tell the values apart. -/
theorem signedNumbersAgree {count : Nat} {first second : Nat → Bool}
    (same : signedNumbers count first = signedNumbers count second) {atom : Nat}
    (inside : atom < count) : first atom = second atom := by
  have entry := congrArg (fun numbers : List Int => numbers[atom]?) same
  simp only [signedNumbers, List.getElem?_map, List.getElem?_range inside, Option.map_some,
    Option.some.injEq] at entry
  cases left : first atom <;> cases right : second atom <;> simp [left, right] at entry ⊢ <;> omega

/-- A model is printed in lines of ten numbers, and it can be read off them. -/
theorem printedModel {lines : List (Option (List Char))} {problem : Dimacs} {count : Nat}
    {assignment : Nat → Bool}
    (model : ∀ other, (∀ atom < count, other atom = assignment atom) →
      Dimacs.Satisfied lines problem other) :
    Printed lines problem count (verdictLines (.satisfiable,
      some ⟨none :: (List.range count).map fun atom => some (assignment atom)⟩)) := by
  have printed : verdictLines (.satisfiable,
      some ⟨none :: (List.range count).map fun atom => some (assignment atom)⟩) =
        "s SATISFIABLE" :: (chunks 10 (signedNumbers count assignment)).map
          (fun part => "v " ++ numbersText part) ++ ["v 0"] := by
    rw [← signedValuesNumbers]
    rfl
  have whole := chunksFlatten 10 (signedNumbers count assignment)
  rw [printed]
  refine .satisfiable (chunksLength (by decide) _) ⟨assignment, whole⟩ fun other same => ?_
  exact model other fun atom inside => signedNumbersAgree (same.symm.trans whole) inside

/-- A search that is not finished is reported as a failure. -/
def unfinishedReport : Report :=
  { exitCode := 1, message := some Error.unfinished.message }

/-- This function reports what a call to the engine has answered. -/
def reported : Except Stuck (Verdict × Engine) → Report
  | .error _ => unfinishedReport
  | .ok (.satisfiable, engine) =>
    match DenseSolution.ofModel (Backend.model engine).toList with
    | .ok solution => { exitCode := 0, output := verdictLines (.satisfiable, some solution) }
    | .error error => { exitCode := 1, message := some error.message }
  | .ok (verdict, _) => { exitCode := 0, output := verdictLines (verdict, none) }

/-- The report is not a failure, and it answers the question of the text. -/
def Answered (lines : List (Option (List Char))) (problem : Dimacs) (count : Nat)
    (report : Report) : Prop :=
  ∃ output, report = { exitCode := 0, output } ∧ Printed lines problem count output

/-- The verdict of an engine that has been asked about the problem is an answer. -/
theorem reportedRound {lines : List (Option (List Char))} {problem : Dimacs}
    (parsed : Dimacs.ofLines lines = .ok problem) {engine : Engine}
    {answer : Except Stuck (Verdict × Engine)}
    (round : Round problem.constraints engine answer) :
    answer = .error .outOfSteps ∨ Answered lines problem engine.atomCount (reported answer) := by
  cases round with
  | unfinished => exact Or.inl rfl
  | @found after retains modelled model =>
      have bytes : (Backend.model after).toList = after.model.toList.map Truth.toByte := by
        simp [Backend.model]
      rw [reported]
      simp only [DenseSolution.ofModel, bytes, ofBytesToByte, modelled.values]
      refine Or.inr ⟨_, rfl, ?_⟩
      rw [← retains.count]
      refine printedModel fun other same => (Dimacs.modelsConstraints parsed other).1 ?_
      intro constraint member
      rw [Constraint.holdsCongr fun atom listed =>
        same atom (retains.faithful.inside constraint member atom listed)]
      exact model constraint member
  | exhausted retains none =>
      refine Or.inr ⟨_, rfl, .unsatisfiable fun assignment satisfied => ?_⟩
      exact none assignment ((Dimacs.modelsConstraints parsed assignment).2 satisfied)

/-- A call that settles the question is reported with an answer. -/
theorem reportedSettled {lines : List (Option (List Char))} {problem : Dimacs}
    (parsed : Dimacs.ofLines lines = .ok problem) {engine : Engine}
    {answer : Except Stuck (Verdict × Engine)}
    (round : Round problem.constraints engine answer) (settles : Settles answer) :
    Answered lines problem engine.atomCount (reported answer) := by
  refine (reportedRound parsed round).resolve_left fun stuck => ?_
  obtain ⟨verdict, after, answered, -⟩ := settles
  rw [stuck] at answered
  contradiction

section Report

variable {arguments : Arguments} {config : Config} (plain : arguments.Plain config)
  {lines : List (Option (List Char))} {problem : Dimacs}
  (parsed : Dimacs.ofLines lines = .ok problem) {session : Session Engine}
  (accepted : (Session.addProblem problem).on (Session.withConfig config (ofOptions {})) =
    (.ok (), session))
include plain parsed accepted

theorem outputPlain (environment : Environment) :
    output environment arguments (.ok lines) =
      ((Session.solve environment []).on session).1.map verdictLines := by
  have call : output environment arguments (.ok lines) =
      ((Session.addProblem problem >>= fun _ => answer environment arguments).on
        (Session.withConfig config (ofOptions {}))).1 := by
    unfold output
    rw [plain.configured]
    change (Dimacs.ofLines lines >>= _) = _
    rw [parsed]
    rfl
  rw [call, Call.onBind, accepted]
  unfold answer
  rw [plain.single]
  simp only
  rw [Call.onBind]
  generalize (Session.solve environment []).on session = ended
  obtain ⟨result, after⟩ := ended
  cases result <;> rfl

/-- The program reports what the engine has answered. -/
theorem reportPlain (environment : Environment) :
    report environment (.ok arguments) (.ok lines) =
      reported (session.backend.solve environment []) := by
  unfold report
  simp only [outputPlain plain parsed accepted environment]
  rw [onSolve, Session.onRun, solveBytes]
  generalize session.backend.solve environment [] = answer
  cases answer with
  | error stuck => rfl
  | ok answer =>
      obtain ⟨verdict, after⟩ := answer
      simp only [Except.map, Verdict.ofByteToByte]
      cases verdict with
      | satisfiable =>
          dsimp only [reported]
          cases DenseSolution.ofModel (Backend.model after).toList <;> rfl
      | unsatisfiable => rfl
      | unknown => rfl

end Report

/-- The program prints a model if there is one and denies it otherwise, unless it runs out of
steps.

Some number of steps is enough if the limits of the runs are not kept in words.  If they are, only a
run with as many conflicts as a word can count could prevent that, and only for a problem with so
many variables that the bound on the conflicts of a run leaves the range of a word. -/
theorem reportAnswers {arguments : Arguments} {config : Config} (plain : arguments.Plain config)
    {lines : List (Option (List Char))} {problem : Dimacs}
    (parsed : Dimacs.ofLines lines = .ok problem) {session : Session Engine}
    (accepted : (Session.addProblem problem).on (Session.withConfig config (ofOptions {})) =
      (.ok (), session)) :
    (∀ environment, report environment (.ok arguments) (.ok lines) =
      reported (session.backend.solveWithin (allowance session.backend.options) environment [])) ∧
    (∀ environment, report environment (.ok arguments) (.ok lines) = unfinishedReport ∨
      Answered lines problem session.atomCount
        (report environment (.ok arguments) (.ok lines))) ∧
    (∀ limits, Unbounds session.backend.options limits →
      ∃ steps, ∀ environment : Environment, steps ≤ environment.steps →
        Answered lines problem session.atomCount
          (reported (session.backend.solveWithin limits environment []))) ∧
    ∃ steps, ∀ environment : Environment, steps ≤ environment.steps →
      Answered lines problem session.atomCount
          (report environment (.ok arguments) (.ok lines)) ∨
        Budget.counterBound ≤ conflictBound session.atomCount 0 ∧
          session.backend.Overflows environment [] := by
  obtain ⟨begun, unlimited, initial, growth⟩ := plain.begins
  obtain ⟨faithful, options⟩ := Session.addProblemGains begun accepted
  change session.backend.options = (config.apply (ofOptions {})).options at options
  rw [← options] at unlimited initial growth
  have valid := faithful.valid
  have reports := reportPlain plain parsed accepted
  refine ⟨fun environment => ?_, fun environment => ?_, fun limits unbounds => ?_, ?_⟩
  · rw [valid.solveWithinOwn unlimited.threads, reports]
  · rw [reports]
    refine (reportedRound parsed (faithful.round unlimited environment)).imp_left fun stuck => ?_
    rw [stuck]
    rfl
  · obtain ⟨steps, settles⟩ : ∃ steps, ∀ environment : Environment, steps ≤ environment.steps →
        Settles (session.backend.solveWithin limits environment []) :=
      valid.solveWithinUnbounded unlimited initial growth unbounds
    refine ⟨steps, fun environment enough => ?_⟩
    have round : Round problem.constraints session.backend
        (session.backend.solveWithin limits environment []) :=
      faithful.roundOf unlimited (valid.solveWithinSolved limits environment)
    exact reportedSettled parsed round (settles environment enough)
  · obtain ⟨steps, settles⟩ : ∃ steps, ∀ environment : Environment, steps ≤ environment.steps →
        Settles (session.backend.solve environment []) ∨
          Budget.counterBound ≤ conflictBound session.atomCount 0 ∧
            session.backend.Overflows environment [] :=
      valid.solveSettles unlimited initial growth
    refine ⟨steps, fun environment enough => ?_⟩
    rw [reports]
    exact (settles environment enough).imp_left
      (reportedSettled parsed (faithful.round unlimited environment))

/-- The literals of the parity constraint have signs, and one of them is repeated. -/
def smallLines : List (Option (List Char)) :=
  [some ['p', ' ', 'c', 'n', 'f', ' ', '3', ' ', '1'], some ['1', ' ', '-', '2', ' ', '0'],
    some ['x', ' ', '1', ' ', '-', '3', ' ', '1', ' ', '2', ' ', '0']]

/-- The signs are gone, and the parity is what is left of them. -/
def smallProblem : Dimacs :=
  { variableCount := 3, clauses := [[1, -2]], parities := [⟨[1, 3, 1, 2], false⟩] }

/-- Three atoms make the bound too small for a word to overflow. -/
theorem reportAnswersSmall :
    ∃ session, Arguments.Plain { path := "small.cnf", verbosity := 2 } { verbosity := 2 } ∧
      Dimacs.ofLines smallLines = .ok smallProblem ∧
      (Session.addProblem smallProblem).on (Session.withConfig { verbosity := 2 } (ofOptions {})) =
        (.ok (), session) ∧ session.atomCount = 3 ∧
      (∃ steps, ∀ environment : Environment, steps ≤ environment.steps →
        Answered smallLines smallProblem 3 (reported
          (session.backend.solveWithin (freeLimits session.backend.options) environment []))) ∧
      ∃ steps, ∀ environment : Environment, steps ≤ environment.steps →
        Answered smallLines smallProblem 3
          (report environment (.ok { path := "small.cnf", verbosity := 2 }) (.ok smallLines)) := by
  have plain : Arguments.Plain { path := "small.cnf", verbosity := 2 } { verbosity := 2 } :=
    ⟨rfl, rfl, rfl, by decide +kernel, rfl⟩
  have parsed : Dimacs.ofLines smallLines = .ok smallProblem := by decide +kernel
  generalize added : (Session.addProblem smallProblem).on
    (Session.withConfig { verbosity := 2 } (ofOptions {})) = ended
  have facts : (match ended with
      | (.ok (), session) => some session.atomCount
      | (.error _, _) => none) = some 3 := by
    rw [← added]
    decide +kernel
  obtain ⟨result, session⟩ := ended
  cases result with
  | error error => cases facts
  | ok _ =>
      have count : session.atomCount = 3 := Option.some.inj facts
      obtain ⟨-, -, unbounded, steps, answers⟩ := reportAnswers plain parsed added
      have free := unbounded _ (freeLimitsUnbounds session.backend.options)
      rw [count] at free answers
      exact ⟨session, plain, parsed, rfl, count, free, steps, fun environment enough =>
        (answers environment enough).resolve_right fun overflow =>
          absurd overflow.1 (by decide)⟩

end ParitySat.CommandLine
