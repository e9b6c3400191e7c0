/-
This file lets the caller of a session make any calls in any order and reduces them to requests to
the engine.
-/

import ParitySat.Proofs.Backend.Native
import ParitySat.Proofs.Engine.Upkeep
import ParitySat.Proofs.Session.Call
import ParitySat.Session.Enumeration
import ParitySat.Session.Problem
import ParitySat.Session.Traversal

namespace ParitySat

namespace Session

/-- The calls that a session serves. -/
inductive Operation where
  | reserve (count : Nat)
  | addClause (literals : List HostLiteral)
  | addClauses (batch : ClauseBatch) (reserved : Nat)
  | addParity (literals : List HostLiteral) (odd : Bool)
  | addProblem (problem : Dimacs)
  | solve (environment : Environment) (assumptions : List HostLiteral)
  | isSatisfiable (environment : Environment)
  | solution (format : SolutionFormat)
  | enumerate (environment : Environment) (maximum : Nat) (selected : List HostLiteral)
      (format : SolutionFormat)
  | setVerbosity (verbosity : Nat)
  | setMaximumTime (seconds : Float)
  | setMaximumConflicts (conflicts : Nat)
  | setThreads (threads : Nat)
  | openTraversal (maximumLength maximumGlue : Nat)
  | nextClause
  | closeTraversal

/-- What a call answers if it does not fail. -/
inductive Answer where
  | done
  | solved (verdict : Verdict) (solution : Option DenseSolution)
  | satisfiable (truth : Truth)
  | presented (solution : Solution)
  | enumerated (solutions : List Solution)
  | delivered (clause : Option (List Literal))

namespace Operation

/-- This function is the call behind an operation. -/
def call : Operation → Call Engine Answer
  | .reserve count => do
    Session.reserve count
    return .done
  | .addClause literals => do
    Session.addClause literals
    return .done
  | .addClauses batch reserved => do
    Session.addClauses batch reserved
    return .done
  | .addParity literals odd => do
    Session.addParity literals odd
    return .done
  | .addProblem problem => do
    Session.addProblem problem
    return .done
  | .solve environment assumptions => do
    let answer ← Session.solve environment assumptions
    return .solved answer.1 answer.2
  | .isSatisfiable environment => do
    return .satisfiable (← Session.isSatisfiable environment)
  | .solution format => do
    return .presented (← Session.solution format)
  | .enumerate environment maximum selected format => do
    return .enumerated (← Session.enumerate environment maximum selected format)
  | .setVerbosity verbosity => do
    update (Backend.setVerbosity verbosity)
    return .done
  | .setMaximumTime seconds => do
    update (Backend.setMaximumTime seconds)
    return .done
  | .setMaximumConflicts conflicts => do
    update (Backend.setMaximumConflicts conflicts)
    return .done
  | .setThreads threads => do
    update (Backend.setThreads threads)
    return .done
  | .openTraversal maximumLength maximumGlue => do
    Session.openTraversal maximumLength maximumGlue
    return .done
  | .nextClause => do
    return .delivered (← Session.nextClause)
  | .closeTraversal => do
    Session.closeTraversal
    return .done

/-- A failure is an answer as well, and the session goes on after it. -/
def perform (operation : Operation) (session : Session Engine) :
    Except Error Answer × Session Engine :=
  operation.call.on session

end Operation

/-- This function serves the operations in their order. -/
def serve (operations : List Operation) (session : Session Engine) : Session Engine :=
  operations.foldl (fun session operation => (operation.perform session).2) session

/-- This function notes every operation with its answer. -/
def transcript : List Operation → Session Engine → List (Operation × Except Error Answer)
  | [], _ => []
  | operation :: rest, session =>
    (operation, (operation.perform session).1) :: transcript rest (operation.perform session).2

theorem serveAppend (first second : List Operation) (session : Session Engine) :
    serve (first ++ second) session = serve second (serve first session) :=
  List.foldl_append

end Session

/-- This function replaces the traversal of the learnt clauses. -/
def Engine.attach (traversal : Option (List (List Literal))) (engine : Engine) : Engine :=
  { engine with traversal }

/-- This function replaces everything that concerns the traversal. -/
def Session.attach (traversal : Option (List (List Literal))) (traversing : Bool)
    (session : Session Engine) : Session Engine :=
  { backend := session.backend.attach traversal, traversing }

/-- A property of all calls that do not concern the traversal follows from its parts.

Such a call reads nothing from the session that depends on the traversal. -/
structure Compositional (property : (α : Type) → Call Engine α → Prop) : Prop where
  pure : ∀ {α : Type} (value : α), property α (Pure.pure value)
  throw : ∀ {α : Type} (error : Error), property α (MonadExcept.throw error)
  lift : ∀ {α : Type} (result : Except Error α), property α (liftM result)
  bind : ∀ {α γ : Type} {call : Call Engine α} {next : α → Call Engine γ}, property α call →
    (∀ value, property γ (next value)) → property γ (call >>= next)
  read : ∀ {α : Type} {next : Session Engine → Call Engine α},
    (∀ traversal traversing session,
      next (Session.attach traversal traversing session) = next session) →
    (∀ session, property α (next session)) → property α (MonadState.get >>= next)
  reserve : ∀ count, property Unit (Session.update (Backend.reserve count))
  submit : ∀ literals, property Unit (Session.update (Session.submit literals))
  deny : ∀ literals, property Unit (Session.update (Backend.addClause literals))
  submitParity : ∀ atoms odd, property Unit (Session.update (Session.submitParity atoms odd))
  configure : ∀ change, property Unit (Session.update (Engine.updateOptions change))
  run : ∀ environment assumptions, property Verdict (Session.run environment assumptions)

namespace Session

namespace Operation

/-- This function tells whether an operation concerns the traversal. -/
def traverses : Operation → Bool
  | .openTraversal _ _ | .nextClause | .closeTraversal => true
  | _ => false

end Operation

section Compositional

variable {property : (α : Type) → Call Engine α → Prop} (compositional : Compositional property)
include compositional

theorem addClausesComposed (batch : ClauseBatch) (reserved : Nat) :
    property Unit (addClauses batch reserved) := by
  have each (clauses : List (List HostLiteral)) : property Unit (addEach clauses) := by
    induction clauses with
    | nil => exact compositional.pure ()
    | cons first rest inductionHypothesis =>
        exact compositional.bind
          (compositional.bind (compositional.lift _) compositional.submit)
          fun _ => inductionHypothesis
  exact compositional.bind (compositional.reserve reserved) fun _ =>
    compositional.bind (compositional.lift _) each

theorem addParityComposed (literals : List HostLiteral) (odd : Bool) :
    property Unit (addParity literals odd) :=
  compositional.bind (compositional.lift _) fun atoms => compositional.submitParity atoms odd

theorem addProblemComposed (problem : Dimacs) : property Unit (addProblem problem) := by
  have lines (parities : List ParityLine) : property Unit (addParityLines parities) := by
    induction parities with
    | nil => exact compositional.pure ()
    | cons first rest inductionHypothesis =>
        exact compositional.bind (addParityComposed compositional _ _) fun _ =>
          inductionHypothesis
  exact compositional.bind (addClausesComposed compositional _ _) fun _ =>
    lines problem.parities

theorem solveComposed (environment : Environment) (assumptions : List HostLiteral) :
    property (Verdict × Option DenseSolution) (solve environment assumptions) := by
  refine compositional.read (fun _ _ _ => rfl) fun session => ?_
  refine compositional.bind (compositional.lift _) fun decoded => ?_
  refine compositional.bind (compositional.run environment decoded) fun verdict => ?_
  split
  · exact compositional.read (fun _ _ _ => rfl) fun _ =>
      compositional.bind (compositional.lift _) fun _ => compositional.pure _
  · exact compositional.pure _

theorem solutionComposed (format : SolutionFormat) : property Solution (solution format) :=
  compositional.read (fun _ _ _ => rfl) fun _ => compositional.lift _

theorem enumerateFromComposed (environment : Environment) (selected : List Literal)
    (format : SolutionFormat) (rounds : Nat) (found : Array Solution) :
    property (Array Solution) (enumerateFrom environment selected format rounds found) := by
  induction rounds generalizing found with
  | zero => exact compositional.pure found
  | succ rounds inductionHypothesis =>
      refine compositional.bind (compositional.run environment []) fun verdict => ?_
      cases verdict with
      | satisfiable =>
          refine compositional.bind (solutionComposed compositional format) fun solution => ?_
          split
          · refine compositional.read (fun _ _ _ => rfl) fun session => ?_
            exact compositional.bind (compositional.deny _) fun _ => inductionHypothesis _
          · exact inductionHypothesis _
      | unsatisfiable => exact compositional.pure found
      | unknown => exact compositional.throw _

theorem enumerateComposed (environment : Environment) (maximum : Nat)
    (selected : List HostLiteral) (format : SolutionFormat) :
    property (List Solution) (enumerate environment maximum selected format) := by
  refine compositional.bind (compositional.lift _) fun decoded => ?_
  have rest : property (List Solution) (do
      return (← enumerateFrom environment decoded format maximum #[]).toList) :=
    compositional.bind (enumerateFromComposed compositional environment decoded format maximum #[])
      fun found => compositional.pure _
  split
  · exact compositional.bind (compositional.reserve _) fun _ => rest
  · exact rest

/-- One case for each operation that does not concern the traversal. -/
theorem operationComposed {operation : Operation} (other : operation.traverses = false) :
    property Answer operation.call := by
  cases operation with
  | reserve count =>
      exact compositional.bind (compositional.reserve count) fun _ => compositional.pure _
  | addClause literals =>
      exact compositional.bind
        (compositional.bind (compositional.lift _) compositional.submit)
        fun _ => compositional.pure _
  | addClauses batch reserved =>
      exact compositional.bind (addClausesComposed compositional batch reserved)
        fun _ => compositional.pure _
  | addParity literals odd =>
      exact compositional.bind (addParityComposed compositional literals odd)
        fun _ => compositional.pure _
  | addProblem problem =>
      exact compositional.bind (addProblemComposed compositional problem)
        fun _ => compositional.pure _
  | solve environment assumptions =>
      exact compositional.bind (solveComposed compositional environment assumptions)
        fun _ => compositional.pure _
  | isSatisfiable environment =>
      exact compositional.bind
        (compositional.bind (compositional.run environment []) fun _ => compositional.pure _)
        fun _ => compositional.pure _
  | solution format =>
      exact compositional.bind (solutionComposed compositional format)
        fun _ => compositional.pure _
  | enumerate environment maximum selected format =>
      exact compositional.bind
        (enumerateComposed compositional environment maximum selected format)
        fun _ => compositional.pure _
  | setVerbosity _ | setMaximumTime _ | setMaximumConflicts _ | setThreads _ =>
      exact compositional.bind (compositional.configure _) fun _ => compositional.pure _
  | openTraversal _ _ | nextClause | closeTraversal => contradiction

end Compositional

end Session

/-- Whatever a call does to the engine consists of requests. -/
def Call.Served {α : Type} (call : Call Engine α) : Prop :=
  ∀ session, ∃ requests,
    Engine.run requests session.backend = .ok (call.on session).2.backend

namespace Engine

/-- Atoms that are missing are one request. -/
theorem reserveRuns (count : Nat) (engine : Engine) :
    ∃ requests, run requests engine = .ok (Backend.reserve count engine) := by
  unfold Backend.reserve
  split
  · exact ⟨[.addAtoms _], rfl⟩
  · exact ⟨[], rfl⟩

/-- The atoms of a submission are created first. -/
theorem submitCreate (literals : List Literal) (engine : Engine) :
    Session.submit literals engine =
      (create (literals.map Literal.atom) engine).addClause literals := by
  cases literals <;> rfl

theorem submitRuns (literals : List Literal) (engine : Engine) :
    ∃ requests, run requests engine = .ok (Session.submit literals engine) := by
  obtain ⟨created, ran, -⟩ := createRuns (literals.map Literal.atom) engine
  refine ⟨created ++ [.addClause literals], (runAppend ran).trans ?_⟩
  rw [submitCreate]
  rfl

theorem submitParityRuns (atoms : List Nat) (odd : Bool) (engine : Engine) :
    ∃ requests, run requests engine = .ok (Session.submitParity atoms odd engine) := by
  obtain ⟨created, ran, -⟩ := createRuns atoms engine
  exact ⟨created ++ [.addParity atoms odd], runAppend ran⟩

end Engine

namespace Session

theorem servedBind {α γ : Type} {call : Call Engine α} {next : α → Call Engine γ}
    (first : call.Served) (second : ∀ value, (next value).Served) :
    Call.Served (call >>= next) := by
  intro session
  obtain ⟨requests, ran⟩ := first session
  rw [Call.onBind]
  generalize call.on session = ended at ran
  obtain ⟨result, after⟩ := ended
  cases result with
  | error error => exact ⟨requests, ran⟩
  | ok value =>
      obtain ⟨later, rest⟩ := second value after
      exact ⟨requests ++ later, (Engine.runAppend ran).trans rest⟩

theorem servedCompositional : Compositional fun _ call => call.Served where
  pure _ _ := ⟨[], rfl⟩
  throw _ _ := ⟨[], rfl⟩
  lift result session := by
    rw [Call.onLift]
    exact ⟨[], rfl⟩
  bind := servedBind
  read _ each := servedBind (fun _ => ⟨[], rfl⟩) each
  reserve count session := Engine.reserveRuns count session.backend
  submit literals session := Engine.submitRuns literals session.backend
  deny literals _ := ⟨[.addClause literals], rfl⟩
  submitParity atoms odd session := Engine.submitParityRuns atoms odd session.backend
  configure change _ := ⟨[.setOptions change], rfl⟩
  run environment assumptions session := by
    rw [onRun, Engine.solveBytes]
    cases answered : session.backend.solve environment assumptions with
    | error stuck => exact ⟨[], rfl⟩
    | ok result =>
        refine ⟨[.solve environment assumptions], ?_⟩
        rw [Engine.run, Engine.Request.perform, answered]
        rfl

theorem onNextClause (session : Session Engine) :
    Operation.nextClause.perform session =
      if session.traversing then
        (.ok (.delivered session.backend.nextLearnt.1),
          { session with backend := session.backend.nextLearnt.2 })
      else (.error .noTraversal, session) := by
  obtain ⟨backend, traversing⟩ := session
  cases traversing <;> rfl

theorem onCloseTraversal (session : Session Engine) :
    Operation.closeTraversal.perform session =
      (.ok .done, if session.traversing then
        { backend := session.backend.closeTraversal, traversing := false } else session) := rfl

/-- Every operation consists of requests to the engine. -/
theorem operationServed (operation : Operation) (session : Session Engine) :
    ∃ requests,
      Engine.run requests session.backend = .ok (operation.perform session).2.backend := by
  by_cases other : operation.traverses = false
  · exact operationComposed servedCompositional other session
  · cases operation with
    | openTraversal maximumLength maximumGlue =>
        exact ⟨[.openTraversal maximumLength maximumGlue], rfl⟩
    | nextClause =>
        rw [onNextClause]
        split
        · exact ⟨[.nextLearnt], rfl⟩
        · exact ⟨[], rfl⟩
    | closeTraversal =>
        rw [onCloseTraversal]
        simp only
        split
        · exact ⟨[.closeTraversal], rfl⟩
        · exact ⟨[], rfl⟩
    | _ => exact absurd rfl other

/-- Whatever the caller does, the engine has served a list of requests. -/
theorem servedRuns (operations : List Operation) (session : Session Engine) :
    ∃ requests, Engine.run requests session.backend = .ok (serve operations session).backend := by
  induction operations generalizing session with
  | nil => exact ⟨[], rfl⟩
  | cons operation rest inductionHypothesis =>
      obtain ⟨requests, ran⟩ := operationServed operation session
      obtain ⟨later, rest⟩ := inductionHypothesis (operation.perform session).2
      exact ⟨requests ++ later, (Engine.runAppend ran).trans rest⟩

end Session

end ParitySat
