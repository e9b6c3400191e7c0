/-
This file shows that the host inserts a batch of clauses as it inserts them one by one, whatever
fails on the way.
-/

import ParitySat.Host.Solver
import ParitySat.Proofs.Session.Batches

namespace ParitySat.Host

namespace HostCall

variable {α γ : Type}

/-- A failure ends a sequence of host calls. -/
theorem onBind (call : HostCall α) (next : α → HostCall γ) (session : Session Engine) :
    (call >>= next).on session =
      match call.on session with
      | (.error failure, after) => (.error failure, after)
      | (.ok value, after) => (next value).on after := by
  change (match call.on session with
    | (result, after) => StateT.run (ExceptT.bindCont next result) after) = _
  generalize call.on session = ended
  obtain ⟨result, after⟩ := ended
  cases result <;> rfl

@[simp] theorem onRead (result : Except Failure α) (session : Session Engine) :
    (liftM result : HostCall α).on session = (result, session) := by
  cases result <;> rfl

end HostCall

/-- An array and all that looks like one is read as a buffer. -/
def Value.IsArray : Value → Prop
  | .array .. => True
  | _ => False

/-- This call raises the failure, if there is any. -/
def raise : Option Failure → HostCall Unit
  | some failure => throw failure
  | none => pure ()

namespace Solver

@[simp] theorem onLift {α : Type} (call : Call Engine α) (session : Session Engine) :
    (lift call).on session =
      ((call.on session).1.mapError Failure.solver, (call.on session).2) := rfl

/-- This call adds what the iteration yields item by item, after the variables that are reserved. -/
def addOneByOne (iteration : Iteration) (maximumVariable : Int) : HostCall Unit := do
  lift (Session.reserve maximumVariable.toNat)
  iteration.items.forM addClause
  raise (iteration.raised?.map .iterationFailed)

/-- The clauses are added, and then a failure behind them is raised. -/
def addDecoded (decoded : List (List HostLiteral) × Option Failure) : HostCall Unit := do
  lift (Session.addEach decoded.1)
  raise decoded.2

theorem onAddClause (clause : Value) (session : Session Engine) :
    (addClause clause).on session =
      match clause.readLiterals with
      | .error failure => (.error failure, session)
      | .ok literals => (lift (Session.addClause literals)).on session := by
  rw [addClause, HostCall.onBind, HostCall.onRead]
  cases clause.readLiterals <;> rfl

/-- The clauses that have been read stay in front of those that are read later. -/
theorem readClausesFromDone (raised? : Option Exception) (items : List Value)
    (done : List (List HostLiteral)) :
    Value.readClausesFrom raised? items done =
      (done.reverse ++ (Value.readClausesFrom raised? items []).1,
        (Value.readClausesFrom raised? items []).2) := by
  induction items generalizing done with
  | nil => simp [Value.readClausesFrom]
  | cons first rest inductionHypothesis =>
      rw [Value.readClausesFrom, Value.readClausesFrom]
      cases first.readLiterals with
      | error failure => simp
      | ok literals =>
          simp only
          rw [inductionHypothesis, inductionHypothesis [literals]]
          simp

/-- A clause is refused by the solver or by the host, and what comes first is raised. -/
theorem addDecodedOneByOne (raised? : Option Exception) (items : List Value)
    (session : Session Engine) :
    (addDecoded (Value.readClausesFrom raised? items [])).on session =
      (do items.forM addClause; raise (raised?.map .iterationFailed) : HostCall Unit).on
        session := by
  induction items generalizing session with
  | nil => rfl
  | cons first rest inductionHypothesis =>
      rw [List.forM, bind_assoc, HostCall.onBind, onAddClause, Value.readClausesFrom]
      cases first.readLiterals with
      | error failure => rfl
      | ok literals =>
          simp only
          rw [readClausesFromDone]
          simp only [addDecoded, HostCall.onBind, onLift] at inductionHypothesis ⊢
          rw [List.reverse_singleton, List.singleton_append, Session.addEach, Call.onBind]
          generalize (Session.addClause literals).on session = ended
          obtain ⟨result, after⟩ := ended
          cases result with
          | error error => rfl
          | ok done => exact inductionHypothesis after

/-- Nothing is reserved for a list of clauses that comes without a count. -/
theorem addListedEach (clauses : List (List HostLiteral)) (session : Session Engine) :
    (Session.addClauses (.list clauses) 0).on session = (Session.addEach clauses).on session := by
  have nothing : Backend.reserve 0 session.backend = session.backend := by
    rw [Backend.reserve, if_neg (Nat.not_lt_zero _)]
  rw [Session.onAddClauses, nothing]
  rfl

theorem addIterationDecoded (iteration : Iteration) (session : Session Engine) :
    (addIteration iteration).on session =
      (addDecoded (Value.readClauses iteration)).on session := by
  unfold addIteration addDecoded
  generalize Value.readClauses iteration = decoded
  obtain ⟨clauses, failure⟩ := decoded
  simp only [HostCall.onBind, onLift]
  rw [addListedEach]
  cases failure <;> rfl

/-- A batch does the same to the session as its clauses one by one, and it fails the same way.

The items of the batch may be clauses, other values or iterators that raise exceptions, and so
may the batch itself. -/
theorem batchOneByOne {clauses : Value} {iteration : Iteration}
    (iterates : clauses.iterate? = some iteration) (unlike : ¬clauses.IsArray)
    (maximumVariable : Int) (session : Session Engine) :
    (addClauses clauses maximumVariable).on session =
      (addOneByOne iteration maximumVariable).on session := by
  have iterated : (addClauses clauses maximumVariable).on session =
      (do lift (Session.reserve maximumVariable.toNat); addIteration iteration : HostCall Unit).on
        session := by
    unfold addClauses
    cases clauses with
    | array => exact absurd trivial unlike
    | _ => simp only [iterates]
  rw [iterated, addOneByOne, HostCall.onBind, HostCall.onBind]
  generalize (lift (Session.reserve maximumVariable.toNat)).on session = reserved
  obtain ⟨result, after⟩ := reserved
  cases result with
  | error failure => rfl
  | ok done =>
      simp only
      rw [addIterationDecoded]
      exact addDecodedOneByOne iteration.raised? iteration.items after

/-- The second clause is no clause to the solver, the third is none to the host, and the iterator
of the batch raises an exception of its own. -/
def mixedIteration : Iteration where
  items := [.sequence .tuple [.integer 2, .integer (-1)], .sequence .unique [.integer 0], .object]
  raised? := some ⟨.wrongValue, "UnicodeError", "late"⟩

def mixedBatch : Value :=
  .raising mixedIteration.items ⟨.wrongValue, "UnicodeError", "late"⟩

/-- The first failure is the one that is raised. -/
theorem batchOneByOneMixed :
    let session := Session.ofBackend (Engine.ofOptions {})
    (addClauses mixedBatch 3).on session = (addOneByOne mixedIteration 3).on session ∧
      ((addOneByOne mixedIteration 3).on session).1 =
        .error (.solver (.invalidLiteral "0" .zero)) ∧
      ((addOneByOne mixedIteration 3).on session).2.clauseCount = 1 ∧
      ((addOneByOne mixedIteration 3).on session).2.atomCount = 3 :=
  ⟨batchOneByOne (rfl : mixedBatch.iterate? = some mixedIteration) id 3 _, rfl, rfl, rfl⟩

end Solver

end ParitySat.Host
