/-
This file unfolds the calls of a session into what they do to it.
-/

import ParitySat.Session

namespace ParitySat

namespace Call

variable {β α γ : Type}

/-- A failure ends a sequence of calls. -/
theorem onBind (call : Call β α) (next : α → Call β γ) (session : Session β) :
    (call >>= next).on session =
      match call.on session with
      | (.error error, after) => (.error error, after)
      | (.ok value, after) => (next value).on after := by
  change (match call.on session with
    | (result, after) => StateT.run (ExceptT.bindCont next result) after) = _
  generalize call.on session = ended
  obtain ⟨result, after⟩ := ended
  cases result <;> rfl

@[simp] theorem onPure (value : α) (session : Session β) :
    (pure value : Call β α).on session = (.ok value, session) := rfl

@[simp] theorem onThrow (error : Error) (session : Session β) :
    (throw error : Call β α).on session = (.error error, session) := rfl

@[simp] theorem onGet (session : Session β) :
    (get : Call β (Session β)).on session = (.ok session, session) := rfl

@[simp] theorem onSet (session other : Session β) :
    (set other : Call β PUnit).on session = (.ok ⟨⟩, other) := rfl

@[simp] theorem onLift (result : Except Error α) (session : Session β) :
    (liftM result : Call β α).on session = (result, session) := by
  cases result <;> rfl

end Call

namespace Session

@[simp] theorem onUpdate {β : Type} (change : β → β) (session : Session β) :
    (update change : Call β Unit).on session =
      (.ok (), { session with backend := change session.backend }) := rfl

variable {β : Type} [Backend β]

/-- A search that runs out of steps leaves the session as it was. -/
theorem onRun (environment : Environment) (assumptions : List Literal) (session : Session β) :
    (run environment assumptions : Call β Verdict).on session =
      match Backend.solve environment assumptions session.backend with
      | .error _ => (.error .unfinished, session)
      | .ok (byte, after) => (Verdict.ofByte byte, { session with backend := after }) := by
  unfold run
  rw [Call.onBind, Call.onGet]
  simp only
  cases Backend.solve environment assumptions session.backend with
  | error stuck => rfl
  | ok result =>
      obtain ⟨byte, after⟩ := result
      simp only
      rw [Call.onBind, Call.onSet]
      simp only
      exact Call.onLift _ _

theorem onSolution (format : SolutionFormat) (session : Session β) :
    (solution format : Call β Solution).on session =
      (Solution.ofModel (Backend.model session.backend).toList format, session) := by
  unfold solution
  rw [Call.onBind, Call.onGet]
  simp only
  exact Call.onLift _ _

end Session

end ParitySat
