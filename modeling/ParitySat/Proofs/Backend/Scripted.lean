/-
This file shows how a script of prepared answers is used up by the searches.
-/

import ParitySat.Backend.Scripted

namespace ParitySat

namespace ScriptedBackend

/-- The answer that a script has for a search; beyond its end the verdict is unknown. -/
def scripted (answers : List ScriptedAnswer) (search : Nat) : ScriptedAnswer :=
  answers.getD search { byte := 2 }

theorem scriptedTail (answers : List ScriptedAnswer) :
    scripted answers.tail = fun search => scripted answers (search + 1) := by
  cases answers <;> rfl

/-- A search notes its assumptions, uses up one answer and keeps its model. -/
theorem answerScripted (backend : ScriptedBackend) (assumptions : List Literal) :
    backend.answer assumptions =
      ((scripted backend.answers 0).byte,
        { backend with
          solveCalls := backend.solveCalls.push assumptions
          model := (scripted backend.answers 0).model
          answers := backend.answers.tail }) := by
  obtain ⟨_, _, _, _, _, _, _, _, _, answers, _, _⟩ := backend
  cases answers with
  | nil => rfl
  | cons first rest => rfl

/-- An enumeration makes calls of these kinds only. -/
inductive Issued where
  | grow (atom : Nat)
  | search
  | ban (literals : List Literal)

def Issued.perform (backend : ScriptedBackend) : Issued → ScriptedBackend
  | .grow atom => Backend.ensureCapacity atom backend
  | .search => (backend.answer []).2
  | .ban literals => Backend.addClause literals backend

/-- This function performs the calls in their order. -/
def issue (calls : List Issued) (backend : ScriptedBackend) : ScriptedBackend :=
  calls.foldl Issued.perform backend

/-- Every clause is submitted between two searches. -/
def alternation (bans : List (List Literal)) : List Issued :=
  .search :: bans.flatMap fun literals => [.ban literals, .search]

theorem issueAppend (first second : List Issued) (backend : ScriptedBackend) :
    issue (first ++ second) backend = issue second (issue first backend) :=
  List.foldl_append

/-- The searches use up one answer each, and the model is that of the last one. -/
theorem issueAlternation (bans : List (List Literal)) (backend : ScriptedBackend) :
    issue (alternation bans) backend =
      { backend with
        clauses := backend.clauses ++ bans.toArray
        solveCalls := backend.solveCalls ++ Array.replicate (bans.length + 1) []
        answers := backend.answers.drop (bans.length + 1)
        model := (scripted backend.answers bans.length).model } := by
  induction bans generalizing backend with
  | nil =>
      change (backend.answer []).2 = _
      rw [answerScripted]
      simp [List.drop_one]
  | cons first rest inductionHypothesis =>
      change issue (alternation rest) (Backend.addClause first (backend.answer []).2) = _
      have moved : (scripted backend.answers.tail rest.length).model =
          (scripted backend.answers (rest.length + 1)).model := by
        rw [scriptedTail]
      have clauses : backend.clauses.push first ++ rest.toArray =
          backend.clauses ++ (first :: rest).toArray := by
        apply Array.ext'
        simp
      have searches : backend.solveCalls.push [] ++ Array.replicate (rest.length + 1) [] =
          backend.solveCalls ++ Array.replicate (rest.length + 2) [] := by
        apply Array.ext'
        simp [List.replicate_succ]
      rw [inductionHypothesis, answerScripted]
      simp only [Backend.addClause, List.length_cons, moved, clauses, searches, List.drop_tail]

end ScriptedBackend

end ParitySat
