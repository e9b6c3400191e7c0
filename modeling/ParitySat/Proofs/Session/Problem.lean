/-
This file shows that a problem that is accepted adds its clauses and its parity constraints.
-/

import ParitySat.Proofs.Dimacs
import ParitySat.Proofs.Session.Operations

namespace ParitySat

open Engine

/-- A success has the expected value for every element. -/
theorem traverseValues {α β γ ε : Type} {read : β → Except ε γ} {write : α → β} {value : α → γ}
    (each : ∀ element result, read (write element) = .ok result → result = value element)
    {elements : List α} {values : List γ}
    (success : traverse read (elements.map write) = .ok values) :
    values = elements.map value := by
  induction elements generalizing values with
  | nil => exact (Except.ok.inj success).symm
  | cons first rest inductionHypothesis =>
      rw [List.map_cons, traverseCons] at success
      cases head : read (write first) with
      | error error =>
          rw [head] at success
          contradiction
      | ok result =>
          rw [head] at success
          cases tail : traverse read (rest.map write) with
          | error error =>
              rw [tail] at success
              contradiction
          | ok found =>
              rw [tail] at success
              rw [← Except.ok.inj success, inductionHypothesis tail, each first result head,
                List.map_cons]

theorem decodeNumber (number : Int) (literal : Literal)
    (decoded : HostLiteral.decode (.integer number) = .ok literal) :
    literal = .ofNumber number := by
  unfold HostLiteral.decode at decoded
  simp only at decoded
  split at decoded
  · contradiction
  · split at decoded
    · exact (Except.ok.inj decoded).symm
    · contradiction

theorem decodeAtom (number : Int) (atom : Nat)
    (decoded : Intake.parityAtom (.integer number) = .ok atom) : atom = number.natAbs - 1 := by
  unfold Intake.parityAtom at decoded
  cases known : HostLiteral.decode (.integer number) with
  | error error =>
      rw [known] at decoded
      contradiction
  | ok literal =>
      rw [known] at decoded
      simp only at decoded
      split at decoded
      · contradiction
      · rw [← Except.ok.inj decoded, decodeNumber number literal known]
        rfl

/-- The engine knows more constraints now, and its options are the same as before. -/
structure Engine.Gains (known added : List Constraint) (before after : Engine) : Prop where
  faithful : Faithful (known ++ added) after
  options : after.options = before.options

namespace Engine.Gains

theorem trans {known first second : List Constraint} {before middle after : Engine}
    (left : Gains known first before middle) (right : Gains (known ++ first) second middle after) :
    Gains known (first ++ second) before after where
  faithful := by
    rw [← List.append_assoc]
    exact right.faithful
  options := right.options.trans left.options

end Engine.Gains

namespace Engine.Faithful

variable {known : List Constraint} {engine : Engine} (faithful : Faithful known engine)
include faithful

theorem gainNothing : Gains known [] engine engine :=
  ⟨(List.append_nil known).symm ▸ faithful, rfl⟩

theorem gainAtoms (count : Nat) : Gains known [] engine (Backend.reserve count engine) := by
  unfold Backend.reserve
  split
  · have performed : (Request.addAtoms (count - Backend.atomCount engine)).perform engine =
        .ok (.done, addAtoms (count - Backend.atomCount engine) engine) := rfl
    exact ⟨(faithful.perform performed).faithful, (addAtomsGrows _ engine).options⟩
  · exact faithful.gainNothing

theorem gainCreated (atoms : List Nat) : Gains known [] engine (create atoms engine) := by
  unfold create
  split
  · exact faithful.gainNothing
  · exact faithful.gainAtoms _

theorem gainClause (literals : List Literal) :
    Gains known [.clause literals] engine (Session.submit literals engine) := by
  rw [submitCreate]
  have created := faithful.gainCreated (literals.map Literal.atom)
  refine Gains.trans created ?_
  have submitted := created.faithful.valid.addClause literals
  exact ⟨(created.faithful.submit (.clause literals) submitted).faithful, submitted.submits.options⟩

theorem gainParity (atoms : List Nat) (odd : Bool) :
    Gains known [.parity atoms odd] engine (Session.submitParity atoms odd engine) := by
  have created := faithful.gainCreated atoms
  refine Gains.trans created ?_
  have submitted := created.faithful.valid.addParity atoms odd
  exact ⟨(created.faithful.submit (.parity atoms odd) submitted).faithful,
    submitted.submits.options⟩

end Engine.Faithful

namespace Session

variable {known : List Constraint} {session after : Session Engine}
  (faithful : Faithful known session.backend)
include faithful

theorem addClauseGains {numbers : List Int}
    (added : (addClause (numbers.map HostLiteral.integer)).on session = (.ok (), after)) :
    Gains known [Dimacs.clauseConstraint numbers] session.backend after.backend := by
  unfold addClause at added
  rw [Call.onBind, Call.onLift] at added
  cases decoded : Intake.clause (numbers.map HostLiteral.integer) with
  | error error =>
      rw [decoded] at added
      cases added
  | ok literals =>
      rw [decoded] at added
      obtain ⟨-, rfl⟩ := Prod.mk.inj added
      obtain rfl := traverseValues decodeNumber decoded
      exact faithful.gainClause (numbers.map Literal.ofNumber)

theorem addParityGains {line : ParityLine}
    (added : (addParity (line.numbers.map HostLiteral.integer) line.parity).on session =
      (.ok (), after)) :
    Gains known [Dimacs.parityConstraint line] session.backend after.backend := by
  unfold addParity at added
  rw [Call.onBind, Call.onLift] at added
  cases decoded : Intake.parity (line.numbers.map HostLiteral.integer) with
  | error error =>
      rw [decoded] at added
      cases added
  | ok atoms =>
      rw [decoded] at added
      obtain ⟨-, rfl⟩ := Prod.mk.inj added
      obtain rfl := traverseValues decodeAtom decoded
      exact faithful.gainParity _ line.parity

theorem addEachGains {clauses : List (List Int)}
    (added : (addEach (clauses.map (·.map HostLiteral.integer))).on session = (.ok (), after)) :
    Gains known (clauses.map Dimacs.clauseConstraint) session.backend after.backend := by
  induction clauses generalizing known session with
  | nil =>
      obtain ⟨-, rfl⟩ := Prod.mk.inj added
      exact faithful.gainNothing
  | cons first rest inductionHypothesis =>
      rw [List.map_cons, addEach, Call.onBind] at added
      generalize submitted : (addClause (first.map HostLiteral.integer)).on session = ended at added
      obtain ⟨result, middle⟩ := ended
      cases result with
      | error error => cases added
      | ok _ =>
          have gained := addClauseGains faithful submitted
          exact gained.trans (inductionHypothesis gained.faithful added)

theorem addParityLinesGains {lines : List ParityLine}
    (added : (addParityLines lines).on session = (.ok (), after)) :
    Gains known (lines.map Dimacs.parityConstraint) session.backend after.backend := by
  induction lines generalizing known session with
  | nil =>
      obtain ⟨-, rfl⟩ := Prod.mk.inj added
      exact faithful.gainNothing
  | cons first rest inductionHypothesis =>
      rw [addParityLines, Call.onBind] at added
      generalize submitted : (addParity (first.numbers.map HostLiteral.integer) first.parity).on
        session = ended at added
      obtain ⟨result, middle⟩ := ended
      cases result with
      | error error => cases added
      | ok _ =>
          have gained := addParityGains faithful submitted
          exact gained.trans (inductionHypothesis gained.faithful added)

/-- Nothing is lost and nothing else is added if a whole problem is accepted. -/
theorem addProblemGains {problem : Dimacs}
    (added : (addProblem problem).on session = (.ok (), after)) :
    Gains known problem.constraints session.backend after.backend := by
  have reserved := faithful.gainAtoms problem.variableCount
  unfold addProblem addClauses at added
  rw [Call.onBind, Call.onBind, reserve, onUpdate] at added
  simp only at added
  rw [Call.onBind, ClauseBatch.clauses, Call.onLift] at added
  simp only at added
  generalize submitted : (addEach (problem.clauses.map (·.map HostLiteral.integer))).on
    { session with backend := Backend.reserve problem.variableCount session.backend } =
      ended at added
  obtain ⟨result, middle⟩ := ended
  cases result with
  | error error => cases added
  | ok _ =>
      have clauses := addEachGains reserved.faithful submitted
      exact (reserved.trans clauses).trans (addParityLinesGains (reserved.trans clauses).faithful added)

end Session

end ParitySat
