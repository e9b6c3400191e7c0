/-
This file shows that an enumeration finds every projection of the models once, and bans no other.
-/

import Mathlib.Data.Set.Card
import ParitySat.Proofs.Backend.Native
import ParitySat.Proofs.Engine.Soundness
import ParitySat.Proofs.Session.Call
import ParitySat.Proofs.Solution
import ParitySat.Session.Enumeration

namespace ParitySat

open Constraint

/-- This function lists the atoms that are selected without a negation. -/
def selectedAtoms (selected : List Literal) : List Nat :=
  (selected.filter fun literal => !literal.negated).map Literal.atom

/-- This function forgets the values of all other atoms. -/
def restriction (atoms : List Nat) (assignment : Nat → Bool) : {atom // atom ∈ atoms} → Bool :=
  fun atom => assignment atom.val

/-- The models of the constraints are told apart on these atoms only. -/
def projections (constraints : List Constraint) (atoms : List Nat) :
    Set ({atom // atom ∈ atoms} → Bool) :=
  {values | ∃ assignment, Models constraints assignment ∧ restriction atoms assignment = values}

/-- This clause denies that the atoms have the values of the assignment. -/
def denial (atoms : List Nat) (assignment : Nat → Bool) : List Literal :=
  atoms.map fun atom => ⟨atom, assignment atom⟩

/-- A denial excludes the assignments with the same restriction and no others. -/
theorem denialHolds (atoms : List Nat) (found assignment : Nat → Bool) :
    Clause.holds assignment (denial atoms found) = true ↔
      restriction atoms assignment ≠ restriction atoms found := by
  rw [Clause.holds, List.any_eq_true]
  constructor
  · rintro ⟨literal, member, holds⟩ same
    obtain ⟨atom, listed, rfl⟩ := List.mem_map.1 member
    have equal : assignment atom = found atom := congrFun same ⟨atom, listed⟩
    simp [Literal.holds, equal] at holds
  · intro different
    obtain ⟨⟨atom, listed⟩, differs⟩ := Function.ne_iff.1 different
    refine ⟨⟨atom, found atom⟩, List.mem_map_of_mem listed, ?_⟩
    simpa [Literal.holds, restriction] using differs

/-- The models of a denial have other projections, and all of them. -/
theorem modelsDenial (constraints : List Constraint) (atoms : List Nat)
    (found assignment : Nat → Bool) :
    Models (constraints ++ [.clause (denial atoms found)]) assignment ↔
      Models constraints assignment ∧ restriction atoms assignment ≠ restriction atoms found := by
  rw [modelsAppend, modelsSingle]
  exact and_congr_right fun _ => denialHolds atoms found assignment

/-- Different elements of a finite set that are either all of it or as many as allowed are counted
by the smaller number. -/
theorem lengthDistinct {α : Type} {elements : List α} {whole : Set α} {limit : Nat}
    (finite : whole.Finite) (distinct : elements.Nodup)
    (members : ∀ element ∈ elements, element ∈ whole)
    (few : elements.length ≤ limit)
    (all : elements.length < limit → ∀ element ∈ whole, element ∈ elements) :
    elements.length = min limit whole.ncard := by
  classical
  have size : (elements.toFinset : Set α).ncard = elements.length := by
    rw [Set.ncard_coe_finset, List.toFinset_card_of_nodup distinct]
  have below : elements.length ≤ whole.ncard := by
    rw [← size]
    exact Set.ncard_le_ncard (fun element member => members element (by simpa using member)) finite
  by_cases full : elements.length < limit
  · have above : whole.ncard ≤ elements.length := by
      rw [← size]
      exact Set.ncard_le_ncard (fun element member => by simpa using all full element member)
    omega
  · omega

/-- Without a selected atom all models have the same projection. -/
theorem projectionsSingle (constraints : List Constraint) {atoms : List Nat} (empty : atoms = []) :
    (projections constraints atoms).ncard ≤ 1 ∧
      (0 < (projections constraints atoms).ncard ↔ ∃ assignment, Models constraints assignment) := by
  subst empty
  have : IsEmpty {atom : Nat // atom ∈ []} := ⟨fun atom => absurd atom.2 List.not_mem_nil⟩
  refine ⟨Set.ncard_le_one_of_subsingleton _, ?_⟩
  rw [Set.ncard_pos]
  constructor
  · rintro ⟨values, assignment, model, -⟩
    exact ⟨assignment, model⟩
  · rintro ⟨assignment, model⟩
    exact ⟨restriction [] assignment, assignment, model, rfl⟩

namespace Engine

/-- A blocking clause denies the model that the engine presents. -/
theorem blockingClauseModel (selected : List Literal) (engine : Engine) :
    blockingClause selected (Backend.model engine) =
      denial (selectedAtoms selected) engine.modelAssignment := by
  rw [blockingClause, denial, selectedAtoms, List.map_map]
  apply List.map_congr_left
  intro literal _
  have value (truth : Truth) : (truth.toByte == 0) = (truth == some true) := by
    rcases truth with _ | _ | _ <;> rfl
  have listed : (Backend.model engine).getD literal.atom 2 =
      (engine.model.getD literal.atom none).toByte := by
    by_cases inside : literal.atom < engine.model.size
    · simp [Backend.model, Array.getD, inside]
    · simp [Backend.model, Array.getD, inside, Truth.toByte]
  simp only [Function.comp, modelAssignment, Truth.total, listed, value]

/-- A denial over known atoms creates no atoms. -/
theorem Faithful.deny {constraints : List Constraint} {engine : Engine}
    (faithful : Faithful constraints engine) {atoms : List Nat}
    (inside : ∀ atom ∈ atoms, atom < engine.atomCount)
    (assignment : Nat → Bool) :
    Retains (constraints ++ [.clause (denial atoms assignment)]) engine
      (engine.addClause (denial atoms assignment)) := by
  have submitted := faithful.valid.addClause (denial atoms assignment)
  refine ⟨(faithful.submit (.clause (denial atoms assignment)) submitted).faithful, ?_,
    submitted.submits.options⟩
  refine submitted.count.trans (grownCountSame fun atom member => ?_)
  rw [denial, List.map_map] at member
  obtain ⟨listed, known, rfl⟩ := List.mem_map.1 member
  exact inside listed known

end Engine

/-- An enumeration has found these assignments and has denied all but the last possible one. -/
structure Enumerated (constraints : List Constraint) (atoms : List Nat) (rounds : Nat)
    (before after : Engine) (found : List (Nat → Bool)) : Prop where
  few : found.length ≤ rounds
  models : ∀ assignment ∈ found, Models constraints assignment
  distinct : (found.map (restriction atoms)).Nodup
  all : found.length < rounds → ∀ assignment, Models constraints assignment →
    restriction atoms assignment ∈ found.map (restriction atoms)
  count : after.atomCount = before.atomCount
  banned : ∃ requests, Engine.run requests before = .ok after ∧
    Engine.history requests =
      (found.take (rounds - 1)).map fun assignment => .clause (denial atoms assignment)

namespace Enumerated

variable {constraints : List Constraint} {atoms : List Nat} {environment : Environment}
  {before middle after : Engine}

/-- Without a round nothing happens. -/
theorem none : Enumerated constraints atoms 0 before before [] where
  few := Nat.le_refl 0
  models _ member := absurd member List.not_mem_nil
  distinct := List.nodup_nil
  all impossible := absurd impossible (Nat.not_lt_zero _)
  count := rfl
  banned := ⟨[], rfl, rfl⟩

/-- Without a model nothing is found. -/
theorem exhausted {rounds : Nat}
    (answered : before.solve environment [] = .ok (.unsatisfiable, middle))
    (count : middle.atomCount = before.atomCount)
    (none : ∀ assignment, ¬Models constraints assignment) :
    Enumerated constraints atoms rounds before middle [] where
  few := Nat.zero_le rounds
  models _ member := absurd member List.not_mem_nil
  distinct := List.nodup_nil
  all _ assignment model := absurd model (none assignment)
  count
  banned := ⟨[.solve environment []], Engine.runSolve answered, by
    rw [List.take_nil]
    rfl⟩

/-- The last model is not denied. -/
theorem last (answered : before.solve environment [] = .ok (.satisfiable, middle))
    (count : middle.atomCount = before.atomCount)
    (model : Models constraints middle.modelAssignment) :
    Enumerated constraints atoms 1 before middle [middle.modelAssignment] where
  few := Nat.le_refl 1
  models assignment member := by
    obtain rfl := List.mem_singleton.1 member
    exact model
  distinct := List.nodup_singleton _
  all impossible := absurd impossible (Nat.lt_irrefl 1)
  count
  banned := ⟨[.solve environment []], Engine.runSolve answered, rfl⟩

/-- A denied model is not found again, and no other projection is lost. -/
theorem next {rounds : Nat} {found : List (Nat → Bool)}
    (answered : before.solve environment [] = .ok (.satisfiable, middle))
    (count : middle.atomCount = before.atomCount)
    (model : Models constraints middle.modelAssignment)
    (kept : (middle.addClause (denial atoms middle.modelAssignment)).atomCount = middle.atomCount)
    (later : Enumerated (constraints ++ [.clause (denial atoms middle.modelAssignment)]) atoms
      (rounds + 1) (middle.addClause (denial atoms middle.modelAssignment)) after found) :
    Enumerated constraints atoms (rounds + 2) before after (middle.modelAssignment :: found) where
  few := Nat.succ_le_succ later.few
  models assignment member := by
    rcases List.mem_cons.1 member with rfl | member
    · exact model
    · exact ((modelsDenial _ _ _ _).1 (later.models assignment member)).1
  distinct := by
    rw [List.map_cons, List.nodup_cons]
    refine ⟨fun again => ?_, later.distinct⟩
    obtain ⟨assignment, member, same⟩ := List.mem_map.1 again
    exact ((modelsDenial _ _ _ _).1 (later.models assignment member)).2 same
  all fewer assignment satisfied := by
    rw [List.map_cons, List.mem_cons]
    by_cases same : restriction atoms assignment = restriction atoms middle.modelAssignment
    · exact Or.inl same
    · refine Or.inr (later.all ?_ assignment ((modelsDenial _ _ _ _).2 ⟨satisfied, same⟩))
      simpa using fewer
  count := later.count.trans (kept.trans count)
  banned := by
    obtain ⟨requests, ran, history⟩ := later.banned
    refine ⟨[.solve environment []] ++ .addClause (denial atoms middle.modelAssignment) :: requests,
      (Engine.runAppend (Engine.runSolve answered)).trans ran, ?_⟩
    change .clause (denial atoms middle.modelAssignment) :: Engine.history requests = _
    rw [history]
    rfl

end Enumerated

namespace Session

open Engine

/-- The rounds of an enumeration finish with what it has found, or they run out of steps. -/
def Finishes (constraints : List Constraint) (environment : Environment) (atoms : List Nat)
    (rounds : Nat) (format : SolutionFormat) (found : Array Solution) (before : Session Engine)
    (outcome : Except Error (Array Solution) × Session Engine) : Prop :=
  (outcome.1 = .error .unfinished ∧ OutOfSteps environment before.backend) ∨
    ∃ assignments, Enumerated constraints atoms rounds before.backend outcome.2.backend assignments ∧
      outcome.1 = .ok (found ++
        (assignments.map (Solution.ofAssignment before.backend.atomCount format)).toArray)

section Round

variable {environment : Environment} {selected : List Literal} {format : SolutionFormat}
  {session : Session Engine}

/-- A search that is stuck fails the whole call. -/
theorem onRoundUnfinished {stuck : Stuck}
    (answered : session.backend.solve environment [] = .error stuck) (rounds : Nat)
    (found : Array Solution) :
    (enumerateFrom environment selected format (rounds + 1) found).on session =
      (.error .unfinished, session) := by
  rw [enumerateFrom, Call.onBind, onRun, solveBytes, answered]
  rfl

/-- The rounds end when no model is left. -/
theorem onRoundExhausted {after : Engine}
    (answered : session.backend.solve environment [] = .ok (.unsatisfiable, after)) (rounds : Nat)
    (found : Array Solution) :
    (enumerateFrom environment selected format (rounds + 1) found).on session =
      (.ok found, { session with backend := after }) := by
  rw [enumerateFrom, Call.onBind, onRun, solveBytes, answered]
  simp only [Except.map, Verdict.ofByteToByte, Call.onPure]

/-- A model is presented, and it is denied if another round follows. -/
theorem onRoundFound {after : Engine}
    (answered : session.backend.solve environment [] = .ok (.satisfiable, after))
    (modelled : after.Modelled) (rounds : Nat) (found : Array Solution) :
    (enumerateFrom environment selected format (rounds + 1) found).on session =
      (enumerateFrom environment selected format rounds
        (found.push (.ofAssignment after.atomCount format after.modelAssignment))).on
        { session with
          backend := if 0 < rounds then
              after.addClause (denial (selectedAtoms selected) after.modelAssignment)
            else after } := by
  rw [enumerateFrom, Call.onBind, onRun, solveBytes, answered]
  simp only [Except.map, Verdict.ofByteToByte]
  rw [Call.onBind, onSolution, modelled.solution]
  simp only
  by_cases more : 0 < rounds
  · rw [if_pos more, if_pos more, Call.onBind, Call.onGet]
    simp only
    rw [Call.onBind, onUpdate, blockingClauseModel]
    rfl
  · rw [if_neg more, if_neg more]

end Round

theorem enumerateFromFinishes (environment : Environment) (selected : List Literal)
    (format : SolutionFormat) (rounds : Nat) {constraints : List Constraint}
    {session : Session Engine} (faithful : Faithful constraints session.backend)
    (unlimited : session.backend.options.Unlimited)
    (inside : ∀ atom ∈ selectedAtoms selected, atom < session.backend.atomCount)
    (found : Array Solution) :
    Finishes constraints environment (selectedAtoms selected) rounds format found session
      ((enumerateFrom environment selected format rounds found).on session) := by
  induction rounds generalizing constraints session found with
  | zero =>
      refine Or.inr ⟨[], .none, ?_⟩
      simp [enumerateFrom]
  | succ rounds inductionHypothesis =>
      have round := faithful.round unlimited environment
      generalize answered : session.backend.solve environment [] = answer at round
      cases round with
      | unfinished =>
          rw [onRoundUnfinished answered]
          exact Or.inl ⟨rfl, [], session.backend, rfl, answered⟩
      | exhausted retains none =>
          rw [onRoundExhausted answered]
          refine Or.inr ⟨[], .exhausted answered retains.count none, ?_⟩
          simp
      | @found after retains modelled model =>
          rw [onRoundFound answered modelled, retains.count]
          cases rounds with
          | zero =>
              refine Or.inr ⟨[after.modelAssignment], .last answered retains.count model, ?_⟩
              simp [enumerateFrom]
          | succ rounds =>
              rw [if_pos (Nat.succ_pos rounds)]
              have known : ∀ atom ∈ selectedAtoms selected, atom < after.atomCount := by
                rwa [retains.count]
              have denied := retains.faithful.deny known after.modelAssignment
              have request : Engine.run
                  [.addClause (denial (selectedAtoms selected) after.modelAssignment)] after =
                .ok (after.addClause (denial (selectedAtoms selected) after.modelAssignment)) := rfl
              have later := @inductionHypothesis _
                ⟨after.addClause (denial (selectedAtoms selected) after.modelAssignment),
                  session.traversing⟩ denied.faithful
                (by rwa [denied.options, retains.options]) (by rwa [denied.count])
                (found.push (.ofAssignment session.backend.atomCount format after.modelAssignment))
              rcases later with ⟨unfinished, out⟩ | ⟨assignments, enumerated, result⟩
              · exact Or.inl ⟨unfinished, .after (runSolve answered) (.after request out)⟩
              · refine Or.inr ⟨after.modelAssignment :: assignments,
                  .next answered retains.count model denied.count enumerated, ?_⟩
                apply result.trans
                rw [denied.count, retains.count]
                simp

/-- This is what the caller of an enumeration can rely on. -/
structure Exact (constraints : List Constraint) (selected : List Literal) (maximum : Nat)
    (before after : Session Engine) (assignments : List (Nat → Bool)) : Prop where
  atoms : after.atomCount = grownCount (selected.map Literal.atom) before.atomCount
  inside : ∀ constraint ∈ constraints, ∀ atom ∈ constraint.atoms, atom < after.atomCount
  length : assignments.length = min maximum (projections constraints (selectedAtoms selected)).ncard
  models : ∀ assignment ∈ assignments, Models constraints assignment
  distinct : (assignments.map (restriction (selectedAtoms selected))).Nodup
  clauses : after.clauseCount = before.clauseCount +
    if assignments.length = maximum then maximum - 1 else assignments.length
  banned : ∃ added, Engine.run added before.backend = .ok after.backend ∧
    history added = (assignments.take (maximum - 1)).map fun assignment =>
      .clause (denial (selectedAtoms selected) assignment)
  single : selectedAtoms selected = [] →
    (assignments.length = 1 ↔ 1 ≤ maximum ∧ ∃ assignment, Models constraints assignment)

/-- A selection that is decoded is created before the rounds begin. -/
theorem onEnumerate {environment : Environment} {maximum : Nat} {selected : List HostLiteral}
    {literals : List Literal} (decoded : Intake.clause selected = .ok literals)
    (format : SolutionFormat) (session : Session Engine) :
    (enumerate environment maximum selected format).on session =
      match (enumerateFrom environment literals format maximum #[]).on
        { session with backend := create (literals.map Literal.atom) session.backend } with
      | (.error error, after) => (.error error, after)
      | (.ok found, after) => (.ok found.toList, after) := by
  have begun : (enumerate environment maximum selected format).on session =
      (enumerateFrom environment literals format maximum #[] >>= fun found =>
        pure found.toList).on
        { session with backend := create (literals.map Literal.atom) session.backend } := by
    rw [enumerate, Call.onBind, decoded, Call.onLift]
    cases literals with
    | nil => rfl
    | cons first rest => rfl
  rw [begun, Call.onBind]
  generalize (enumerateFrom environment literals format maximum #[]).on
    { session with backend := create (literals.map Literal.atom) session.backend } = outcome
  obtain ⟨result, after⟩ := outcome
  cases result <;> rfl

/-- An enumeration that begins with the selected atoms keeps its promises. -/
theorem Exact.ofEnumerated {constraints : List Constraint} {selected : List Literal} {maximum : Nat}
    {before after : Session Engine} {assignments : List (Nat → Bool)}
    (faithful : Faithful constraints before.backend)
    (enumerated : Enumerated constraints (selectedAtoms selected) maximum
      (create (selected.map Literal.atom) before.backend) after.backend assignments) :
    Exact constraints selected maximum before after assignments := by
  obtain ⟨creating, created, silent⟩ := createRuns (selected.map Literal.atom) before.backend
  obtain ⟨banning, banned, history⟩ := enumerated.banned
  have ran : Engine.run (creating ++ banning) before.backend = .ok after.backend :=
    (runAppend created).trans banned
  have added : Engine.history (creating ++ banning) =
      (assignments.take (maximum - 1)).map fun assignment =>
        .clause (denial (selectedAtoms selected) assignment) := by
    rw [historyAppend, silent, List.nil_append, history]
  have served := (faithful.run (creating ++ banning) ran).faithful
  have length : assignments.length =
      min maximum (projections constraints (selectedAtoms selected)).ncard := by
    rw [← List.length_map (restriction (selectedAtoms selected))]
    refine lengthDistinct (Set.toFinite _) enumerated.distinct (fun values member => ?_)
      (by rw [List.length_map]; exact enumerated.few) fun fewer values whole => ?_
    · obtain ⟨assignment, listed, same⟩ := List.mem_map.1 member
      exact ⟨assignment, enumerated.models assignment listed, same⟩
    · obtain ⟨assignment, model, rfl⟩ := whole
      rw [List.length_map] at fewer
      exact enumerated.all fewer assignment model
  exact
    { atoms := enumerated.count.trans (atomCountCreate _ _)
      inside := fun constraint member => served.inside constraint (List.mem_append_left _ member)
      length
      models := enumerated.models
      distinct := enumerated.distinct
      clauses := by
        have few := enumerated.few
        have submitted : after.backend.submitted = before.backend.submitted +
            min (maximum - 1) assignments.length := by
          rw [served.submitted, faithful.submitted, List.length_append, added, List.length_map,
            List.length_take]
        refine submitted.trans (congrArg _ ?_)
        split
        · omega
        · omega
      banned := ⟨creating ++ banning, ran, added⟩
      single := fun empty => by
        obtain ⟨atMostOne, positive⟩ := projectionsSingle constraints empty
        rw [length, ← positive]
        omega }

/-- Whatever the engine has served before, an enumeration without limits never fails and never gives
up: unless one of its searches has no steps left, it finds as many solutions as it may, or one for
each projection of the models. -/
theorem enumerationExact {options : Options} {requests : List Request} {session : Session Engine}
    (reached : Engine.run requests (ofOptions options) = .ok session.backend)
    (unlimited : session.backend.options.Unlimited) {selected : List HostLiteral}
    {literals : List Literal} (decoded : Intake.clause selected = .ok literals)
    {environment : Environment} {maximum : Nat} {format : SolutionFormat}
    {result : Except Error (List Solution)} {after : Session Engine}
    (called : (enumerate environment maximum selected format).on session = (result, after)) :
    (result = .error .unfinished ∧ OutOfSteps environment session.backend) ∨
      ∃ assignments,
        result = .ok (assignments.map (Solution.ofAssignment after.atomCount format)) ∧
        Exact (history requests) literals maximum session after assignments := by
  obtain ⟨creating, created, silent⟩ := createRuns (literals.map Literal.atom) session.backend
  have faithful := reachedFaithful reached
  have begun : Faithful (history requests)
      (create (literals.map Literal.atom) session.backend) := by
    have performed := (faithful.run creating created).faithful
    rwa [silent, List.append_nil] at performed
  have inside : ∀ atom ∈ selectedAtoms literals,
      atom < (create (literals.map Literal.atom) session.backend).atomCount := fun atom member => by
    obtain ⟨literal, chosen, rfl⟩ := List.mem_map.1 member
    rw [atomCountCreate, ← atomCountEnsureAtoms]
    exact ensureAtomsInside _ (List.mem_map_of_mem (List.mem_filter.1 chosen).1)
  have finishes := @enumerateFromFinishes environment literals format maximum _
    { session with backend := create (literals.map Literal.atom) session.backend } begun
    (by rwa [optionsCreate]) inside #[]
  rw [onEnumerate decoded] at called
  generalize (enumerateFrom environment literals format maximum #[]).on
    { session with backend := create (literals.map Literal.atom) session.backend } =
      outcome at finishes called
  obtain ⟨found, last⟩ := outcome
  rcases finishes with ⟨unfinished, out⟩ | ⟨assignments, enumerated, presented⟩
  · obtain rfl : found = .error .unfinished := unfinished
    obtain ⟨rfl, rfl⟩ := Prod.mk.inj called
    exact Or.inl ⟨rfl, .after created out⟩
  · obtain rfl : found = .ok _ := presented
    obtain ⟨rfl, rfl⟩ := Prod.mk.inj called
    refine Or.inr ⟨assignments, ?_, .ofEnumerated faithful enumerated⟩
    have count : last.atomCount =
        (create (literals.map Literal.atom) session.backend).atomCount := enumerated.count
    rw [count]
    simp

/-- This selection repeats an atom and negates another one. -/
def repeatedSelection : List HostLiteral :=
  [.integer 2, .integer (-1), .integer 4, .integer 2]

/-- This function runs the requests and then enumerates. -/
def enumerationAfter (requests : List Request) (maximum : Nat) (selected : List HostLiteral) :
    Except Stuck (Engine × Except Error (List Solution)) :=
  (Engine.run requests (ofOptions {})).map fun engine =>
    (engine, ((enumerate stillEnvironment maximum selected .dense).on (ofBackend engine)).1)

theorem enumerationAfterReached (requests : List Request) (maximum : Nat)
    (selected : List HostLiteral) (count : Nat)
    (ended : (enumerationAfter requests maximum selected).toOption.map (fun outcome =>
      (decide outcome.1.options.Unlimited, outcome.2.toOption.map List.length)) =
        some (true, some count)) :
    ∃ engine solutions after, Engine.run requests (ofOptions {}) = .ok engine ∧
      engine.options.Unlimited ∧
      (enumerate stillEnvironment maximum selected .dense).on (ofBackend engine) =
        (.ok solutions, after) ∧ solutions.length = count := by
  unfold enumerationAfter at ended
  generalize Engine.run requests (ofOptions {}) = reached at ended
  cases reached with
  | error stuck => contradiction
  | ok engine =>
      generalize called : (enumerate stillEnvironment maximum selected .dense).on
        (ofBackend engine) = outcome
      obtain ⟨result, after⟩ := outcome
      obtain ⟨unlimited, found⟩ := Prod.mk.inj (Option.some.inj ended)
      simp only [called] at found
      cases result with
      | error error => contradiction
      | ok solutions =>
          exact ⟨engine, solutions, after, rfl, of_decide_eq_true unlimited, called,
            Option.some.inj found⟩

theorem enumerationExactRepeated :
    ∃ engine solutions after assignments,
      Engine.run mixedRequests (ofOptions {}) = .ok engine ∧
      (enumerate stillEnvironment 5 repeatedSelection .dense).on (ofBackend engine) =
        (.ok solutions, after) ∧ solutions.length = 3 ∧
      solutions = assignments.map (Solution.ofAssignment after.atomCount .dense) ∧
      Exact (history mixedRequests) [⟨1, false⟩, ⟨0, true⟩, ⟨3, false⟩, ⟨1, false⟩] 5
        (ofBackend engine) after assignments := by
  obtain ⟨engine, solutions, after, reached, unlimited, called, length⟩ :=
    enumerationAfterReached mixedRequests 5 repeatedSelection 3 (by decide +kernel)
  have begun : Engine.run mixedRequests (ofOptions {}) = .ok (ofBackend engine).backend := reached
  have decoded : Intake.clause repeatedSelection =
    .ok [⟨1, false⟩, ⟨0, true⟩, ⟨3, false⟩, ⟨1, false⟩] := rfl
  rcases enumerationExact begun unlimited decoded called with
    ⟨impossible, -⟩ | ⟨assignments, presented, exact⟩
  · cases impossible
  · exact ⟨engine, solutions, after, assignments, reached, called, length,
      Except.ok.inj presented, exact⟩

end Session

end ParitySat
