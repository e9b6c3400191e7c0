/-
This file keeps accounts of a session: how many variables its calls have asked for and which
constraints they have submitted.
-/

import ParitySat.Proofs.Session.Batches
import ParitySat.Proofs.Session.Enumeration
import ParitySat.Proofs.Session.Problem
import ParitySat.Proofs.Session.Rejection

namespace ParitySat.Session

open Engine

/-- What the accounts say about a call. -/
inductive Entry where
  | reserved (count : Nat)
  | ensured (atom : Nat)
  | selected (literals : List Literal)
  | submitted (constraint : Constraint)

namespace Entry

/-- There are at least so many atoms afterwards. -/
def bounds : Entry → List Nat
  | .reserved count => [count]
  | .ensured atom => [atom + 1]
  | .selected literals => literals.map fun literal => literal.atom + 1
  | .submitted constraint => constraint.atoms.map (· + 1)

def constraint? : Entry → Option Constraint
  | .submitted constraint => some constraint
  | _ => none

end Entry

/-- This function is the greatest of zero and all bounds. -/
def required (entries : List Entry) : Nat :=
  (entries.flatMap Entry.bounds).foldl max 0

/-- This function lists the submitted constraints, repeated and trivial ones too. -/
def submissions (entries : List Entry) : List Constraint :=
  entries.filterMap Entry.constraint?

/-- This function lists the values before the first failure. -/
def accepted {α ε : Type} : List (Except ε α) → List α
  | .ok value :: rest => value :: accepted rest
  | _ => []

def readClause (literals : List HostLiteral) : Except Error Constraint :=
  (Intake.clause literals).map .clause

def readParity (literals : List HostLiteral) (odd : Bool) : Except Error Constraint :=
  (Intake.parity literals).map (.parity · odd)

/-- This function lists the clauses that ban the solutions of an enumeration.

The solution of the last round is not banned. -/
def bans (environment : Environment) (selected : List Literal) :
    Nat → Engine → List (List Literal)
  | rounds + 2, engine =>
    match engine.solve environment [] with
    | .ok (.satisfiable, after) =>
      let ban := blockingClause selected (Backend.model after)
      ban :: bans environment selected (rounds + 1) (after.addClause ban)
    | _ => []
  | _, _ => []

namespace Operation

def reservations : Operation → List Nat
  | .reserve count => [count]
  | .addClauses _ reserved => [reserved]
  | .addProblem problem => [problem.variableCount]
  | _ => []

/-- This function reads the constraints that the caller passes, and some may be no constraints. -/
def passed : Operation → List (Except Error Constraint)
  | .addClause literals => [readClause literals]
  | .addClauses batch _ =>
    match batch.clauses with
    | .ok clauses => clauses.map readClause
    | .error _ => []
  | .addParity literals odd => [readParity literals odd]
  | .addProblem problem =>
    problem.clauses.map (fun clause => readClause (clause.map HostLiteral.integer)) ++
      problem.parities.map fun line =>
        readParity (line.numbers.map HostLiteral.integer) line.parity
  | _ => []

/-- An enumeration creates what it selects, and it submits its bans. -/
def enumeration (session : Session Engine) : Operation → List Entry
  | .enumerate environment maximum selected _ =>
    match Intake.clause selected with
    | .ok literals =>
      .selected literals ::
        (bans environment literals maximum
          (create (literals.map Literal.atom) session.backend)).map (.submitted <| .clause ·)
    | .error _ => []
  | _ => []

def entries (operation : Operation) (session : Session Engine) : List Entry :=
  operation.reservations.map .reserved ++ (accepted operation.passed).map .submitted ++
    operation.enumeration session

/-- This function tells whether an operation can neither create a variable nor add a constraint. -/
def quiet : Operation → Bool
  | .reserve _ | .addClause _ | .addClauses _ _ | .addParity _ _ | .addProblem _
  | .enumerate _ _ _ _ => false
  | _ => true

end Operation

/-- The caller makes a call or asks the backend for a single atom. -/
inductive Event where
  | call (operation : Operation)
  | ensureCapacity (atom : Nat)

namespace Event

def entries (session : Session Engine) : Event → List Entry
  | .call operation => operation.entries session
  | .ensureCapacity atom => [.ensured atom]

/-- A failure is no reason to stop. -/
def perform (session : Session Engine) : Event → Session Engine
  | .call operation => (operation.perform session).2
  | .ensureCapacity atom => ((Session.ensureCapacity atom : Call Engine Unit).on session).2

def quiet : Event → Bool
  | .call operation => operation.quiet
  | .ensureCapacity _ => false

end Event

/-- This function lets all the events happen in their order. -/
def follow (events : List Event) (session : Session Engine) : Session Engine :=
  events.foldl Event.perform session

/-- This function lists what the accounts say about all the events. -/
def ledger : List Event → Session Engine → List Entry
  | [], _ => []
  | event :: rest, session => event.entries session ++ ledger rest (event.perform session)

/-- The engine knows the submitted constraints now, and no atom is missing or superfluous. -/
structure Notes (entries : List Entry) (known : List Constraint) (before after : Engine) :
    Prop where
  faithful : Faithful (known ++ submissions entries) after
  atoms : after.atomCount = (entries.flatMap Entry.bounds).foldl max before.atomCount

section Notes

variable {known : List Constraint} {engine after : Engine}

theorem submissionsAppend (first second : List Entry) :
    submissions (first ++ second) = submissions first ++ submissions second :=
  List.filterMap_append

theorem Notes.trans {first second : List Entry} {before middle : Engine}
    (left : Notes first known before middle)
    (right : Notes second (known ++ submissions first) middle after) :
    Notes (first ++ second) known before after where
  faithful := by
    rw [submissionsAppend, ← List.append_assoc]
    exact right.faithful
  atoms := by rw [right.atoms, left.atoms, List.flatMap_append, List.foldl_append]

theorem Notes.ofGains {entries : List Entry}
    (gains : Gains known (submissions entries) engine after)
    (atoms : after.atomCount = (entries.flatMap Entry.bounds).foldl max engine.atomCount) :
    Notes entries known engine after :=
  ⟨gains.faithful, atoms⟩

/-- The bounds of a list of atoms are the number that the engine grows to. -/
theorem foldlBounds (atoms : List Nat) (count : Nat) :
    (atoms.map (· + 1)).foldl max count = grownCount atoms count := by
  rw [List.foldl_map]
  rfl

/-- A constraint whose atoms have been created does not grow the engine any further. -/
theorem submittedCount (constraint : Constraint) {models extra : (Nat → Bool) → Prop}
    (submitted : Engine.Submitted models extra constraint.atoms
      (create constraint.atoms engine) after) :
    after.atomCount = ([Entry.submitted constraint].flatMap Entry.bounds).foldl max
      engine.atomCount := by
  rw [submitted.count, atomCountCreate, List.flatMap_singleton, Entry.bounds, foldlBounds]
  exact grownCountSame (grownCountBounds constraint.atoms engine.atomCount).2

variable (faithful : Faithful known engine)
include faithful

theorem notesNothing : Notes [] known engine engine :=
  .ofGains faithful.gainNothing rfl

theorem notesReserved (count : Nat) :
    Notes [.reserved count] known engine (Backend.reserve count engine) :=
  .ofGains (faithful.gainAtoms count) (reserveCounts Engine.counts ⟨known, faithful⟩ count).2

theorem notesEnsured (atom : Nat) :
    Notes [.ensured atom] known engine (Backend.ensureCapacity atom engine) :=
  .ofGains (faithful.gainAtoms (atom + 1))
    (reserveCounts Engine.counts ⟨known, faithful⟩ (atom + 1)).2

theorem notesSelected (literals : List Literal) :
    Notes [.selected literals] known engine (create (literals.map Literal.atom) engine) := by
  refine .ofGains (faithful.gainCreated _) ?_
  rw [atomCountCreate, ← foldlBounds, List.map_map, List.flatMap_singleton]
  rfl

theorem notesClause (literals : List Literal) :
    Notes [.submitted (.clause literals)] known engine (submit literals engine) := by
  refine .ofGains (faithful.gainClause literals) ?_
  rw [submitCreate]
  have created := faithful.gainCreated (literals.map Literal.atom)
  have submitted := created.faithful.valid.addClause literals
  exact submittedCount (.clause literals) submitted

theorem notesParity (atoms : List Nat) (odd : Bool) :
    Notes [.submitted (.parity atoms odd)] known engine (submitParity atoms odd engine) := by
  refine .ofGains (faithful.gainParity atoms odd) ?_
  have created := faithful.gainCreated atoms
  have submitted := created.faithful.valid.addParity atoms odd
  exact submittedCount (.parity atoms odd) submitted

/-- The engine itself creates the atoms of a ban that do not exist. -/
theorem notesBan (ban : List Literal) :
    Notes [.submitted (.clause ban)] known engine (engine.addClause ban) := by
  have submitted := faithful.valid.addClause ban
  refine ⟨(faithful.submit (.clause ban) submitted).faithful, ?_⟩
  rw [submitted.count, List.flatMap_singleton]
  exact (foldlBounds _ _).symm

theorem notesSolve {environment : Environment} {assumptions : List Literal}
    {answer : Verdict × Engine} (answered : engine.solve environment assumptions = .ok answer)
    (inside : ∀ literal ∈ assumptions, literal.atom < engine.atomCount) :
    Notes [] known engine answer.2 := by
  have performed : (Request.solve environment assumptions).perform engine =
      .ok (.verdict answer.1, answer.2) := by
    rw [Request.perform, answered]
    rfl
  have solved := faithful.valid.solve environment assumptions
  rw [answered] at solved
  refine ⟨(faithful.perform performed).faithful, ?_⟩
  rw [solved.count]
  exact grownCountSame (List.forall_mem_map.2 inside)

theorem notesRequest {request : Request} {reply : Reply}
    (silent : request.constraints = [])
    (performed : request.perform engine = .ok (reply, after))
    (atoms : after.atomCount = engine.atomCount) : Notes [] known engine after := by
  have kept := (faithful.perform performed).faithful
  rw [silent] at kept
  exact ⟨kept, atoms⟩

end Notes

section Submission

/-- The call submits the constraints one by one, up to the first one that is no constraint. -/
def Submitting (passed : List (Except Error Constraint)) (call : Call Engine Unit) : Prop :=
  ∀ (known : List Constraint) (session : Session Engine), Faithful known session.backend →
    Notes ((accepted passed).map .submitted) known session.backend (call.on session).2.backend ∧
      ∀ more, accepted (passed ++ more) =
        accepted passed ++ if (call.on session).1.isOk then accepted more else []

theorem submittingNothing : Submitting [] (pure ()) :=
  fun _ _ faithful => ⟨notesNothing faithful, fun _ => rfl⟩

theorem Submitting.bind {first second : List (Except Error Constraint)}
    {call next : Call Engine Unit} (earlier : Submitting first call)
    (later : Submitting second next) : Submitting (first ++ second) (do call; next) := by
  intro known session faithful
  obtain ⟨noted, more⟩ := earlier known session faithful
  rw [Call.onBind]
  generalize call.on session = ended at noted more
  obtain ⟨result, middle⟩ := ended
  cases result with
  | error error =>
      have ends : ∀ more, accepted (first ++ more) = accepted first := by
        simpa [Except.isOk, Except.toBool] using more
      simp only [List.append_assoc, ends]
      exact ⟨noted, fun _ => (List.append_nil _).symm⟩
  | ok done =>
      have goes : ∀ more, accepted (first ++ more) = accepted first ++ accepted more := more
      obtain ⟨notedLater, moreLater⟩ := later _ middle noted.faithful
      simp only [List.append_assoc, goes, List.map_append]
      exact ⟨noted.trans notedLater, fun others => congrArg _ (moreLater others)⟩

theorem submittingClause (literals : List HostLiteral) :
    Submitting [readClause literals] (addClause literals) := by
  intro known session faithful
  rw [onAddClause, readClause]
  cases Intake.clause literals with
  | error error => exact ⟨notesNothing faithful, fun _ => rfl⟩
  | ok decoded => exact ⟨notesClause faithful decoded, fun _ => rfl⟩

theorem submittingParity (literals : List HostLiteral) (odd : Bool) :
    Submitting [readParity literals odd] (addParity literals odd) := by
  intro known session faithful
  rw [addParity, Call.onBind, Call.onLift, readParity]
  cases Intake.parity literals with
  | error error => exact ⟨notesNothing faithful, fun _ => rfl⟩
  | ok atoms => exact ⟨notesParity faithful atoms odd, fun _ => rfl⟩

theorem submittingEach (clauses : List (List HostLiteral)) :
    Submitting (clauses.map readClause) (addEach clauses) := by
  induction clauses with
  | nil => exact submittingNothing
  | cons first rest inductionHypothesis => exact (submittingClause first).bind inductionHypothesis

theorem submittingLines (lines : List ParityLine) :
    Submitting (lines.map fun line =>
      readParity (line.numbers.map HostLiteral.integer) line.parity) (addParityLines lines) := by
  induction lines with
  | nil => exact submittingNothing
  | cons first rest inductionHypothesis =>
      exact (submittingParity _ first.parity).bind inductionHypothesis

end Submission

section Enumeration

variable {environment : Environment} {selected : List Literal} {format : SolutionFormat}
  {engine : Engine}

/-- Rounds that have begun with so many solutions have banned so many more. -/
def Counted (before rounds banned : Nat) : Except Error (Array Solution) → Prop
  | .ok found => before ≤ found.size ∧ banned = min (found.size - before) (rounds - 1)
  | .error error => error = .undetermined (before + banned) ∨ error = .unfinished

/-- The number of bans can be told from the answer.

An enumeration that is not finished has run out of its steps. -/
def Banned (maximum banned : Nat) : Except Error (List Solution) → Prop
  | .ok solutions => banned = min solutions.length (maximum - 1)
  | .error error => error = .undetermined banned ∨ error = .unfinished

/-- One more round has found one more solution and has banned it. -/
theorem Counted.next {before rounds banned : Nat} {result : Except Error (Array Solution)}
    (counted : Counted (before + 1) (rounds + 1) banned result) :
    Counted before (rounds + 2) (banned + 1) result := by
  cases result with
  | error error =>
      rcases counted with undetermined | unfinished
      · refine .inl (undetermined.trans ?_)
        rw [Nat.add_assoc, Nat.add_comm 1]
      · exact .inr unfinished
  | ok found =>
      obtain ⟨longer, same⟩ := counted
      exact ⟨by omega, by omega⟩

theorem bansEnded (ends : ∀ after, engine.solve environment [] ≠ .ok (.satisfiable, after))
    (rounds : Nat) : bans environment selected rounds engine = [] := by
  unfold bans
  split
  · split
    · next found => exact absurd found (ends _)
    · rfl
  · rfl

theorem bansFound {after : Engine}
    (answered : engine.solve environment [] = .ok (.satisfiable, after)) (rounds : Nat) :
    bans environment selected (rounds + 2) engine =
      denial (selectedAtoms selected) after.modelAssignment ::
        bans environment selected (rounds + 1)
          (after.addClause (denial (selectedAtoms selected) after.modelAssignment)) := by
  rw [bans, answered]
  simp only [blockingClauseModel]

/-- The rounds stop when the verdict is unknown. -/
theorem onRoundUnknown {session : Session Engine} {after : Engine}
    (answered : session.backend.solve environment [] = .ok (.unknown, after)) (rounds : Nat)
    (found : Array Solution) :
    (enumerateFrom environment selected format (rounds + 1) found).on session =
      (.error (.undetermined found.size), { session with backend := after }) := by
  rw [enumerateFrom, Call.onBind, onRun, solveBytes, answered]
  simp only [Except.map, Verdict.ofByteToByte, Call.onThrow]

/-- The rounds submit their bans and nothing else, and every round but the last one has a ban. -/
theorem enumerateFromNotes (rounds : Nat) {known : List Constraint} {session : Session Engine}
    (faithful : Faithful known session.backend) (found : Array Solution) :
    Notes ((bans environment selected rounds session.backend).map (.submitted <| .clause ·))
        known session.backend
        ((enumerateFrom environment selected format rounds found).on session).2.backend ∧
      Counted found.size rounds (bans environment selected rounds session.backend).length
        ((enumerateFrom environment selected format rounds found).on session).1 := by
  induction rounds generalizing known session found with
  | zero => exact ⟨notesNothing faithful, Nat.le_refl _, by simp [bans]⟩
  | succ rounds inductionHypothesis =>
      have none : ∀ literal ∈ ([] : List Literal), literal.atom < session.backend.atomCount :=
        fun _ member => absurd member List.not_mem_nil
      have solved := faithful.valid.solve environment []
      cases answered : session.backend.solve environment [] with
      | error stuck =>
          rw [onRoundUnfinished answered, bansEnded (by simp [answered])]
          exact ⟨notesNothing faithful, .inr rfl⟩
      | ok answer =>
          obtain ⟨verdict, after⟩ := answer
          have noted := notesSolve faithful answered none
          rw [answered] at solved
          cases verdict with
          | unsatisfiable =>
              rw [onRoundExhausted answered, bansEnded (by simp [answered])]
              exact ⟨noted, Nat.le_refl _, by simp⟩
          | unknown =>
              rw [onRoundUnknown answered, bansEnded (by simp [answered])]
              exact ⟨noted, .inl rfl⟩
          | satisfiable =>
              obtain ⟨modelled, -, -⟩ := solved.decides
              rw [onRoundFound answered modelled]
              cases rounds with
              | zero =>
                  refine ⟨noted, ?_⟩
                  simp [enumerateFrom, Counted, bans]
              | succ rounds =>
                  rw [if_pos (Nat.succ_pos rounds), bansFound answered]
                  generalize denial (selectedAtoms selected) after.modelAssignment = ban
                  have banned := noted.trans (notesBan noted.faithful ban)
                  generalize Solution.ofAssignment after.atomCount format after.modelAssignment =
                    solution
                  have later := @inductionHypothesis _
                    ⟨after.addClause ban, session.traversing⟩ banned.faithful
                    (found.push solution)
                  have counted := later.2
                  rw [Array.size_push] at counted
                  exact ⟨banned.trans later.1, counted.next⟩

/-- An enumeration creates what it selects before it begins its rounds. -/
theorem enumerateNotes (maximum : Nat) {known : List Constraint} {session : Session Engine}
    (faithful : Faithful known session.backend) {chosen : List HostLiteral}
    {literals : List Literal} (decoded : Intake.clause chosen = .ok literals) :
    Notes ((Operation.enumerate environment maximum chosen format).enumeration session) known
        session.backend ((enumerate environment maximum chosen format).on session).2.backend ∧
      Banned maximum (bans environment literals maximum
          (create (literals.map Literal.atom) session.backend)).length
        ((enumerate environment maximum chosen format).on session).1 := by
  have selected := notesSelected faithful literals
  rw [onEnumerate decoded, Operation.enumeration, decoded]
  have rounds := @enumerateFromNotes environment literals format maximum _
    ⟨create (literals.map Literal.atom) session.backend, session.traversing⟩ selected.faithful #[]
  generalize (enumerateFrom environment literals format maximum #[]).on
    ⟨create (literals.map Literal.atom) session.backend, session.traversing⟩ = ended at rounds ⊢
  obtain ⟨result, after⟩ := ended
  obtain ⟨noted, counted⟩ := rounds
  refine ⟨?_, ?_⟩
  · cases result <;> exact selected.trans noted
  · cases result with
    | error error => simpa [Counted, Banned] using counted
    | ok found => simpa [Counted, Banned] using counted

end Enumeration

section Run

variable {known : List Constraint} {session : Session Engine}

/-- What is done with the outcome of a call leaves the session as the call has left it. -/
theorem onBindAfter {α γ : Type} (call : Call Engine α) {next : α → Call Engine γ}
    (still : ∀ value session, ((next value).on session).2 = session) (session : Session Engine) :
    ((call >>= next).on session).2 = (call.on session).2 := by
  rw [Call.onBind]
  generalize call.on session = ended
  obtain ⟨result, after⟩ := ended
  cases result with
  | error error => rfl
  | ok value => exact still value after

theorem onAnswerAfter (environment : Environment) (assumptions : List Literal)
    (session : Session Engine) :
    ((answer environment assumptions).on session).2 =
      ((run environment assumptions : Call Engine Verdict).on session).2 := by
  refine onBindAfter _ (fun verdict session => ?_) session
  split
  · rw [Call.onBind, Call.onGet]
    simp only
    rw [onBindAfter _ fun _ _ => rfl, Call.onLift]
  · rfl

variable (faithful : Faithful known session.backend)
include faithful

theorem runNotes (environment : Environment) {assumptions : List Literal}
    (inside : ∀ literal ∈ assumptions, literal.atom < session.backend.atomCount) :
    Notes [] known session.backend
      ((run environment assumptions : Call Engine Verdict).on session).2.backend := by
  rw [onRun, solveBytes]
  cases answered : session.backend.solve environment assumptions with
  | error stuck => exact notesNothing faithful
  | ok result => exact notesSolve faithful answered inside

theorem solveNotes (environment : Environment) (assumptions : List HostLiteral) :
    Notes [] known session.backend ((solve environment assumptions).on session).2.backend := by
  rw [onSolve, Call.onBind, Call.onLift]
  cases decoded : Intake.assumptions session.atomCount assumptions with
  | error error => exact notesNothing faithful
  | ok literals =>
      simp only
      rw [onAnswerAfter]
      exact runNotes faithful environment (Intake.assumptionsInside decoded)

/-- Options concern neither the variables nor the constraints. -/
theorem optionsNotes (change : Options → Options) :
    Notes [] known session.backend (updateOptions change session.backend) :=
  notesRequest faithful (rfl : (Request.setOptions change).constraints = []) rfl rfl

theorem addClausesNotes (batch : ClauseBatch) (reserved : Nat) :
    Notes ((Operation.addClauses batch reserved).entries session) known session.backend
      ((addClauses batch reserved).on session).2.backend := by
  have created := notesReserved faithful reserved
  have entries : (Operation.addClauses batch reserved).entries session =
      [.reserved reserved] ++
        (accepted (Operation.addClauses batch reserved).passed).map .submitted :=
    List.append_nil _
  rw [entries, onAddClauses, Operation.passed]
  cases batch.clauses with
  | error error => exact created
  | ok clauses =>
      have submitted := submittingEach clauses _
        { session with backend := Backend.reserve reserved session.backend } created.faithful
      exact created.trans submitted.1

theorem addProblemNotes (problem : Dimacs) :
    Notes ((Operation.addProblem problem).entries session) known session.backend
      ((addProblem problem).on session).2.backend := by
  have created := notesReserved faithful problem.variableCount
  have entries : (Operation.addProblem problem).entries session =
      [.reserved problem.variableCount] ++
        (accepted (Operation.addProblem problem).passed).map .submitted := List.append_nil _
  have afterwards : (addProblem problem).on session =
      (do
        addEach (problem.clauses.map (·.map HostLiteral.integer))
        addParityLines problem.parities : Call Engine Unit).on
          { session with backend := Backend.reserve problem.variableCount session.backend } := by
    rw [addProblem, Call.onBind, Call.onBind, onAddClauses]
    rfl
  have each := submittingEach (problem.clauses.map (·.map HostLiteral.integer))
  rw [List.map_map] at each
  have submitted := each.bind (submittingLines problem.parities) _
    { session with backend := Backend.reserve problem.variableCount session.backend }
    created.faithful
  rw [entries, afterwards]
  exact created.trans submitted.1

omit faithful in
theorem quietEntries {operation : Operation} (quiet : operation.quiet = true) :
    operation.entries session = [] := by
  cases operation <;> first | rfl | contradiction

/-- A search, an option and a traversal change neither the variables nor the constraints. -/
theorem quietNotes {operation : Operation} (quiet : operation.quiet = true) :
    Notes [] known session.backend (operation.perform session).2.backend := by
  cases operation with
  | solve environment assumptions =>
      rw [Operation.perform, Operation.call, onBindAfter _ fun _ _ => rfl]
      exact solveNotes faithful environment assumptions
  | isSatisfiable environment =>
      rw [Operation.perform, Operation.call, onBindAfter _ fun _ _ => rfl, Session.isSatisfiable,
        onBindAfter _ fun _ _ => rfl]
      exact runNotes faithful environment fun _ member => absurd member List.not_mem_nil
  | solution format =>
      rw [Operation.perform, Operation.call, onBindAfter _ fun _ _ => rfl, onSolution]
      exact notesNothing faithful
  | setVerbosity verbosity => exact optionsNotes faithful fun options => { options with verbosity }
  | setMaximumTime seconds =>
      exact optionsNotes faithful fun options =>
        { options with maximumTime := timeLimit seconds }
  | setMaximumConflicts conflicts =>
      exact optionsNotes faithful fun options =>
        { options with maximumConflicts := if 0 < conflicts then some conflicts else none }
  | setThreads threads =>
      exact optionsNotes faithful fun options => { options with threads := max threads 1 }
  | openTraversal maximumLength maximumGlue =>
      exact notesRequest faithful
        (rfl : (Request.openTraversal maximumLength maximumGlue).constraints = []) rfl rfl
  | nextClause =>
      have same : session.backend.nextLearnt.2.atomCount = session.backend.atomCount := by
        unfold Engine.nextLearnt
        split <;> rfl
      rw [onNextClause]
      split
      · exact notesRequest faithful (rfl : Request.nextLearnt.constraints = []) rfl same
      · exact notesNothing faithful
  | closeTraversal =>
      rw [onCloseTraversal]
      simp only
      split
      · exact notesRequest faithful (rfl : Request.closeTraversal.constraints = []) rfl rfl
      · exact notesNothing faithful
  | _ => contradiction

/-- The accounts tell what an operation does to the engine, whether it fails or not. -/
theorem operationNotes (operation : Operation) :
    Notes (operation.entries session) known session.backend
      (operation.perform session).2.backend := by
  by_cases quiet : operation.quiet = true
  · rw [quietEntries quiet]
    exact quietNotes faithful quiet
  · cases operation with
    | reserve count => exact notesReserved faithful count
    | addClause literals =>
        have entries : (Operation.addClause literals).entries session =
            (accepted [readClause literals]).map .submitted := List.append_nil _
        rw [entries, Operation.perform, Operation.call, onBindAfter _ fun _ _ => rfl]
        exact (submittingClause literals _ session faithful).1
    | addClauses batch reserved =>
        rw [Operation.perform, Operation.call, onBindAfter _ fun _ _ => rfl]
        exact addClausesNotes faithful batch reserved
    | addParity literals odd =>
        have entries : (Operation.addParity literals odd).entries session =
            (accepted [readParity literals odd]).map .submitted := List.append_nil _
        rw [entries, Operation.perform, Operation.call, onBindAfter _ fun _ _ => rfl]
        exact (submittingParity literals odd _ session faithful).1
    | addProblem problem =>
        rw [Operation.perform, Operation.call, onBindAfter _ fun _ _ => rfl]
        exact addProblemNotes faithful problem
    | enumerate environment maximum selected format =>
        rw [Operation.perform, Operation.call, onBindAfter _ fun _ _ => rfl]
        cases decoded : Intake.clause selected with
        | ok literals => exact (enumerateNotes maximum faithful decoded).1
        | error error =>
            rw [enumerate, Call.onBind, decoded, Call.onLift, Operation.entries,
              Operation.enumeration, decoded]
            exact notesNothing faithful
    | _ => exact absurd rfl quiet

theorem eventNotes (event : Event) :
    Notes (event.entries session) known session.backend (event.perform session).backend := by
  cases event with
  | call operation => exact operationNotes faithful operation
  | ensureCapacity atom => exact notesEnsured faithful atom

/-- The accounts of a run are the accounts of its events. -/
theorem followNotes (events : List Event) :
    Notes (ledger events session) known session.backend (follow events session).backend := by
  induction events generalizing known session with
  | nil => exact notesNothing faithful
  | cons event rest inductionHypothesis =>
      have noted := eventNotes faithful event
      exact noted.trans (inductionHypothesis noted.faithful)

end Run

section Accounts

/-- What the counts of variables and constraints are after any run from this session. -/
structure Accounts (start : Session Engine) (events : List Event) : Prop where
  atoms : (follow events start).atomCount = required (ledger events start)
  clauses : (follow events start).clauseCount = (submissions (ledger events start)).length
  grows : ∀ front rest, events = front ++ rest →
    (follow front start).atomCount ≤ (follow events start).atomCount ∧
      (follow front start).clauseCount ≤ (follow events start).clauseCount
  quiet : ∀ front event rest, events = front ++ event :: rest → event.quiet = true →
    (event.perform (follow front start)).atomCount = (follow front start).atomCount ∧
      (event.perform (follow front start)).clauseCount = (follow front start).clauseCount
  banned : ∀ front environment maximum selected format rest literals,
    events = front ++ .call (.enumerate environment maximum selected format) :: rest →
      Intake.clause selected = .ok literals →
        Banned maximum (bans environment literals maximum
            (create (literals.map Literal.atom) (follow front start).backend)).length
          ((enumerate environment maximum selected format).on (follow front start)).1

theorem foldlMaximum (bounds : List Nat) (count : Nat) : count ≤ bounds.foldl max count := by
  induction bounds generalizing count with
  | nil => exact Nat.le_refl count
  | cons bound rest inductionHypothesis =>
      exact Nat.le_trans (Nat.le_max_left count bound) (inductionHypothesis (max count bound))

theorem Notes.clauseCount {entries : List Entry} {known : List Constraint} {before after : Engine}
    (notes : Notes entries known before after) (faithful : Faithful known before) :
    after.clauseCount = before.clauseCount + (submissions entries).length := by
  have submitted := notes.faithful.submitted
  rw [List.length_append, ← faithful.submitted] at submitted
  exact submitted

theorem followAppend (front rest : List Event) (start : Session Engine) :
    follow (front ++ rest) start = follow rest (follow front start) :=
  List.foldl_append

/-- The accounts are kept from any session on whose engine is new. -/
theorem Accounts.ofFaithful {start : Session Engine} (faithful : Faithful [] start.backend)
    (empty : start.atomCount = 0) (events : List Event) : Accounts start events := by
  have front (events : List Event) := followNotes faithful events
  constructor
  · have atoms := (front events).atoms
    rw [show start.backend.atomCount = 0 from empty] at atoms
    exact atoms
  · have clauses := (front events).clauseCount faithful
    rw [show start.backend.clauseCount = 0 from faithful.submitted, Nat.zero_add] at clauses
    exact clauses
  · rintro earlier rest rfl
    have noted := followNotes (front earlier).faithful rest
    rw [followAppend]
    refine ⟨?_, ?_⟩
    · have atoms := noted.atoms
      exact (foldlMaximum _ _).trans_eq atoms.symm
    · have clauses := noted.clauseCount (front earlier).faithful
      exact (Nat.le_add_right _ _).trans_eq clauses.symm
  · intro earlier event rest _ quiet
    cases event with
    | ensureCapacity atom => contradiction
    | call operation =>
        have noted := quietNotes (front earlier).faithful quiet
        exact ⟨noted.atoms, noted.clauseCount (front earlier).faithful⟩
  · intro earlier environment maximum selected format rest literals _ decoded
    exact (enumerateNotes maximum (front earlier).faithful decoded).2

/-- A configuration sets options and nothing else. -/
theorem applyOptions (config : Config) (engine : Engine) : config.apply engine =
    updateOptions (fun _ => (config.apply engine).options) engine := by
  unfold Config.apply
  split <;> split <;> split <;> rfl

/-- Whatever a caller does, the variables are as many as the greatest demand, and the constraints as
many as the submissions.

A failing call demands and submits what comes before its failure, and an enumeration submits its
bans. -/
theorem accountsKept (options : Options) (config : Config) (events : List Event) :
    Accounts (ofBackend (ofOptions options)) events ∧
      Accounts (withConfig config (ofOptions options)) events := by
  have faithful := ofOptionsFaithful options
  refine ⟨.ofFaithful faithful rfl events, ?_⟩
  have configured : Notes [] [] (ofOptions options) (config.apply (ofOptions options)) := by
    rw [applyOptions]
    exact @optionsNotes [] (ofBackend (ofOptions options)) faithful _
  have begins : Faithful [] (withConfig config (ofOptions options)).backend := configured.faithful
  exact .ofFaithful begins configured.atoms events

/-- The second clause is refused, so the third is not submitted. -/
example :
    let events : List Event := [.call (.addClauses (.list [[.integer 1, .integer (-4)],
      [.integer 0], [.integer 9]]) 2), .ensureCapacity 4, .call (.addParity [.integer 3] true)]
    let entries := ledger events (ofBackend (ofOptions {}))
    required entries = 5 ∧
      submissions entries = [.clause [⟨0, false⟩, ⟨3, true⟩], .parity [2] true] :=
  ⟨rfl, rfl⟩

end Accounts

end ParitySat.Session
