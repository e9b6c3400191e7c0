/-
This file shows that a session takes back what it emits: its solutions and its learnt clauses are
over variables that a host can mention, unless more variables are declared.
-/

import ParitySat.Proofs.Engine.Redundancy
import ParitySat.Proofs.Session.Accounts
import ParitySat.Proofs.Session.Readmission
import ParitySat.Proofs.Session.Traversal

namespace ParitySat

open Engine
open HostLiteral (Mentionable)

/-- The dense format emits truth values and no literals. -/
def Solution.numbers : Solution → List Int
  | .dense _ => []
  | .raw solution => solution.literals

/-- Every number of the solution is a literal of an atom below the limit. -/
def Solution.Within (limit : Nat) (presented : Solution) : Prop :=
  ∀ number ∈ presented.numbers, ∃ literal : Literal,
    literal.external = number ∧ literal.atom < limit

open Solution (Within)

/-- A solution is over the atoms of its model. -/
theorem withinModel {model : List UInt8} {format : SolutionFormat} {solution : Solution}
    (presented : Solution.ofModel model format = .ok solution) : Within model.length solution := by
  cases format with
  | dense =>
      rw [Solution.ofModel] at presented
      cases dense : DenseSolution.ofModel model with
      | error error =>
          rw [dense] at presented
          cases presented
      | ok values =>
          rw [dense] at presented
          cases presented
          exact fun _ member => absurd member List.not_mem_nil
  | raw =>
      rw [Solution.ofModel, RawSolution.ofModel] at presented
      cases decoded : Truth.ofBytes model with
      | error error =>
          rw [decoded] at presented
          cases presented
      | ok values =>
          rw [decoded] at presented
          cases presented
          intro number member
          obtain ⟨⟨value, atom⟩, listed, same⟩ := List.mem_filterMap.1 member
          obtain ⟨known, -, written⟩ := Option.map_eq_some_iff.1 same
          refine ⟨_, written, ?_⟩
          have inside := (List.mem_zipIdx' listed).1
          rwa [traverseLength decoded] at inside

namespace Session

section Variables

/-- These counts are given without a literal. -/
def Event.declared : Event → List Nat
  | .call operation => operation.reservations
  | .ensureCapacity atom => [atom + 1]

theorem memberAccepted {α ε : Type} {results : List (Except ε α)} {value : α}
    (member : value ∈ accepted results) : .ok value ∈ results := by
  induction results with
  | nil => exact absurd member List.not_mem_nil
  | cons first rest inductionHypothesis =>
      cases first with
      | error error => exact absurd member List.not_mem_nil
      | ok accepts =>
          rcases List.mem_cons.1 member with rfl | later
          · exact List.mem_cons_self
          · exact List.mem_cons_of_mem _ (inductionHypothesis later)

theorem clauseRead {values : List HostLiteral} {constraint : Constraint}
    (read : .ok constraint = readClause values) :
    ∀ atom ∈ constraint.atoms, Mentionable atom := by
  rw [readClause] at read
  cases decoded : Intake.clause values with
  | error error =>
      rw [decoded] at read
      cases read
  | ok literals =>
      rw [decoded] at read
      cases read
      exact List.forall_mem_map.2 (Intake.clauseMentionable decoded)

theorem parityRead {values : List HostLiteral} {odd : Bool} {constraint : Constraint}
    (read : .ok constraint = readParity values odd) :
    ∀ atom ∈ constraint.atoms, Mentionable atom := by
  rw [readParity] at read
  cases decoded : Intake.parity values with
  | error error =>
      rw [decoded] at read
      cases read
  | ok atoms =>
      rw [decoded] at read
      cases read
      exact Intake.parityMentionable decoded

/-- Whatever constraint a caller passes, a host has mentioned its atoms. -/
theorem passedMentionable {operation : Operation} {constraint : Constraint}
    (passed : .ok constraint ∈ operation.passed) :
    ∀ atom ∈ constraint.atoms, Mentionable atom := by
  cases operation with
  | addClause literals => exact clauseRead (List.mem_singleton.1 passed)
  | addClauses batch reserved =>
      rw [Operation.passed] at passed
      cases given : batch.clauses with
      | error error =>
          rw [given] at passed
          exact absurd passed List.not_mem_nil
      | ok clauses =>
          rw [given] at passed
          obtain ⟨values, -, read⟩ := List.mem_map.1 passed
          exact clauseRead read.symm
  | addParity literals odd => exact parityRead (List.mem_singleton.1 passed)
  | addProblem problem =>
      rcases List.mem_append.1 passed with clause | line
      · obtain ⟨values, -, read⟩ := List.mem_map.1 clause
        exact clauseRead read.symm
      · obtain ⟨line, -, read⟩ := List.mem_map.1 line
        exact parityRead read.symm
  | _ => exact absurd passed List.not_mem_nil

/-- The bans of an enumeration are over its selection. -/
theorem bansSelected {environment : Environment} {selected : List Literal} {rounds : Nat}
    {engine : Engine} : ∀ ban ∈ bans environment selected rounds engine, ∀ literal ∈ ban,
      ∃ chosen ∈ selected, chosen.atom = literal.atom := by
  induction rounds using Nat.twoStepInduction generalizing engine with
  | zero => exact fun _ member => absurd member List.not_mem_nil
  | one => exact fun _ member => absurd member List.not_mem_nil
  | more rounds _ inductionHypothesis =>
      rw [bans]
      split
      · refine List.forall_mem_cons.2 ⟨fun literal member => ?_, inductionHypothesis⟩
        obtain ⟨chosen, listed, -, same⟩ := blockingMember member
        exact ⟨chosen, listed, same⟩
      · exact fun _ member => absurd member List.not_mem_nil

/-- An enumeration is about the atoms that its caller has selected. -/
theorem enumerationMentionable {operation : Operation} {session : Session Engine} :
    ∀ entry ∈ operation.enumeration session, ∀ bound ∈ entry.bounds,
      bound ≤ 1073741824 := by
  have atMost {atom : Nat} (mentionable : Mentionable atom) : atom + 1 ≤ 1073741824 :=
    (HostLiteral.mentionableIff atom).1 mentionable
  cases operation with
  | enumerate environment maximum values format =>
      rw [Operation.enumeration]
      cases decoded : Intake.clause values with
      | error error => exact fun _ member => absurd member List.not_mem_nil
      | ok selected =>
          have mentionable := Intake.clauseMentionable decoded
          refine List.forall_mem_cons.2 ⟨?_, List.forall_mem_map.2 fun ban member => ?_⟩
          · exact List.forall_mem_map.2 fun literal listed => atMost (mentionable literal listed)
          · refine List.forall_mem_map.2 (List.forall_mem_map.2 fun literal listed => ?_)
            obtain ⟨chosen, selects, same⟩ := bansSelected ban member literal listed
            exact atMost (same ▸ mentionable chosen selects)
  | _ => exact fun _ member => absurd member List.not_mem_nil

theorem entriesMentionable {event : Event} {session : Session Engine}
    (few : ∀ count ∈ event.declared, count ≤ 1073741824) :
    ∀ entry ∈ event.entries session, ∀ bound ∈ entry.bounds, bound ≤ 1073741824 := by
  cases event with
  | ensureCapacity atom => simpa [Event.entries, Entry.bounds, Event.declared] using few
  | call operation =>
      intro entry member
      rcases List.mem_append.1 member with asked | enumerated
      · rcases List.mem_append.1 asked with reserved | submitted
        · obtain ⟨count, listed, rfl⟩ := List.mem_map.1 reserved
          exact List.forall_mem_singleton.2 (few count listed)
        · obtain ⟨constraint, listed, rfl⟩ := List.mem_map.1 submitted
          have mentionable := passedMentionable (memberAccepted listed)
          exact List.forall_mem_map.2 fun atom known =>
            (HostLiteral.mentionableIff atom).1 (mentionable atom known)
      · exact enumerationMentionable entry enumerated

/-- One case for each event, and the accounts of a run are those of its events. -/
theorem ledgerMentionable {events : List Event} {session : Session Engine}
    (few : ∀ event ∈ events, ∀ count ∈ event.declared, count ≤ 1073741824) :
    ∀ entry ∈ ledger events session, ∀ bound ∈ entry.bounds, bound ≤ 1073741824 := by
  induction events generalizing session with
  | nil => exact fun _ member => absurd member List.not_mem_nil
  | cons event rest inductionHypothesis =>
      obtain ⟨own, later⟩ := List.forall_mem_cons.1 few
      exact List.forall_mem_append.2 ⟨entriesMentionable own, inductionHypothesis later⟩

theorem foldlAtMost {bounds : List Nat} {count limit : Nat} (start : count ≤ limit)
    (each : ∀ bound ∈ bounds, bound ≤ limit) : bounds.foldl max count ≤ limit := by
  induction bounds generalizing count with
  | nil => exact start
  | cons bound rest inductionHypothesis =>
      obtain ⟨own, later⟩ := List.forall_mem_cons.1 each
      exact inductionHypothesis (Nat.max_le.2 ⟨start, own⟩) later

theorem Notes.atMost {entries : List Entry} {known : List Constraint} {before after : Engine}
    {limit : Nat} (noted : Notes entries known before after) (start : before.atomCount ≤ limit)
    (each : ∀ entry ∈ entries, ∀ bound ∈ entry.bounds, bound ≤ limit) :
    after.atomCount ≤ limit := by
  refine noted.atoms.trans_le (foldlAtMost start fun bound member => ?_)
  obtain ⟨entry, listed, demanded⟩ := List.mem_flatMap.1 member
  exact each entry listed bound demanded

end Variables

section Emission

/-- A session mentions no variable that a host cannot mention. -/
structure Emits (session : Session Engine) : Prop where
  atoms : ∀ atom < session.atomCount, Mentionable atom
  solved : ∀ environment assumptions answered after,
    (solve environment assumptions).on session = (.ok (.satisfiable, answered), after) →
      ∀ format, ∃ presented, (solution format).on after = (.ok presented, after) ∧
        Within session.atomCount presented
  enumerated : ∀ environment maximum selected format solutions after,
    (enumerate environment maximum selected format).on session = (.ok solutions, after) →
      ∀ presented ∈ solutions, ∀ number ∈ presented.numbers, ∃ literal : Literal,
        literal.external = number ∧ Mentionable literal.atom
  delivered : ∀ clause after,
    Operation.nextClause.perform session = (.ok (.delivered (some clause)), after) →
      ∀ literal ∈ clause, literal.atom < session.atomCount

/-- A model without gaps is presented with the literals of its atoms. -/
theorem modelledWithin {engine : Engine} (modelled : engine.Modelled) (format : SolutionFormat) :
    Within engine.atomCount (.ofAssignment engine.atomCount format engine.modelAssignment) := by
  intro number member
  obtain ⟨literal, same, inside⟩ := withinModel (modelled.solution format) number member
  refine ⟨literal, same, ?_⟩
  have length : (Backend.model engine).toList.length = engine.atomCount := by
    simp [Backend.model, modelled.1]
  rwa [length] at inside

variable {known : List Constraint} {session : Session Engine}

/-- A satisfiable answer leaves a model of the variables that have existed before. -/
theorem solvedModelled (faithful : Faithful known session.backend) {environment : Environment}
    {assumptions : List HostLiteral} {answered : Option DenseSolution} {after : Session Engine}
    (called : (solve environment assumptions).on session =
      (.ok (.satisfiable, answered), after)) :
    after.backend.Modelled ∧ after.atomCount = session.atomCount := by
  have ended := (solveNotes faithful environment assumptions).atoms
  rw [called] at ended
  refine ⟨?_, ended⟩
  rw [onSolve, Call.onBind, Call.onLift] at called
  cases decoded : Intake.assumptions session.atomCount assumptions with
  | error error =>
      rw [decoded] at called
      cases called
  | ok literals =>
      rw [decoded] at called
      simp only at called
      have left := onAnswerAfter environment literals session
      have solved := faithful.valid.solve environment literals
      rw [called, onRun, solveBytes] at left
      unfold answer at called
      rw [Call.onBind, onRun, solveBytes] at called
      cases searched : session.backend.solve environment literals with
      | error stuck =>
          rw [searched] at called
          cases called
      | ok result =>
          obtain ⟨verdict, engine⟩ := result
          rw [searched] at called left solved
          simp only [Except.map, Verdict.ofByteToByte] at called left
          cases verdict with
          | satisfiable =>
              have modelled : engine.Modelled := solved.decides.1
              rw [left]
              exact modelled
          | unsatisfiable => cases called
          | unknown => cases called

theorem enumerateFromWithin {environment : Environment} {selected : List Literal}
    {format : SolutionFormat} {limit : Nat} (chosen : ∀ literal ∈ selected, literal.atom < limit)
    (rounds : Nat) (faithful : Faithful known session.backend) (few : session.atomCount ≤ limit)
    {found result : Array Solution} (earlier : ∀ presented ∈ found, Within limit presented)
    {after : Session Engine} (called : (enumerateFrom environment selected format rounds found).on
      session = (.ok result, after)) : ∀ presented ∈ result, Within limit presented := by
  induction rounds generalizing known session found with
  | zero =>
      cases called
      exact earlier
  | succ rounds inductionHypothesis =>
      have none : ∀ literal ∈ ([] : List Literal), literal.atom < session.backend.atomCount :=
        fun _ member => absurd member List.not_mem_nil
      have solved := faithful.valid.solve environment []
      cases answered : session.backend.solve environment [] with
      | error stuck =>
          rw [onRoundUnfinished answered] at called
          cases called
      | ok answer =>
          obtain ⟨verdict, engine⟩ := answer
          have noted := notesSolve faithful answered none
          rw [answered] at solved
          cases verdict with
          | unsatisfiable =>
              rw [onRoundExhausted answered] at called
              cases called
              exact earlier
          | unknown =>
              rw [onRoundUnknown answered] at called
              cases called
          | satisfiable =>
              obtain ⟨modelled, -, -⟩ := solved.decides
              have count : engine.atomCount ≤ limit := noted.atoms.trans_le few
              rw [onRoundFound answered modelled, ← blockingClauseModel] at called
              have extended : ∀ presented ∈ found.push
                  (.ofAssignment engine.atomCount format engine.modelAssignment),
                  Within limit presented := by
                intro presented member
                rcases Array.mem_push.1 member with before | rfl
                · exact earlier presented before
                · intro number listed
                  obtain ⟨literal, same, inside⟩ := modelledWithin modelled format number listed
                  exact ⟨literal, same, Nat.lt_of_lt_of_le inside count⟩
              cases rounds with
              | zero =>
                  rw [if_neg (Nat.lt_irrefl 0)] at called
                  exact @inductionHypothesis _ ⟨engine, session.traversing⟩ noted.faithful count _
                    extended called
              | succ rounds =>
                  rw [if_pos (Nat.succ_pos rounds)] at called
                  -- The ban stays over the selection, so the next round begins below the limit too.
                  have banned := notesBan noted.faithful
                    (blockingClause selected (Backend.model engine))
                  refine @inductionHypothesis _ ⟨_, session.traversing⟩ banned.faithful ?_ _
                    extended called
                  refine banned.atMost count (List.forall_mem_singleton.2 ?_)
                  refine List.forall_mem_map.2 (List.forall_mem_map.2 fun literal denied => ?_)
                  obtain ⟨selects, selected, -, same⟩ := blockingMember denied
                  exact same ▸ chosen selects selected

theorem enumerateWithin {environment : Environment} {maximum : Nat} {values : List HostLiteral}
    {selected : List Literal} {format : SolutionFormat} {limit : Nat}
    (faithful : Faithful known session.backend) (few : session.atomCount ≤ limit)
    (decoded : Intake.clause values = .ok selected)
    (chosen : ∀ literal ∈ selected, literal.atom < limit) {solutions : List Solution}
    {after : Session Engine} (called : (enumerate environment maximum values format).on session =
      (.ok solutions, after)) : ∀ presented ∈ solutions, Within limit presented := by
  have created := notesSelected faithful selected
  have count : (create (selected.map Literal.atom) session.backend).atomCount ≤ limit :=
    created.atMost few (List.forall_mem_singleton.2 (List.forall_mem_map.2 chosen))
  rw [onEnumerate decoded] at called
  generalize ended : (enumerateFrom environment selected format maximum #[]).on
    { session with backend := create (selected.map Literal.atom) session.backend } = outcome
    at called
  obtain ⟨result, last⟩ := outcome
  cases result with
  | error error => cases called
  | ok found =>
      cases called
      have none : ∀ presented ∈ (#[] : Array Solution), Within limit presented :=
        fun _ member => absurd member (Array.not_mem_empty _)
      have within := @enumerateFromWithin _
        ⟨create (selected.map Literal.atom) session.backend, session.traversing⟩ environment
        selected format limit chosen maximum created.faithful count #[] found none _ ended
      exact fun presented member => within presented (Array.mem_toList_iff.1 member)

end Emission

section Delivery

/-- A learnt unit has been assigned, and every clause is stored over atoms that exist. -/
theorem smallLearntsInside {engine : Engine} (resting : engine.Resting)
    (irredundant : engine.Irredundant) (maximumLength maximumGlue : Nat) :
    ∀ clause ∈ engine.smallLearnts maximumLength maximumGlue, ∀ literal ∈ clause,
      literal.atom < engine.atomCount := by
  refine List.forall_mem_append.2 ⟨fun clause member => ?_, fun clause member => ?_⟩
  · split at member
    · obtain ⟨unit, learnt, rfl⟩ := List.mem_map.1 member
      have rooted := irredundant.rooted unit learnt
      exact List.forall_mem_singleton.2 (resting.shaped.trail.inside rooted.1)
    · exact absurd member List.not_mem_nil
  · obtain ⟨reference, learnt, small⟩ := List.mem_filterMap.1 member
    obtain ⟨-, same⟩ := Option.ite_none_right_eq_some.1 small
    rw [← Option.some.inj same]
    exact (resting.shaped.store.proper reference (resting.registered.inside learnt)).inside

/-- An open traversal that has clauses left delivers the first of them. -/
theorem nextLearntCases (engine : Engine) :
    (∃ first rest, engine.traversal = some (first :: rest) ∧
      engine.nextLearnt = (some first, { engine with traversal := some rest })) ∨
    engine.nextLearnt = (none, engine) := by
  unfold Engine.nextLearnt
  split
  case h_1 first rest traversal => exact .inl ⟨first, rest, traversal, rfl⟩
  case h_2 => exact .inr rfl

/-- The engine of the session has served requests and nothing else. -/
def Reached (options : Options) (session : Session Engine) : Prop :=
  ∃ requests, Engine.run requests (ofOptions options) = .ok session.backend

/-- What an open traversal still delivers is over atoms that exist. -/
def DeliversInside (session : Session Engine) : Prop :=
  ∀ clauses, session.backend.traversal = some clauses →
    ∀ clause ∈ clauses, ∀ literal ∈ clause, literal.atom < session.atomCount

variable {options : Options} {session : Session Engine}

theorem configuredReached (options : Options) (config : Config) :
    Reached options (withConfig config (ofOptions options)) := by
  refine ⟨[.setOptions fun _ => (config.apply (ofOptions options)).options], ?_⟩
  exact congrArg Except.ok (applyOptions config (ofOptions options)).symm

theorem Reached.perform (reached : Reached options session) (event : Event) :
    Reached options (event.perform session) := by
  obtain ⟨requests, ran⟩ := reached
  have served : ∃ later, Engine.run later session.backend =
      .ok (event.perform session).backend := by
    cases event with
    | call operation => exact operationServed operation session
    | ensureCapacity atom => exact reserveRuns (atom + 1) session.backend
  obtain ⟨later, continued⟩ := served
  exact ⟨requests ++ later, (runAppend ran).trans continued⟩

/-- No event takes an atom away. -/
theorem Reached.grows (reached : Reached options session) (event : Event) :
    session.atomCount ≤ (event.perform session).atomCount := by
  obtain ⟨requests, ran⟩ := reached
  have noted := eventNotes (reachedFaithful ran) event
  exact (foldlMaximum _ _).trans_eq noted.atoms.symm

/-- An event that does not concern the traversal leaves it as it was. -/
theorem DeliversInside.keep {after : Session Engine} (delivers : DeliversInside session)
    (grows : session.atomCount ≤ after.atomCount)
    (same : after.backend.traversal = session.backend.traversal) : DeliversInside after := by
  intro clauses traversal clause member literal listed
  rw [same] at traversal
  exact Nat.lt_of_lt_of_le (delivers clauses traversal clause member literal listed) grows

/-- One case for each operation on the traversal. -/
theorem DeliversInside.perform (delivers : DeliversInside session)
    (reached : Reached options session) (event : Event) :
    DeliversInside (event.perform session) := by
  have grows := reached.grows event
  cases event with
  | ensureCapacity atom =>
      have independent := updateIndependent fun traversal engine =>
        reserveAttach traversal engine (atom + 1)
      exact delivers.keep grows (independent.keeps session).2
  | call operation =>
      -- Every other operation leaves alone what is still to be delivered.
      by_cases plain : operation.traverses = false
      · exact delivers.keep grows (performKeeps plain session).2
      · cases operation with
        | openTraversal maximumLength maximumGlue =>
            obtain ⟨requests, ran⟩ := reached
            have irredundant : session.backend.Irredundant :=
              maintainsIrredundant.requests requests (ofOptionsFaithful options)
                (ofOptionsResting options) (ofOptionsIrredundant options) ran
            intro clauses traversal
            rw [← Option.some.inj traversal]
            exact smallLearntsInside (reachedResting ran) irredundant maximumLength maximumGlue
        | nextClause =>
            change DeliversInside (Operation.nextClause.perform session).2
            rw [onNextClause]
            split
            · rcases nextLearntCases session.backend with ⟨first, rest, traversal, served⟩ | served
              · rw [served]
                intro clauses remaining clause member
                cases remaining
                exact delivers _ traversal clause (List.mem_cons_of_mem first member)
              · rw [served]
                exact delivers
            · exact delivers
        | closeTraversal =>
            change DeliversInside (Operation.closeTraversal.perform session).2
            rw [onCloseTraversal]
            simp only
            split
            · exact fun _ closed => absurd closed (Option.some_ne_none _).symm
            · exact delivers
        | _ => exact absurd rfl plain

theorem Reached.follow {events : List Event} (reached : Reached options session)
    (delivers : DeliversInside session) :
    Reached options (follow events session) ∧ DeliversInside (follow events session) := by
  induction events generalizing session with
  | nil => exact ⟨reached, delivers⟩
  | cons event rest inductionHypothesis =>
      exact inductionHypothesis (reached.perform event) (delivers.perform reached event)

/-- What is declared without a literal has to be in the range of the literals. -/
theorem Emits.ofReached {start : Session Engine} (reached : Reached options start)
    (empty : start.atomCount = 0) (closed : start.backend.traversal = none) {events : List Event}
    (few : ∀ event ∈ events, ∀ count ∈ event.declared, count ≤ 1073741824) :
    Emits (follow events start) := by
  have idle : DeliversInside start := fun clauses traversal => by
    rw [closed] at traversal
    cases traversal
  obtain ⟨⟨requests, ran⟩, delivers⟩ := @Reached.follow _ _ events reached idle
  have faithful := reachedFaithful ran
  have range : (follow events start).atomCount ≤ 1073741824 := by
    obtain ⟨begun, begins⟩ := reached
    have noted := followNotes (reachedFaithful begins) events
    exact noted.atMost (empty.trans_le (Nat.zero_le _)) (ledgerMentionable few)
  refine ⟨fun atom inside => ?_, ?_, ?_, fun clause after called => ?_⟩
  · exact (HostLiteral.mentionableIff atom).2 (Nat.lt_of_lt_of_le inside range)
  · intro environment assumptions answered after called format
    obtain ⟨modelled, count⟩ := solvedModelled faithful called
    refine ⟨_, (onSolution format after).trans
      (congrArg (·, after) (modelled.solution format)), ?_⟩
    exact count ▸ modelledWithin modelled format
  · intro environment maximum values format solutions after called presented member number listed
    cases decoded : Intake.clause values with
    | error error =>
        rw [onEnumerateDecoded, Call.onBind, Call.onLift, decoded] at called
        cases called
    | ok selected =>
        have chosen : ∀ literal ∈ selected, literal.atom < 1073741824 := fun literal selects =>
          (HostLiteral.mentionableIff _).1 (Intake.clauseMentionable decoded literal selects)
        obtain ⟨literal, same, inside⟩ :=
          enumerateWithin faithful range decoded chosen called presented member number listed
        exact ⟨literal, same, (HostLiteral.mentionableIff _).2 inside⟩
  · rw [onNextClause] at called
    split at called
    · rcases nextLearntCases (follow events start).backend with
        ⟨first, rest, traversal, served⟩ | served
      · rw [served] at called
        cases called
        exact delivers _ traversal clause List.mem_cons_self
      · rw [served] at called
        cases called
    · cases called

end Delivery

section Readmission

/-- Every literal of a variable that a host can mention is taken back, but for the one whose number
is too large by one, and sessions emit no other literals and no greater variables unless more
variables are declared. -/
theorem emissionsTakenBack :
    (∀ (value : HostLiteral) (literal : Literal), value.decode = .ok literal →
      literal.negate.toHost.decode =
        if literal.external = -1073741824 then .error (.invalidLiteral "1073741824" .outOfRange)
        else .ok literal.negate) ∧
      (∀ {β : Type} [Backend β] (session : Session β) (literals : List Literal),
        (∀ literal ∈ literals, Mentionable literal.atom ∧ literal.external ≠ 1073741824) →
          session.TakesBack literals) ∧
      (∀ (values : List HostLiteral) (selected : List Literal) (model : Array UInt8),
        Intake.clause values = .ok selected →
          ∀ literal ∈ blockingClause selected model, literal.toHost.decode = .ok literal) ∧
      (∀ (model : List UInt8) (format : SolutionFormat) (presented : Solution),
        Solution.ofModel model format = .ok presented → Within model.length presented) ∧
      ∀ (options : Options) (config : Config) (events : List Event),
        (∀ event ∈ events, ∀ count ∈ event.declared, count ≤ 1073741824) →
          Emits (follow events (ofBackend (ofOptions options))) ∧
            Emits (follow events (withConfig config (ofOptions options))) := by
  refine ⟨fun value literal => HostLiteral.decodeNegation, fun session literals known => ?_,
    fun values selected model decoded => blockingReadmitted decoded model,
    fun model format presented => withinModel, fun options config events few => ?_⟩
  · refine takesBack session fun literal member => ?_
    obtain ⟨mentionable, inside⟩ := known literal member
    rw [HostLiteral.decodeReadmitted mentionable, if_neg inside]
  · have configured : (config.apply (ofOptions options)).atomCount = 0 ∧
        (config.apply (ofOptions options)).traversal = none := by
      rw [applyOptions]
      exact ⟨rfl, rfl⟩
    exact ⟨.ofReached ⟨[], rfl⟩ rfl rfl few,
      .ofReached (configuredReached options config) configured.1 configured.2 few⟩

/-- Two variables are declared, and a clause mentions one more. -/
def declaringEvents : List Event :=
  [.call (.reserve 2), .call (.addClause [.integer (-1), .integer 3])]

def declaredSession : Session Engine :=
  follow declaringEvents (ofBackend (ofOptions {}))

/-- The greatest positive literal is taken back with either sign, and the least one as it is. -/
theorem emissionsTakenBackEdges :
    HostLiteral.decode (.integer 1073741823) = .ok ⟨1073741822, false⟩ ∧
      HostLiteral.decode (.integer (-1073741823)) = .ok ⟨1073741822, true⟩ ∧
      scriptedPair.TakesBack [⟨1073741822, false⟩, ⟨1073741823, true⟩] ∧
      blockingClause [⟨1073741822, false⟩] #[] = [⟨1073741822, false⟩] ∧
      (∀ literal ∈ blockingClause [⟨1073741822, false⟩] #[],
        literal.toHost.decode = .ok literal) ∧
      Within 3 (.raw ⟨[-1, 3]⟩) ∧
      ∃ after presented, (solve stillEnvironment [.integer (-2)]).on declaredSession =
          (.ok (.satisfiable, some ⟨[none, some false, some false, some false]⟩), after) ∧
        (solution .raw).on after = (.ok presented, after) ∧ presented.numbers = [-1, -2, -3] ∧
        Within 3 presented := by
  obtain ⟨negation, takes, bans, within, emits⟩ := emissionsTakenBack
  have greatest : HostLiteral.decode (.integer 1073741823) = .ok ⟨1073741822, false⟩ := rfl
  have decoded : Intake.clause [.integer 1073741823] = .ok [⟨1073741822, false⟩] := rfl
  have few : ∀ event ∈ declaringEvents, ∀ count ∈ event.declared, count ≤ 1073741824 := by
    simp [declaringEvents, Event.declared, Operation.reservations]
  have solved : ((solve stillEnvironment [.integer (-2)]).on declaredSession).1 =
      .ok (.satisfiable, some ⟨[none, some false, some false, some false]⟩) := by
    decide +kernel
  have numbers : ((solution .raw).on ((solve stillEnvironment [.integer (-2)]).on
      declaredSession).2).1.toOption.map Solution.numbers = some [-1, -2, -3] := by
    decide +kernel
  generalize called : (solve stillEnvironment [.integer (-2)]).on declaredSession = ended
    at solved numbers
  obtain ⟨result, after⟩ := ended
  obtain rfl := solved
  obtain ⟨presented, shown, inside⟩ :=
    (emits {} default declaringEvents few).1.solved _ _ _ _ called .raw
  rw [shown] at numbers
  refine ⟨greatest, negation _ _ greatest, takes scriptedPair _ ?_, rfl,
    bans _ _ #[] decoded, within [1, 2, 0] .raw _ rfl, after, presented, rfl, shown,
    Option.some.inj numbers, inside⟩
  have known (atom : Nat) (small : atom < 1073741824) : Mentionable atom :=
    (HostLiteral.mentionableIff atom).2 small
  simp only [List.forall_mem_cons]
  exact ⟨⟨known _ (by simp), by simp [Literal.external]⟩,
    ⟨known _ (by simp), by simp [Literal.external]⟩, by simp⟩

/-- The variable of the least literal is created, and its other literal is refused by every call. -/
def leastSession : Session ScriptedBackend :=
  ((addClause [.integer (-1073741824)]).on (ofBackend {})).2

theorem leastNotTakenBack :
    HostLiteral.decode (.integer (-1073741824)) = .ok ⟨1073741823, true⟩ ∧
      Literal.external (Literal.negate ⟨1073741823, true⟩) = 1073741824 ∧
      HostLiteral.decode (.integer 1073741824) =
        .error (.invalidLiteral "1073741824" .outOfRange) ∧
      (addClause [.integer (-1073741824)]).on (ofBackend {}) = (.ok (), leastSession) ∧
      leastSession.atomCount = 1073741824 ∧
      (addClause [.integer 1073741824]).on leastSession =
        (.error (.invalidLiteral "1073741824" .outOfRange), leastSession) ∧
      (addParity [.integer 1073741824] true).on leastSession =
        (.error (.invalidLiteral "1073741824" .outOfRange), leastSession) ∧
      (solve stillEnvironment [.integer 1073741824]).on leastSession =
        (.error (.invalidLiteral "1073741824" .outOfRange), leastSession) ∧
      (enumerate stillEnvironment 1 [.integer 1073741824] .raw).on leastSession =
        (.error (.invalidLiteral "1073741824" .outOfRange), leastSession) := by
  refine ⟨rfl, rfl, rfl, rfl, rfl, rfl, rfl, rfl, rfl⟩

end Readmission

end Session

end ParitySat
