/-
This file shows that a traversal of the learnt clauses delivers what it found when it was opened,
whatever the caller does in between, and that nothing else ever notices it.
-/

import Mathlib.Data.List.Induction
import ParitySat.Proofs.Engine.Portfolio
import ParitySat.Proofs.Session.Operations

namespace ParitySat

namespace Engine

section Attach

variable (traversal : Option (List (List Literal))) (engine : Engine)

theorem ensureAtomsAttach (atoms : List Nat) :
    (engine.attach traversal).ensureAtoms atoms = (engine.ensureAtoms atoms).attach traversal :=
  ensureAtomsCommute (attach traversal) (fun _ => rfl) (fun _ => rfl) atoms engine

theorem propagateRootAttach :
    (engine.attach traversal).propagateRoot = engine.propagateRoot.attach traversal := by
  have propagated : (engine.attach traversal).propagate =
      Prod.map id (attach traversal) engine.propagate := rfl
  unfold propagateRoot
  rw [propagated]
  obtain ⟨outcome, after⟩ := engine.propagate
  cases outcome <;> rfl

theorem addReducedAttach (literals : List Literal) :
    (engine.attach traversal).addReduced literals =
      (engine.addReduced literals).attach traversal := by
  match literals with
  | [] => rfl
  | [literal] => exact propagateRootAttach traversal (engine.enqueue literal none)
  | _ :: _ :: _ => rfl

theorem addSubstitutedAttach (constraint : ParityConstraint) :
    (engine.attach traversal).addSubstituted constraint =
      (engine.addSubstituted constraint).attach traversal := by
  obtain ⟨atoms, odd⟩ := constraint
  match atoms with
  | [] => cases odd <;> rfl
  | [atom] => exact propagateRootAttach traversal (engine.enqueue ⟨atom, !odd⟩ none)
  | _ :: _ :: _ => rfl

theorem submitAttach (atoms : List Nat) {absorb : Engine → Engine}
    (absorbs : ∀ before : Engine,
      absorb (before.attach traversal) = (absorb before).attach traversal) :
    (engine.attach traversal).submit atoms absorb =
      (engine.submit atoms absorb).attach traversal := by
  unfold submit
  simp only [ensureAtomsAttach]
  change (if _ then absorb ((engine.ensureAtoms atoms).counted.attach traversal) else _) = _
  rw [absorbs, apply_ite (attach traversal)]
  rfl

theorem addClauseAttach (literals : List Literal) :
    (engine.attach traversal).addClause literals =
      (engine.addClause literals).attach traversal := by
  rw [addClauseSubmit, addClauseSubmit, submitAttach]
  intro before
  have same : reduced? (before.attach traversal).network.trail literals =
      reduced? before.network.trail literals := rfl
  simp only [same]
  cases reduced? before.network.trail literals with
  | none => rfl
  | some kept => exact addReducedAttach traversal before kept

theorem addParityAttach (atoms : List Nat) (odd : Bool) :
    (engine.attach traversal).addParity atoms odd =
      (engine.addParity atoms odd).attach traversal := by
  rw [addParitySubmit, addParitySubmit, submitAttach]
  exact fun before => addSubstitutedAttach traversal before _

variable (environment : Environment) (assumptions : List Literal)

theorem searchWithAttach (budget : Budget) :
    searchWith environment budget assumptions (engine.attach traversal) =
      (searchWith environment budget assumptions engine).map
        (Prod.map id (attach traversal)) := by
  have relabelled := searchWithRelabel { engine.labels with traversal } environment budget
    assumptions engine
  change searchWith environment budget assumptions (engine.attach traversal) = _ at relabelled
  rw [relabelled]
  cases ended : searchWith environment budget assumptions engine with
  | error stuck => rfl
  | ok result =>
      have labels := searchWithLabels ended
      have same : result.2.relabel { engine.labels with traversal } =
          result.2.attach traversal := by
        rw [← labels]
        rfl
      exact congrArg (fun after => Except.ok (result.1, after)) same

/-- The workers of a portfolio never see the traversal. -/
theorem solvePortfolioAttach :
    (engine.attach traversal).solvePortfolio environment assumptions =
      (engine.solvePortfolio environment assumptions).map (Prod.map id (attach traversal)) := by
  have workers : (engine.attach traversal).runWorkers environment assumptions =
      engine.runWorkers environment assumptions := rfl
  rw [solvePortfolioEq, workers, solvePortfolioEq]
  cases engine.runWorkers environment assumptions <;> rfl

theorem solveAttach :
    (engine.attach traversal).solve environment assumptions =
      (engine.solve environment assumptions).map (Prod.map id (attach traversal)) := by
  have prepared : (engine.attach traversal).prepare assumptions =
      (engine.prepare assumptions).attach traversal :=
    ensureAtomsAttach traversal { engine with
      statistics := { engine.statistics with solves := engine.statistics.solves + 1 }
      model := #[] } _
  unfold Engine.solve
  simp only [prepared, apply_ite (Except.map (Prod.map id (attach traversal))),
    ← solvePortfolioAttach, ← searchWithAttach]
  rfl

end Attach

end Engine

/-- A call neither looks at the traversal nor changes it. -/
def Call.Independent {α : Type} (call : Call Engine α) : Prop :=
  ∀ traversal traversing session, call.on (session.attach traversal traversing) =
    ((call.on session).1, (call.on session).2.attach traversal traversing)

/-- Whatever is attached stays attached. -/
theorem Call.Independent.keeps {α : Type} {call : Call Engine α} (independent : call.Independent)
    (session : Session Engine) :
    (call.on session).2.traversing = session.traversing ∧
      (call.on session).2.backend.traversal = session.backend.traversal := by
  have same := independent session.backend.traversal session.traversing session
  change call.on session = _ at same
  exact ⟨congrArg (fun ended : Except Error α × Session Engine => ended.2.traversing) same,
    congrArg (fun ended : Except Error α × Session Engine => ended.2.backend.traversal) same⟩

namespace Session

theorem reserveAttach (traversal : Option (List (List Literal))) (engine : Engine) (count : Nat) :
    Backend.reserve count (engine.attach traversal) =
      (Backend.reserve count engine).attach traversal := by
  unfold Backend.reserve
  rw [apply_ite (Engine.attach traversal)]
  exact ite_congr rfl
    (fun _ => Engine.addAtomsCommute (Engine.attach traversal) (fun _ => rfl) _ engine) fun _ => rfl

theorem createAttach (traversal : Option (List (List Literal))) (engine : Engine)
    (atoms : List Nat) :
    Engine.create atoms (engine.attach traversal) =
      (Engine.create atoms engine).attach traversal := by
  unfold Engine.create Backend.ensureCapacity
  rw [apply_ite (Engine.attach traversal), reserveAttach]

theorem updateIndependent {change : Engine → Engine}
    (commutes : ∀ traversal engine,
      change (Engine.attach traversal engine) = (change engine).attach traversal) :
    Call.Independent (update change) := by
  intro traversal traversing session
  have same : change (session.attach traversal traversing).backend =
      (change session.backend).attach traversal := commutes traversal session.backend
  rw [onUpdate, onUpdate, same]
  rfl

theorem independentCompositional : Compositional fun _ call => call.Independent where
  pure _ _ _ _ := rfl
  throw _ _ _ _ := rfl
  lift result traversal traversing session := by rw [Call.onLift, Call.onLift]
  bind first second traversal traversing session := by
    rw [Call.onBind, Call.onBind, first]
    generalize Call.on _ session = ended
    obtain ⟨result, after⟩ := ended
    cases result with
    | error error => rfl
    | ok value => exact second value traversal traversing after
  read same each traversal traversing session := by
    rw [Call.onBind, Call.onBind, Call.onGet, Call.onGet]
    simp only [same]
    exact each session traversal traversing session
  reserve count := updateIndependent fun traversal engine => reserveAttach traversal engine count
  submit literals := updateIndependent fun traversal engine => by
    rw [Engine.submitCreate, Engine.submitCreate, createAttach, Engine.addClauseAttach]
  deny literals := updateIndependent fun traversal engine =>
    Engine.addClauseAttach traversal engine literals
  submitParity atoms odd := updateIndependent fun traversal engine => by
    change (Engine.create atoms (engine.attach traversal)).addParity atoms odd = _
    rw [createAttach, Engine.addParityAttach]
    rfl
  configure change := updateIndependent fun _ _ => rfl
  run environment assumptions traversal traversing session := by
    have same : (session.attach traversal traversing).backend.solve environment assumptions =
        (session.backend.solve environment assumptions).map
          (Prod.map id (Engine.attach traversal)) :=
      Engine.solveAttach traversal session.backend environment assumptions
    rw [onRun, onRun, Engine.solveBytes, Engine.solveBytes, same]
    cases session.backend.solve environment assumptions <;> rfl

theorem performIndependent {operation : Operation} (other : operation.traverses = false)
    (traversal : Option (List (List Literal))) (traversing : Bool) (session : Session Engine) :
    operation.perform (session.attach traversal traversing) =
      ((operation.perform session).1, (operation.perform session).2.attach traversal traversing) :=
  operationComposed independentCompositional other traversal traversing session

theorem performKeeps {operation : Operation} (other : operation.traverses = false)
    (session : Session Engine) :
    (operation.perform session).2.traversing = session.traversing ∧
      (operation.perform session).2.backend.traversal = session.backend.traversal :=
  Call.Independent.keeps (operationComposed independentCompositional other) session

/-- The references of a snapshot are the learnt clauses within the bounds that have not been
deleted, each of them once and in the order of the engine's list. -/
structure Collected (engine : Engine) (maximumLength maximumGlue : Nat)
    (references : List Nat) : Prop where
  ordered : references.Sublist engine.learnts.toList
  distinct : references.Nodup
  member : ∀ reference, reference ∈ references ↔
    reference < engine.network.store.clauses.size ∧
      (engine.network.store.clause reference).learnt = true ∧
      (engine.network.store.clause reference).deleted = false ∧
      (engine.network.store.clause reference).length ≤ maximumLength ∧
      (engine.network.store.clause reference).glue ≤ maximumGlue

/-- A snapshot holds the learnt units first, if the bounds admit them, and then the collected
clauses as they are stored. -/
def Snapshot (engine : Engine) (maximumLength maximumGlue : Nat)
    (clauses : List (List Literal)) : Prop :=
  ∃ references, Collected engine maximumLength maximumGlue references ∧
    clauses =
      (if 1 ≤ maximumLength ∧ 1 ≤ maximumGlue then engine.learntUnits.toList.map ([·]) else []) ++
        references.map engine.network.store.literals

/-- A traversal opens with a snapshot of an engine at rest. -/
theorem smallLearntsSnapshot {engine : Engine} (registered : engine.Registered)
    (maximumLength maximumGlue : Nat) :
    Snapshot engine maximumLength maximumGlue
      (engine.smallLearnts maximumLength maximumGlue) := by
  let small (reference : Nat) : Bool :=
    !(engine.network.store.clause reference).deleted &&
      (engine.network.store.clause reference).length ≤ maximumLength &&
      (engine.network.store.clause reference).glue ≤ maximumGlue
  have clauses (references : List Nat) : references.filterMap (fun reference =>
      if small reference then some (engine.network.store.clause reference).literals else none) =
        (references.filter small).map engine.network.store.literals := by
    induction references with
    | nil => rfl
    | cons first rest inductionHypothesis =>
        rw [List.filterMap_cons, List.filter_cons]
        cases small first with
        | false => exact inductionHypothesis
        | true => exact congrArg (_ :: ·) inductionHypothesis
  refine ⟨engine.learnts.toList.filter small, ⟨List.filter_sublist, ?_, fun reference => ?_⟩, ?_⟩
  · exact registered.distinct.sublist List.filter_sublist
  · rw [List.mem_filter, registered.member]
    constructor
    · rintro ⟨learnt, fits⟩
      have inside := registered.inside (registered.member.2 learnt)
      simp only [small, Bool.and_eq_true, Bool.not_eq_true', decide_eq_true_eq] at fits
      exact ⟨inside, learnt, fits.1.1, fits.1.2, fits.2⟩
    · rintro ⟨-, learnt, live, short, low⟩
      refine ⟨learnt, ?_⟩
      simp only [small, live, Bool.not_false, Bool.true_and, Bool.and_eq_true, decide_eq_true_eq]
      exact ⟨short, low⟩
  · rw [← clauses]
    refine congrArg (· ++ _) (ite_congr ?_ (fun _ => rfl) fun _ => rfl)
    rw [Bool.and_eq_true, decide_eq_true_eq, decide_eq_true_eq]

namespace Operation

/-- This function tells whether an operation begins or ends a traversal. -/
def delimits : Operation → Bool
  | .openTraversal _ _ | .closeTraversal => true
  | _ => false

/-- This function tells whether an operation asks for the next clause. -/
def advances : Operation → Bool
  | .nextClause => true
  | _ => false

end Operation

/-- The session delivers this list from now on. -/
structure Delivers (clauses : List (List Literal)) (session : Session Engine) : Prop where
  traversing : session.traversing = true
  traversal : session.backend.traversal = some clauses

theorem Delivers.nextClause {clauses : List (List Literal)} {session : Session Engine}
    (delivers : Delivers clauses session) :
    (Operation.nextClause.perform session).1 = .ok (.delivered clauses.head?) ∧
      Delivers (clauses.drop 1) (Operation.nextClause.perform session).2 := by
  rw [onNextClause, if_pos delivers.traversing, Engine.nextLearnt, delivers.traversal]
  cases clauses with
  | nil => exact ⟨rfl, delivers⟩
  | cons first rest => exact ⟨rfl, delivers.traversing, rfl⟩

/-- Only the next clause is ever taken from the list. -/
theorem Delivers.serve {between : List Operation} {clauses : List (List Literal)}
    {session : Session Engine} (delivers : Delivers clauses session)
    (within : ∀ operation ∈ between, operation.delimits = false) :
    Delivers (clauses.drop (between.countP Operation.advances))
      (Session.serve between session) := by
  induction between generalizing clauses session with
  | nil => exact delivers
  | cons operation rest inductionHypothesis =>
      have later := fun other member => within other (List.mem_cons_of_mem _ member)
      rw [List.countP_cons]
      by_cases plain : operation.traverses = false
      · have idle : operation.advances = false := by
          cases operation <;> first | rfl | contradiction
        obtain ⟨traversing, traversal⟩ := performKeeps plain session
        rw [idle]
        exact inductionHypothesis ⟨traversing.trans delivers.traversing,
          traversal.trans delivers.traversal⟩ later
      · have own := within operation List.mem_cons_self
        cases operation with
        | nextClause =>
            have next := inductionHypothesis delivers.nextClause.2 later
            rw [List.drop_drop, Nat.add_comm] at next
            exact next
        | openTraversal _ _ | closeTraversal => contradiction
        | _ => exact absurd rfl plain

/-- The last operation is the end of the part after an opening, or the opening itself. -/
theorem openedSnoc (operations : List Operation) (operation : Operation) :
    (∃ before maximumLength maximumGlue between,
      operations ++ [operation] = before ++ .openTraversal maximumLength maximumGlue :: between ∧
        Operation.closeTraversal ∉ between) ↔
      (∃ maximumLength maximumGlue, operation = .openTraversal maximumLength maximumGlue) ∨
      operation ≠ .closeTraversal ∧ ∃ before maximumLength maximumGlue between,
        operations = before ++ .openTraversal maximumLength maximumGlue :: between ∧
          Operation.closeTraversal ∉ between := by
  constructor
  · rintro ⟨before, maximumLength, maximumGlue, between, same, unclosed⟩
    induction between using List.reverseRecOn with
    | nil =>
        have last := (List.append_inj' same rfl).2
        exact Or.inl ⟨maximumLength, maximumGlue, (List.cons.inj last).1⟩
    | append_singleton between last _ =>
        rw [← List.cons_append, ← List.append_assoc] at same
        obtain ⟨initial, final⟩ := List.append_inj' same rfl
        obtain rfl := (List.cons.inj final).1
        rw [List.mem_append, not_or, List.mem_singleton] at unclosed
        exact Or.inr ⟨Ne.symm unclosed.2, before, maximumLength, maximumGlue, between, initial,
          unclosed.1⟩
  · rintro (⟨maximumLength, maximumGlue, rfl⟩ |
      ⟨other, before, maximumLength, maximumGlue, between, rfl, unclosed⟩)
    · exact ⟨operations, maximumLength, maximumGlue, [], rfl, List.not_mem_nil⟩
    · refine ⟨before, maximumLength, maximumGlue, between ++ [operation], ?_, ?_⟩
      · rw [List.append_assoc, List.cons_append]
      · rw [List.mem_append, not_or, List.mem_singleton]
        exact ⟨unclosed, Ne.symm other⟩

/-- A traversal is open if it has been opened and not closed since. -/
theorem servedTraversing (operations : List Operation) (engine : Engine) :
    (serve operations (ofBackend engine)).traversing = true ↔
      ∃ before maximumLength maximumGlue between,
        operations = before ++ .openTraversal maximumLength maximumGlue :: between ∧
          Operation.closeTraversal ∉ between := by
  induction operations using List.reverseRecOn with
  | nil => simp [serve, ofBackend]
  | append_singleton operations operation inductionHypothesis =>
      rw [openedSnoc, ← inductionHypothesis, serveAppend]
      generalize serve operations (ofBackend engine) = session
      change (operation.perform session).2.traversing = true ↔ _
      by_cases plain : operation.traverses = false
      · rw [(performKeeps plain session).1]
        cases operation <;> simp_all [Operation.traverses]
      · cases operation with
        | openTraversal maximumLength maximumGlue =>
            exact iff_of_true rfl (Or.inl ⟨maximumLength, maximumGlue, rfl⟩)
        | nextClause =>
            rw [onNextClause]
            split <;> simp_all
        | closeTraversal =>
            rw [onCloseTraversal]
            simp only
            split <;> simp_all
        | _ => exact absurd rfl plain

/-- Without the operations that concern the traversal all others answer the same. -/
theorem transcriptDetached (operations : List Operation) (session : Session Engine) :
    (transcript operations session).filter (fun entry => !entry.1.traverses) =
        transcript (operations.filter fun operation => !operation.traverses)
          (session.attach none false) ∧
      (serve operations session).attach none false =
        serve (operations.filter fun operation => !operation.traverses)
          (session.attach none false) := by
  induction operations generalizing session with
  | nil => exact ⟨rfl, rfl⟩
  | cons operation rest inductionHypothesis =>
      obtain ⟨answers, after⟩ := inductionHypothesis (operation.perform session).2
      rw [transcript, List.filter_cons, List.filter_cons]
      cases concerns : operation.traverses with
      | false =>
          have performed := performIndependent concerns none false session
          simp only [Bool.not_false, if_true]
          rw [transcript, performed, answers]
          refine ⟨rfl, after.trans ?_⟩
          exact (congrArg (fun ended : Except Error Answer × Session Engine =>
            serve _ ended.2) performed).symm
      | true =>
          have unchanged : (operation.perform session).2.attach none false =
              session.attach none false := by
            cases operation with
            | openTraversal maximumLength maximumGlue => rfl
            | nextClause =>
                rw [onNextClause]
                split
                · unfold Engine.nextLearnt
                  split <;> rfl
                · rfl
            | closeTraversal =>
                rw [onCloseTraversal]
                simp only
                split <;> rfl
            | _ => contradiction
          rw [unchanged] at answers after
          exact ⟨answers, after⟩

/-- This is what the caller of a traversal can rely on after any operations.

The next clause fails exactly if no traversal has been opened since the last one was closed.
Otherwise the clauses come from the snapshot at the last opening, one after the other, and there is
nothing left at its end.  Learnt units are never rearranged, a second closing does nothing, and
without the traversal every other operation has the same answers and leaves the same behind. -/
structure Traverses (start : Session Engine) (operations : List Operation) : Prop where
  idle : (Operation.nextClause.perform (serve operations start)).1 = .error .noTraversal ↔
    ¬∃ before maximumLength maximumGlue between,
      operations = before ++ .openTraversal maximumLength maximumGlue :: between ∧
        Operation.closeTraversal ∉ between
  delivers : ∀ before maximumLength maximumGlue between,
    operations = before ++ .openTraversal maximumLength maximumGlue :: between →
      (∀ operation ∈ between, operation.delimits = false) →
        ∃ clauses, Snapshot (serve before start).backend maximumLength maximumGlue clauses ∧
          (Operation.nextClause.perform (serve operations start)).1 =
            .ok (.delivered clauses[between.countP Operation.advances]?)
  units : ∀ before between, operations = before ++ between →
    (serve before start).backend.learntUnits.toList <+:
      (serve operations start).backend.learntUnits.toList
  closing : serve (operations ++ [.closeTraversal, .closeTraversal]) start =
    serve (operations ++ [.closeTraversal]) start
  answers : (transcript operations start).filter (fun entry => !entry.1.traverses) =
    transcript (operations.filter fun operation => !operation.traverses) start
  leaves : (serve operations start).attach none false =
    serve (operations.filter fun operation => !operation.traverses) start

/-- Every session that starts with a new engine delivers snapshots of its learnt clauses. -/
theorem traversalSnapshots (options : Options) (operations : List Operation) :
    Traverses (ofBackend (Engine.ofOptions options)) operations where
  idle := by
    rw [← servedTraversing, onNextClause]
    cases (serve operations (ofBackend (Engine.ofOptions options))).traversing <;> simp
  delivers before maximumLength maximumGlue between same within := by
    obtain ⟨requests, reached⟩ := servedRuns before (ofBackend (Engine.ofOptions options))
    have resting := Engine.reachedResting reached
    refine ⟨_, smallLearntsSnapshot resting.registered maximumLength maximumGlue, ?_⟩
    have opened : Delivers ((serve before (ofBackend (Engine.ofOptions options))).backend.smallLearnts
        maximumLength maximumGlue)
        (serve (before ++ [.openTraversal maximumLength maximumGlue])
          (ofBackend (Engine.ofOptions options))) := by
      rw [serveAppend]
      exact ⟨rfl, rfl⟩
    have answer := (opened.serve within).nextClause.1
    rw [← serveAppend, List.append_assoc, List.singleton_append, ← same] at answer
    rw [answer, List.head?_drop]
  units before between same := by
    obtain ⟨requests, reached⟩ := servedRuns before (ofBackend (Engine.ofOptions options))
    obtain ⟨later, ran⟩ := servedRuns between (serve before (ofBackend (Engine.ofOptions options)))
    rw [← serveAppend, ← same] at ran
    exact ((Engine.reachedFaithful reached).tendRun later (Engine.reachedResting reached) ran).units
  closing := by
    rw [serveAppend, serveAppend]
    generalize serve operations (ofBackend (Engine.ofOptions options)) = session
    obtain ⟨engine, traversing⟩ := session
    cases traversing <;> rfl
  answers := (transcriptDetached operations _).1
  leaves := (transcriptDetached operations _).2

end Session

end ParitySat
