/-
This file shows that no sequence of requests breaks a promise, whatever the caller asks for.
-/

import ParitySat.Proofs.Checked.Search

namespace ParitySat.Checked

open Engine

/-- A literal leaves 31 bits for the number of its atom. -/
def addAtom (engine : Engine) : Except Fault Engine := do
  require (engine.atomCount < 0x80000000) .manyAtoms
  let order ← queueAtom engine.order.grow engine.atomCount
  return { engine with
    network := engine.network.grow
    order
    marks := engine.marks.push false }

def addAtoms : Nat → Engine → Except Fault Engine
  | 0, engine => return engine
  | count + 1, engine => do
    let grown ← addAtom engine
    addAtoms count grown

def ensureAtoms : List Nat → Engine → Except Fault Engine
  | [], engine => return engine
  | atom :: rest, engine => do
    let grown ← addAtoms (atom + 1 - engine.atomCount) engine
    ensureAtoms rest grown

def propagateRoot (engine : Engine) : Except Fault Engine := do
  let _ ← propagate engine.network
  return engine.propagateRoot

/-- A new unit is assigned and propagated at once. -/
def assignRoot (engine : Engine) (literal : Literal) : Except Fault Engine := do
  let trail ← enqueue engine.network.trail literal none
  propagateRoot (engine.withTrail trail)

def addReduced (engine : Engine) : List Literal → Except Fault Engine
  | [] => return { engine with consistent := false }
  | [literal] => assignRoot engine literal
  | first :: second :: rest => do
    let store ← attach engine.network.store { literals := first :: second :: rest }
    return { engine with network := { engine.network with store } }

/-- The value of every literal is read before a literal is dropped. -/
def absorbClause (literals : List Literal) (engine : Engine) : Except Fault Engine := do
  each (fun literal => within engine.network.trail.atoms literal.atom) literals
  match reduced? engine.network.trail literals with
  | none => return engine
  | some literals => addReduced engine literals

def addSubstituted (engine : Engine) (constraint : ParityConstraint) : Except Fault Engine :=
  match constraint.atoms with
  | [] => return engine.addSubstituted constraint
  | [atom] => assignRoot engine ⟨atom, !constraint.parity⟩
  | _ :: _ :: _ => do
    each (within engine.network.parities.occurrences) constraint.atoms
    return engine.addSubstituted constraint

def absorbParity (atoms : List Nat) (parity : Bool) (engine : Engine) : Except Fault Engine := do
  each (within engine.network.trail.atoms) (ParityConstraint.normalize atoms)
  addSubstituted engine
    (substitute engine.network.trail parity (ParityConstraint.normalize atoms))

/-- A constraint may only be submitted while no level is open. -/
def submit (engine : Engine) (atoms : List Nat) (absorb : Engine → Except Fault Engine) :
    Except Fault Engine := do
  require (engine.level = 0) .openLevel
  let grown ← ensureAtoms atoms engine
  if grown.counted.consistent then absorb grown.counted else return grown.counted

def searchWith (environment : Environment) (budget : Budget) (assumptions : List Literal)
    (engine : Engine) : Except Fault (Except Stuck (Verdict × Engine)) := do
  let _ ← allowance engine.options 0
  let ended ← runSearch environment.generator budget assumptions environment.steps
    (Search.start engine)
  return ended.map fun result => (result.1, result.2.engine.conclude result.1)

def runWorker (environment : Environment) (assumptions : List Literal) (engine : Engine)
    (index : Nat) : Except Fault Unit := do
  let own := engine.worker index
  let _ ← searchWith environment
    (.ofOptions own.options own.statistics.conflicts (environment.clock index)
      (environment.signal index)) assumptions own

/-- Every worker of the pool searches, also one that does not win. -/
def solvePortfolio (environment : Environment) (assumptions : List Literal) (engine : Engine) :
    Except Fault (Except Stuck (Verdict × Engine)) := do
  require (0 < workerCount environment engine.options) .outOfBounds
  each (runWorker environment assumptions engine)
    (List.range (workerCount environment engine.options))
  return engine.solvePortfolio environment assumptions

def prepare (engine : Engine) (assumptions : List Literal) : Except Fault Engine :=
  ensureAtoms (assumptions.map Literal.atom) { engine with
    statistics := { engine.statistics with solves := engine.statistics.solves + 1 }
    model := #[] }

def solve (environment : Environment) (assumptions : List Literal) (engine : Engine) :
    Except Fault (Except Stuck (Verdict × Engine)) := do
  let prepared ← prepare engine assumptions
  if !prepared.consistent then return .ok (.unsatisfiable, prepared)
  else if 1 < prepared.options.threads then solvePortfolio environment assumptions prepared
  else
    searchWith environment
      (.ofOptions prepared.options prepared.statistics.conflicts (environment.clock 0) none)
      assumptions prepared

/-- A traversal reads every learnt clause. -/
def openTraversal (engine : Engine) (maximumLength maximumGlue : Nat) : Except Fault Engine := do
  each (within engine.network.store.clauses) engine.learnts.toList
  return engine.openTraversal maximumLength maximumGlue

def perform (engine : Engine) : Request → Except Fault (Except Stuck (Reply × Engine))
  | .addAtoms count => do
    let after ← addAtoms count engine
    return .ok (.done, after)
  | .addClause literals => do
    let after ← submit engine (literals.map Literal.atom) (absorbClause literals)
    return .ok (.accepted after.consistent, after)
  | .addParity atoms parity => do
    let after ← submit engine atoms (absorbParity atoms parity)
    return .ok (.accepted after.consistent, after)
  | .setOptions update => return .ok (.done, { engine with options := update engine.options })
  | .solve environment assumptions => do
    let answered ← solve environment assumptions engine
    return answered.map fun result => (.verdict result.1, result.2)
  | .openTraversal maximumLength maximumGlue => do
    let after ← openTraversal engine maximumLength maximumGlue
    return .ok (.done, after)
  | .nextLearnt => return .ok (.learnt engine.nextLearnt.1, engine.nextLearnt.2)
  | .closeTraversal => return .ok (.done, engine.closeTraversal)

/-- A broken promise or a limit ends the run with its fault. -/
def run : List Request → Engine → Except Fault (Except Stuck Engine)
  | [], engine => return .ok engine
  | request :: rest, engine => do
    match ← perform engine request with
    | .error stuck => return .error stuck
    | .ok (_, after) => run rest after

/-- A search of a call has its own budget, whether it is alone or one of the workers. -/
inductive Launched (environment : Environment) (prepared : Engine) : Budget → Engine → Prop where
  | alone (single : ¬1 < prepared.options.threads) :
      Launched environment prepared
        (.ofOptions prepared.options prepared.statistics.conflicts (environment.clock 0) none)
        prepared
  | worker {index : Nat} (several : 1 < prepared.options.threads)
      (inside : index < workerCount environment prepared.options) :
      Launched environment prepared
        (.ofOptions (prepared.worker index).options (prepared.worker index).statistics.conflicts
          (environment.clock index) (environment.signal index))
        (prepared.worker index)

/-- This function creates the atoms that a request mentions. -/
def grown (engine : Engine) : Request → Engine
  | .addAtoms count => Engine.addAtoms count engine
  | .addClause literals => engine.ensureAtoms (literals.map Literal.atom)
  | .addParity atoms _ => engine.ensureAtoms atoms
  | .solve _ assumptions => engine.prepare assumptions
  | _ => engine

/-- A literal cannot number all the atoms. -/
def Crowds (engine : Engine) (fault : Fault) : Prop :=
  fault = .manyAtoms ∧ 0x80000000 < engine.atomCount

/-- A search of the call restarts more often than a word can count. -/
def CallOutlasts (environment : Environment) (assumptions : List Literal) (prepared : Engine)
    (fault : Fault) : Prop :=
  ∃ budget worker, Launched environment prepared budget worker ∧
    Outlasts environment.generator budget assumptions (.start worker) fault

/-- A request mentions an atom that is too great, or one of its searches restarts too often. -/
inductive Beyond (engine : Engine) : Request → Fault → Prop where
  | atoms {request : Request} {fault : Fault} (many : Crowds (grown engine request) fault) :
      Beyond engine request fault
  | restarts {environment : Environment} {assumptions : List Literal} {fault : Fault}
      (consistent : (engine.prepare assumptions).consistent = true)
      (many : CallOutlasts environment assumptions (engine.prepare assumptions) fault) :
      Beyond engine (.solve environment assumptions) fault

/-- Some request goes beyond a limit when it is served. -/
def Overruns (requests : List Request) (start : Engine) (fault : Fault) : Prop :=
  ∃ earlier request later engine, requests = earlier ++ request :: later ∧
    Engine.run earlier start = .ok engine ∧ Beyond engine request fault

theorem Crowds.longer {before after : Engine} {fault : Fault}
    (atoms : before.atomCount ≤ after.atomCount) (crowds : Crowds before fault) :
    Crowds after fault :=
  ⟨crowds.1, Nat.lt_of_lt_of_le crowds.2 atoms⟩

section Growth

variable {engine : Engine} (resting : engine.Resting)
include resting

/-- Another atom has a place in the queue unless there are too many. -/
theorem addAtomAgrees : Agrees (Crowds engine.addAtom) engine.addAtom (addAtom engine) := by
  rw [addAtom]
  by_cases few : engine.atomCount < 0x80000000
  · obtain ⟨indexed, -⟩ := Queue.growIndexed resting.queued.indexed
    have tabled : Tabled engine.order.grow (engine.atomCount + 1) :=
      ⟨indexed, (Queue.capacityGrow _).trans (congrArg (· + 1) resting.queued.capacity),
        (Array.size_push _).trans (congrArg (· + 1) resting.ranked)⟩
    obtain ⟨queued, -⟩ := queueAtomSafe tabled (Nat.lt_succ_self engine.atomCount)
    rw [requireMet few, okBind, queued, okBind]
    exact .same
  · rw [require, if_neg few]
    refine .faulty ⟨rfl, ?_⟩
    rw [atomCountAddAtom]
    exact Nat.lt_succ_of_le (Nat.le_of_not_lt few)

theorem addAtomsAgrees (count : Nat) : Agrees (Crowds (Engine.addAtoms count engine))
    (Engine.addAtoms count engine) (addAtoms count engine) := by
  induction count generalizing engine with
  | zero => exact .same
  | succ count inductionHypothesis =>
      exact ((addAtomAgrees resting).mono fun _ => .longer (addAtomsGrows count _).atoms).bind
        (inductionHypothesis resting.addAtom)

theorem ensureAtomsAgrees (atoms : List Nat) : Agrees (Crowds (engine.ensureAtoms atoms))
    (engine.ensureAtoms atoms) (ensureAtoms atoms engine) := by
  induction atoms generalizing engine with
  | nil => exact .same
  | cons atom rest inductionHypothesis =>
      have rests : (engine.ensureAtom atom).Resting :=
        addAtomsInduction (fun _ rests => rests.addAtom) _ resting
      exact ((addAtomsAgrees resting _).mono fun _ => .longer (ensureAtomsGrows _ rest).atoms).bind
        (inductionHypothesis rests)

end Growth

section Submission

variable {models : (Nat → Bool) → Prop} {engine : Engine}

theorem propagateRootSafe (ready : engine.network.Ready) :
    propagateRoot engine = .ok engine.propagateRoot := by
  rw [propagateRoot, propagateSafe ready, okBind, pureOk]

theorem assignRootSafe (steady : engine.Steady models) (root : engine.level = 0)
    {literal : Literal} (inside : literal.atom < engine.atomCount)
    (unknown : engine.network.trail.atomValue literal.atom = none) :
    assignRoot engine literal = .ok (engine.enqueue literal none).propagateRoot := by
  have assigned := steady.ready.assignRoot root inside unknown
  rw [assignRoot, enqueueSafe inside unknown, okBind]
  exact propagateRootSafe assigned

theorem addReducedSafe (steady : engine.Steady models) (root : engine.level = 0)
    {literals reduced : List Literal} (kept : Reduced engine.network.trail literals reduced)
    (inside : ∀ literal ∈ literals, literal.atom < engine.atomCount) :
    addReduced engine reduced = .ok (engine.addReduced reduced) := by
  match reduced, kept with
  | [], _ => rfl
  | [literal], kept =>
      exact assignRootSafe steady root (inside literal (kept.member literal List.mem_cons_self))
        (kept.unknown literal List.mem_cons_self)
  | first :: second :: rest, kept =>
      have index (literal : Literal) (member : literal ∈ first :: second :: rest) :
          literal.index < engine.network.store.watches.size := by
        rw [steady.ready.shaped.store.width]
        exact ClauseStore.indexInside (inside literal (kept.member literal member))
      have attached : attach engine.network.store { literals := first :: second :: rest } = _ :=
        attachSafe rfl (index first List.mem_cons_self)
          (index second (List.mem_cons_of_mem _ List.mem_cons_self))
      rw [addReduced, attached, okBind]
      rfl

theorem addSubstitutedSafe (steady : engine.Steady models) (root : engine.level = 0)
    {parity : Bool} {atoms : List Nat} {constraint : ParityConstraint}
    (substituted : Substituted engine.network.trail parity atoms constraint)
    (inside : ∀ atom ∈ atoms, atom < engine.atomCount) :
    addSubstituted engine constraint = .ok (engine.addSubstituted constraint) := by
  obtain ⟨free, sign⟩ := constraint
  match free, substituted with
  | [], _ => rfl
  | [atom], substituted =>
      exact @assignRootSafe models engine steady root ⟨atom, !sign⟩
        (inside atom (substituted.kept.subset List.mem_cons_self))
        (substituted.unknown atom List.mem_cons_self)
  | first :: second :: rest, substituted =>
      have listed : each (within engine.network.parities.occurrences) (first :: second :: rest) =
          .ok () := by
        refine eachMet fun atom member => withinMet ?_
        rw [steady.ready.shaped.parities.width]
        exact inside atom (substituted.kept.subset member)
      rw [addSubstituted]
      simp only
      rw [listed, okBind, pureOk]

/-- A submission needs room for its atoms, and its constraint is absorbed at the root level. -/
theorem submitAgrees (valid : engine.Valid models) (resting : engine.Resting) (atoms : List Nat)
    {plain : Engine → Engine} {absorb : Engine → Except Fault Engine}
    (absorbs : ∀ before : Engine, before.Steady models → before.level = 0 →
      (∀ atom ∈ atoms, atom < before.atomCount) → absorb before = .ok (plain before)) :
    Agrees (Crowds (engine.ensureAtoms atoms)) (engine.submit atoms plain)
      (submit engine atoms absorb) := by
  rw [submit, requireMet resting.root, okBind]
  refine (ensureAtomsAgrees resting atoms).bind ?_
  unfold Engine.submit
  simp only
  split
  · next consistent =>
      obtain ⟨steady, root⟩ := (valid.ensureAtoms atoms).consistentSteady consistent
      exact .ofEq (absorbs _ steady.counted root ensureAtomsInside)
  · exact .same

theorem addClauseAgrees (valid : engine.Valid models) (resting : engine.Resting)
    (literals : List Literal) :
    Agrees (Crowds (engine.ensureAtoms (literals.map Literal.atom))) (engine.addClause literals)
      (submit engine (literals.map Literal.atom) (absorbClause literals)) := by
  rw [addClauseSubmit]
  apply submitAgrees valid resting
  intro before steady root inside
  have known (literal : Literal) (member : literal ∈ literals) : literal.atom < before.atomCount :=
    inside literal.atom (List.mem_map_of_mem member)
  have values : each (fun literal => within before.network.trail.atoms literal.atom) literals =
      .ok () :=
    eachMet fun literal member => withinMet (known literal member)
  rw [absorbClause, values, okBind]
  cases kept : reduced? before.network.trail literals with
  | none => rfl
  | some reduced =>
      exact addReducedSafe steady root (reducedSome steady.ready.shaped.trail kept) known

theorem addParityAgrees (valid : engine.Valid models) (resting : engine.Resting)
    (atoms : List Nat) (parity : Bool) :
    Agrees (Crowds (engine.ensureAtoms atoms)) (engine.addParity atoms parity)
      (submit engine atoms (absorbParity atoms parity)) := by
  rw [addParitySubmit]
  apply submitAgrees valid resting
  intro before steady root inside
  have known (atom : Nat) (member : atom ∈ ParityConstraint.normalize atoms) :
      atom < before.atomCount :=
    inside atom (ParityConstraint.memberNormalize member)
  have values : each (within before.network.trail.atoms) (ParityConstraint.normalize atoms) =
      .ok () :=
    eachMet fun atom member => withinMet (known atom member)
  rw [absorbParity, values, okBind]
  exact addSubstitutedSafe steady root (substituteSpec steady.ready.shaped.trail _ _) known

end Submission

section Solve

variable {models : (Nat → Bool) → Prop} {assumptions : List Literal} {engine : Engine}
  (environment : Environment)

theorem searchWithAgrees (steady : engine.Steady models) (resting : engine.Resting)
    (inside : ∀ literal ∈ assumptions, literal.atom < engine.atomCount) (budget : Budget) :
    Agrees (Outlasts environment.generator budget assumptions (.start engine))
      (engine.searchWith environment budget assumptions)
      (searchWith environment budget assumptions engine) := by
  have searching : Searching models assumptions engine (Search.start engine).engine :=
    steady.startSearching resting.root
  rw [searchWith, allowanceSafe engine.options (by decide), okBind]
  refine (runSearchAgrees searching resting.registered resting.ranked inside
    environment.steps).bind ?_
  unfold Engine.searchWith
  cases Search.run environment.generator budget assumptions environment.steps
    (Search.start engine) <;> exact .same

/-- Every worker starts from tables that are in order. -/
theorem solvePortfolioAgrees (steady : engine.Steady models) (resting : engine.Resting)
    (inside : ∀ literal ∈ assumptions, literal.atom < engine.atomCount)
    (threads : 1 < engine.options.threads) :
    Agrees (CallOutlasts environment assumptions engine)
      (engine.solvePortfolio environment assumptions)
      (solvePortfolio environment assumptions engine) := by
  have several : 0 < workerCount environment engine.options :=
    Nat.lt_of_lt_of_le Nat.zero_lt_one (Nat.le_max_left _ _)
  rw [solvePortfolio, requireMet several, okBind]
  refine Agrees.bind (.each fun index member => ?_) .same
  have employs := steady.employs index
  have own := (steady.tendWorker resting index).resting
  refine Agrees.bind ((searchWithAgrees environment employs.steady own
    (by rwa [employs.atoms]) _).mono fun fault outlasts => ?_) .same
  exact ⟨_, _, .worker threads (List.mem_range.1 member), outlasts⟩

theorem solveAgrees (valid : engine.Valid models) (resting : engine.Resting)
    (assumptions : List Literal) :
    Agrees (Beyond engine (.solve environment assumptions))
      (engine.solve environment assumptions) (solve environment assumptions engine) := by
  have counted : Resting { engine with
      statistics := { engine.statistics with solves := engine.statistics.solves + 1 }
      model := #[] } := resting.same rfl rfl rfl rfl
  have prepared := (resting.prepare assumptions).resting
  have inside := engine.assumedInside assumptions
  have grows : Agrees (Crowds (engine.prepare assumptions)) (engine.prepare assumptions)
      (prepare engine assumptions) :=
    ensureAtomsAgrees counted _
  rw [solve]
  refine (grows.mono fun _ many => .atoms many).bind ?_
  unfold Engine.solve
  simp only
  split
  · exact .same
  · next unrefuted =>
      have consistent : (engine.prepare assumptions).consistent = true := by simpa using unrefuted
      obtain ⟨steady, -⟩ := (valid.prepare assumptions).consistentSteady consistent
      split
      · next several =>
          exact (solvePortfolioAgrees environment steady prepared inside several).mono
            fun _ many => .restarts consistent many
      · next single =>
          exact (searchWithAgrees environment steady prepared inside _).mono
            fun _ outlasts => .restarts consistent ⟨_, _, .alone single, outlasts⟩

end Solve

section Faithful

variable {constraints : List Constraint} {engine : Engine}

/-- Every request meets no fault unless it goes beyond a limit. -/
theorem performAgrees (faithful : Faithful constraints engine) (resting : engine.Resting)
    (request : Request) :
    Agrees (Beyond engine request) (request.perform engine) (perform engine request) := by
  cases request with
  | addAtoms count =>
      have agrees := addAtomsAgrees resting count
      exact (agrees.mono fun _ many => .atoms many).bind .same
  | addClause literals =>
      have agrees := addClauseAgrees faithful.valid resting literals
      exact (agrees.mono fun _ many => .atoms many).bind .same
  | addParity atoms parity =>
      have agrees := addParityAgrees faithful.valid resting atoms parity
      exact (agrees.mono fun _ many => .atoms many).bind .same
  | setOptions update => exact .same
  | solve environment assumptions =>
      exact (solveAgrees environment faithful.valid resting assumptions).bind .same
  | openTraversal maximumLength maximumGlue =>
      have learnts : each (within engine.network.store.clauses) engine.learnts.toList = .ok () :=
        eachMet fun reference member => withinMet (resting.registered.inside member)
      rw [perform, openTraversal, learnts]
      exact .same
  | nextLearnt => exact .same
  | closeTraversal => exact .same

theorem runAgrees (requests : List Request) (faithful : Faithful constraints engine)
    (resting : engine.Resting) :
    Agrees (Overruns requests engine) (Engine.run requests engine) (run requests engine) := by
  induction requests generalizing constraints engine with
  | nil => exact .same
  | cons request rest inductionHypothesis =>
      rw [Engine.run, run]
      refine ((performAgrees faithful resting request).mono fun fault beyond =>
        ⟨[], request, rest, engine, rfl, rfl, beyond⟩).bind ?_
      cases performed : request.perform engine with
      | error stuck => exact .same
      | ok result =>
          -- Two invariants carry the run: what the engine knows, and its tables between requests.
          obtain ⟨reply, after⟩ := result
          refine (inductionHypothesis (faithful.perform performed).faithful
            (faithful.tend resting performed).resting).mono ?_
          rintro fault ⟨earlier, other, later, reached, rfl, ran, beyond⟩
          refine ⟨request :: earlier, other, later, reached, rfl, ?_, beyond⟩
          rw [Engine.run, performed]
          exact ran

end Faithful

/-- No sequence of requests breaks a promise: the checked run has the result of the plain one.

It ends early only if a request mentions an atom whose number does not fit a literal, or if a
search restarts more often than a word can count. -/
theorem requestsMeetNoFault (options : Options) (requests : List Request) :
    Agrees (Overruns requests (ofOptions options)) (Engine.run requests (ofOptions options))
      (run requests (ofOptions options)) :=
  runAgrees requests (ofOptionsFaithful options) (ofOptionsResting options)

end ParitySat.Checked
