/-
This file shows that the answer of a solver call is right, for a single search and for a portfolio.
-/

import ParitySat.Engine.Solve
import ParitySat.Proofs.Engine.Search

namespace ParitySat

/-- A search without limits that does not share its work. -/
structure Options.Unlimited (options : Options) : Prop where
  threads : options.threads ≤ 1
  conflicts : options.maximumConflicts = none
  time : options.maximumTime = none

instance (options : Options) : Decidable options.Unlimited :=
  decidable_of_iff
    (options.threads ≤ 1 ∧ options.maximumConflicts = none ∧ options.maximumTime = none)
    ⟨fun ⟨threads, conflicts, time⟩ => ⟨threads, conflicts, time⟩,
      fun ⟨threads, conflicts, time⟩ => ⟨threads, conflicts, time⟩⟩

namespace Engine

/-- An atom outside the model counts as false. -/
def modelAssignment (engine : Engine) : Nat → Bool :=
  Truth.total fun atom => engine.model.getD atom none

/-- The model has one value for each atom, and none of them is missing. -/
def Modelled (engine : Engine) : Prop :=
  engine.model.size = engine.atomCount ∧ ∀ value ∈ engine.model.toList, value ≠ none

/-- A model without gaps lists the values of its assignment. -/
theorem Modelled.values {engine : Engine} (modelled : engine.Modelled) :
    engine.model.toList =
      (List.range engine.atomCount).map fun atom => some (engine.modelAssignment atom) := by
  obtain ⟨size, known⟩ := modelled
  apply List.ext_getElem (by simp [size])
  intro atom inside _
  have listed : engine.model.toList[atom] ∈ engine.model.toList := List.getElem_mem inside
  have bound : atom < engine.model.size := by simpa using inside
  rw [Array.getElem_toList] at listed ⊢
  obtain ⟨value, same⟩ := Option.ne_none_iff_exists'.1 (known _ listed)
  simp [modelAssignment, Truth.total, Array.getD, bound, same]

/-- A satisfiable verdict leaves a model of the constraints and the assumptions, and an
unsatisfiable one excludes it. -/
def Decides (models : (Nat → Bool) → Prop) (assumptions : List Literal) (after : Engine) :
    Verdict → Prop
  | .satisfiable =>
    after.Modelled ∧ models after.modelAssignment ∧
      ∀ literal ∈ assumptions, literal.holds after.modelAssignment = true
  | .unsatisfiable =>
    (∀ assignment, models assignment →
      ∃ literal ∈ assumptions, literal.holds assignment = false) ∧
        (assumptions = [] → after.consistent = false)
  | .unknown => True

/-- A concluded search is back at the root level. -/
structure Concluded (models : (Nat → Bool) → Prop) (assumptions : List Literal) (budget : Budget)
    (base : Engine) (verdict : Verdict) (after : Engine) : Prop where
  valid : Valid models after
  keeps : base.Keeps after
  decides : Decides models assumptions after verdict
  limited : verdict = .unknown → ∃ conflicts poll, budget.exhausted conflicts poll = true

section Conclude

variable {models : (Nat → Bool) → Prop} {assumptions : List Literal} {budget : Budget}
  {base engine : Engine}

/-- Only the network and what was learnt matter to a search that ends. -/
theorem Searching.conclude (searching : Searching models assumptions base engine)
    (model : Array Truth) : Valid models ({ engine with model }.cancelUntil 0) ∧
      base.Keeps ({ engine with model }.cancelUntil 0) := by
  have kept : Searching models assumptions base { engine with model } :=
    searching.same rfl rfl rfl rfl rfl rfl rfl rfl rfl
  refine ⟨.steady (kept.toSteady.cancelUntil 0) ?_, kept.keeps.trans (keepsCancelUntil 0)⟩
  rw [levelCancelUntil, Nat.zero_min]

/-- The values of a total trail are a model without gaps. -/
theorem modelledValues (total : engine.network.trail.Total) :
    Modelled ({ engine with model := engine.network.trail.values.toArray }.cancelUntil 0) ∧
      modelAssignment ({ engine with model := engine.network.trail.values.toArray }.cancelUntil 0) =
        engine.network.trail.assignment := by
  have atoms : ({ engine with model := engine.network.trail.values.toArray }.cancelUntil 0).atomCount =
      engine.atomCount := Network.atomCountBacktrack
  refine ⟨⟨?_, fun value member => ?_⟩, ?_⟩
  · rw [atoms]
    simp [cancelUntil, Trail.values, atomCount, Network.atomCount]
  · obtain ⟨state, listed, rfl⟩ := List.mem_map.1 (show value ∈ engine.network.trail.values from by
      simpa [cancelUntil] using member)
    obtain ⟨atom, listInside, rfl⟩ := List.mem_iff_getElem.1 listed
    have inside : atom < engine.network.trail.atoms.size := by simpa using listInside
    have known := total atom inside
    simpa [Trail.atomValue, Trail.atom, Array.getD, inside] using known
  · funext atom
    simp only [modelAssignment, Trail.assignment, Truth.total, cancelUntil, Trail.values,
      Trail.atomValue, Trail.atom]
    by_cases inside : atom < engine.network.trail.atoms.size
    · simp [Array.getD, inside]
    · simp [Array.getD, inside]

/-- The answer of a search stands after its decisions have been undone. -/
theorem Answers.conclude {verdict : Verdict}
    (answers : Answers models assumptions budget base engine verdict) :
    Concluded models assumptions budget base verdict (engine.conclude verdict) := by
  cases answers with
  | satisfiable searching total model assumed =>
      obtain ⟨valid, keeps⟩ := searching.conclude engine.network.trail.values.toArray
      obtain ⟨modelled, same⟩ := modelledValues total
      refine ⟨valid, keeps, ⟨modelled, ?_, ?_⟩, fun impossible => by contradiction⟩
      · exact same ▸ model
      · exact same ▸ assumed
  | refuted keeps inconsistent unsatisfiable =>
      refine ⟨.refuted inconsistent unsatisfiable, keeps.trans (keepsCancelUntil 0),
        ⟨fun assignment model => (unsatisfiable assignment model).elim, fun _ => inconsistent⟩,
        fun impossible => by contradiction⟩
  | failed searching assuming contradicted =>
      obtain ⟨valid, keeps⟩ := searching.conclude engine.model
      exact ⟨valid, keeps, ⟨contradicted, fun empty => absurd empty assuming⟩,
        fun impossible => by contradiction⟩
  | unknown searching conflicts poll exhausted =>
      obtain ⟨valid, keeps⟩ := searching.conclude engine.model
      exact ⟨valid, keeps, trivial, fun _ => ⟨conflicts, poll, exhausted⟩⟩

/-- A search starts at the root level without having decided on an assumption. -/
theorem Steady.startSearching (steady : engine.Steady models) (root : engine.level = 0) :
    Searching models assumptions engine (Search.start engine).engine := by
  have initial : Searching models assumptions engine engine :=
    { toSteady := steady
      follows := .root steady.ready.shaped.trail root
      keeps := .refl engine }
  exact initial.same rfl rfl rfl rfl rfl rfl rfl rfl rfl

/-- A single search under assumptions over known atoms. -/
theorem searchWithConcluded (environment : Environment) (budget : Budget)
    (steady : engine.Steady models) (root : engine.level = 0)
    (inside : ∀ literal ∈ assumptions, literal.atom < engine.atomCount) :
    Ends (fun result => Concluded models assumptions budget engine result.1 result.2)
      (searchWith environment budget assumptions engine) := by
  have answers : Ends (fun result => Answers models assumptions budget engine result.2.engine
      result.1) (Search.run environment.generator budget assumptions environment.steps
        (Search.start engine)) :=
    runAnswers (steady.startSearching root) inside environment.steps
  unfold searchWith
  generalize Search.run environment.generator budget assumptions environment.steps
    (Search.start engine) = result at answers
  cases result with
  | error stuck => exact answers
  | ok result => exact Answers.conclude answers

end Conclude

section Portfolio

variable {models : (Nat → Bool) → Prop} {assumptions : List Literal} {engine : Engine}

/-- Whatever holds of every worker holds of the winner. -/
theorem raceInduction {motive : Except Stuck (Verdict × Engine) → Prop}
    {run : Nat → Except Stuck (Verdict × Engine)} (each : ∀ index, motive (run index))
    (rest : List Nat) {first : Verdict × Engine} (start : motive (.ok first)) :
    motive (race run first rest) := by
  induction rest with
  | nil => exact start
  | cons index rest inductionHypothesis =>
      have own := each index
      rw [race]
      split
      · next stuck failed =>
          rw [failed] at own
          exact own
      · exact inductionHypothesis
      · next answer _ won =>
          rw [won] at own
          exact own

theorem runWorkersInduction {motive : Except Stuck (Verdict × Engine) → Prop}
    (environment : Environment)
    (each : ∀ index, motive (runWorker environment assumptions engine index)) :
    motive (runWorkers environment assumptions engine) := by
  have first := each 0
  unfold runWorkers
  simp only
  split
  · next stuck failed =>
      rw [failed] at first
      exact first
  · next after ended =>
      rw [ended] at first
      exact raceInduction each _ first
  · next answer _ won =>
      rw [won] at first
      exact first

/-- This function starts from opposite phases. -/
def flipPhases (trail : Trail) : Trail :=
  { trail with
    atoms := (trail.atoms.toList.map fun state =>
      { state with phase := !state.phase }).toArray }

/-- This function is the network of a worker that starts from opposite phases. -/
def flipNetwork (network : Network) : Network :=
  { network with trail := flipPhases network.trail }

theorem atomCountFlip (network : Network) :
    (flipNetwork network).atomCount = network.atomCount := by
  simp [flipNetwork, flipPhases, Network.atomCount]

/-- The phases play no part in what a network knows. -/
theorem flipInherits {network : Network} (shaped : network.Shaped) :
    network.Inherits (flipNetwork network) := by
  have atom (index : Nat) : (flipPhases network.trail).atom index =
      if index < network.trail.atoms.size then
        { network.trail.atom index with phase := !(network.trail.atom index).phase }
      else network.trail.atom index := by
    by_cases inside : index < network.trail.atoms.size
    · simp [flipPhases, Trail.atom, Array.getD, inside]
    · simp [flipPhases, Trail.atom, Array.getD, inside]
  have value (index : Nat) :
      (flipPhases network.trail).atomValue index = network.trail.atomValue index := by
    rw [Trail.atomValue, atom, Trail.atomValue]
    split <;> rfl
  have reason (index : Nat) :
      (flipPhases network.trail).reason index = network.trail.reason index := by
    rw [Trail.reason, atom, Trail.reason]
    split <;> rfl
  have level (index : Nat) :
      (flipPhases network.trail).atomLevel index = network.trail.atomLevel index := by
    rw [Trail.atomLevel, atom, Trail.atomLevel]
    split <;> rfl
  have alike : network.trail.Alike (flipNetwork network).trail := ⟨rfl, rfl, rfl, value, level⟩
  have size := atomCountFlip network
  exact
    { alike
      atoms := Nat.le_of_eq size.symm
      watching := by
        rw [size]
        exact shaped.store
      listing := by
        rw [size]
        exact shaped.parities
      constraints := rfl
      clauses := fun reference inside => ⟨reference, inside, rfl⟩
      originals := fun old inside _ => ⟨old, inside, rfl⟩
      free := fun index unset => (reason index).trans unset
      reasons := fun literal _ cause known => by
        refine ⟨cause, (reason literal.atom).trans known, fun position forced => ?_⟩
        cases cause with
        | clause reference => exact Network.forcesClauseAlike alike rfl forced
        | parity index => exact Network.forcesParityAlike alike rfl forced }

/-- A worker starts from the knowledge of the engine. -/
structure Employs (models : (Nat → Bool) → Prop) (engine worker : Engine) : Prop where
  steady : worker.Steady models
  level : worker.level = engine.level
  submitted : worker.submitted = engine.submitted
  atoms : worker.atomCount = engine.atomCount

theorem Steady.employs (steady : engine.Steady models) (index : Nat) :
    Employs models engine (engine.worker index) := by
  have plain (options : Options) (random : RandomStream) :
      Steady models { engine with options, random, traversal := none } :=
    ⟨steady.toSane.same rfl rfl rfl rfl rfl rfl, steady.ready⟩
  unfold Engine.worker
  simp only
  split
  · exact ⟨plain _ _, rfl, rfl, rfl⟩
  · split
    · have inherits := flipInherits steady.ready.shaped
      have size := atomCountFlip engine.network
      refine ⟨?_, rfl, rfl, size⟩
      exact
        { sound := inherits.sound steady.sound
          complete := inherits.complete steady.complete
          queued := steady.queued.longer size fun atom missing =>
            (inherits.alike.value atom).symm.trans missing
          unmarked := ⟨steady.unmarked.width.trans size.symm, steady.unmarked.clear⟩
          learnts := steady.learnts
          units := steady.units
          consistent := steady.consistent
          ready := inherits.ready steady.ready }
    · exact ⟨plain _ _, rfl, rfl, rfl⟩

/-- The winner has an answer to the question that was put to the engine. -/
structure Won (models : (Nat → Bool) → Prop) (assumptions : List Literal) (engine : Engine)
    (result : Verdict × Engine) : Prop where
  valid : Valid models result.2
  submitted : result.2.submitted = engine.submitted
  atoms : result.2.atomCount = engine.atomCount
  decides : Decides models assumptions result.2 result.1

/-- Every worker is right by itself. -/
theorem runWorkerWon (environment : Environment) (steady : engine.Steady models)
    (root : engine.level = 0) (inside : ∀ literal ∈ assumptions, literal.atom < engine.atomCount)
    (index : Nat) :
    Ends (Won models assumptions engine) (runWorker environment assumptions engine index) := by
  have employs := steady.employs index
  have concluded := searchWithConcluded environment
    (.ofOptions (engine.worker index).options (engine.worker index).statistics.conflicts
      (environment.clock index) (environment.signal index))
    employs.steady (employs.level.trans root) (by rwa [employs.atoms])
  unfold runWorker
  generalize searchWith environment _ assumptions (engine.worker index) = result at concluded ⊢
  cases result with
  | error stuck => exact concluded
  | ok result =>
      obtain ⟨valid, keeps, decides, -⟩ := concluded
      exact ⟨valid, keeps.submitted.trans employs.submitted, keeps.atoms.trans employs.atoms, decides⟩

theorem runWorkersWon (environment : Environment) (steady : engine.Steady models)
    (root : engine.level = 0) (inside : ∀ literal ∈ assumptions, literal.atom < engine.atomCount) :
    Ends (Won models assumptions engine) (runWorkers environment assumptions engine) :=
  runWorkersInduction environment (runWorkerWon environment steady root inside)

end Portfolio

/-- What a call to the solver leaves behind. -/
structure Solved (models : (Nat → Bool) → Prop) (assumptions : List Literal) (before : Engine)
    (result : Verdict × Engine) : Prop where
  valid : Valid models result.2
  options : result.2.options = before.options
  submitted : result.2.submitted = before.submitted
  traversal : result.2.traversal = before.traversal
  atoms : before.atomCount ≤ result.2.atomCount
  count : result.2.atomCount = grownCount (assumptions.map Literal.atom) before.atomCount
  inside : ∀ literal ∈ assumptions, literal.atom < result.2.atomCount
  refuted : before.consistent = false → result.2.consistent = false
  decides : Decides models assumptions result.2 result.1
  limited : result.1 = .unknown → before.options.threads ≤ 1 →
    before.options.maximumConflicts ≠ none ∨ before.options.maximumTime ≠ none

/-- A search without limits is never interrupted. -/
theorem limitedOfExhausted {options : Options} {start : Nat} {clock : Nat → Nat}
    {conflicts poll : Nat}
    (exhausted : (Budget.ofOptions options start clock none).exhausted conflicts poll = true) :
    options.maximumConflicts ≠ none ∨ options.maximumTime ≠ none := by
  cases conflictLimit : options.maximumConflicts with
  | some limit => exact Or.inl (Option.some_ne_none limit)
  | none =>
      cases timeLimit : options.maximumTime with
      | some limit => exact Or.inr (Option.some_ne_none limit)
      | none => simp [Budget.ofOptions, Budget.exhausted, conflictLimit, timeLimit] at exhausted

theorem prepareGrows (engine : Engine) (assumptions : List Literal) :
    engine.Grows (engine.prepare assumptions) :=
  have grows := ensureAtomsGrows { engine with
    statistics := { engine.statistics with solves := engine.statistics.solves + 1 }
    model := #[] } (assumptions.map Literal.atom)
  ⟨grows.options, grows.submitted, grows.traversal, grows.consistent, grows.level, grows.atoms⟩

/-- The assumed atoms exist when the search begins. -/
theorem assumedInside (engine : Engine) (assumptions : List Literal) :
    ∀ literal ∈ assumptions, literal.atom < (engine.prepare assumptions).atomCount :=
  fun literal member => ensureAtomsInside literal.atom (List.mem_map_of_mem member)

theorem Valid.prepare {models : (Nat → Bool) → Prop} {engine : Engine}
    (valid : engine.Valid models) (assumptions : List Literal) :
    Valid models (engine.prepare assumptions) := by
  refine Valid.ensureAtoms ?_ _
  exact valid.same rfl rfl rfl rfl rfl rfl

/-- A solver call searches with the prepared engine itself or with its workers. -/
def Employed (engine : Engine) (assumptions : List Literal) (worker : Engine) : Prop :=
  worker = engine.prepare assumptions ∨ ∃ index, worker = (engine.prepare assumptions).worker index

/-- Whoever searches starts from a steady state at the root level. -/
theorem Valid.employed {models : (Nat → Bool) → Prop} {engine worker : Engine}
    (valid : engine.Valid models) {assumptions : List Literal}
    (consistent : (engine.prepare assumptions).consistent = true)
    (employed : engine.Employed assumptions worker) :
    worker.Steady models ∧ worker.level = 0 ∧
      worker.atomCount = (engine.prepare assumptions).atomCount ∧
      ∀ literal ∈ assumptions, literal.atom < worker.atomCount := by
  obtain ⟨prepared, root⟩ := (valid.prepare assumptions).consistentSteady consistent
  have inside := engine.assumedInside assumptions
  rcases employed with rfl | ⟨index, rfl⟩
  · exact ⟨prepared, root, rfl, inside⟩
  · have employs := prepared.employs index
    refine ⟨employs.steady, employs.level.trans root, employs.atoms, ?_⟩
    rwa [employs.atoms]

/-- Nothing but the answer changes once the assumed atoms exist. -/
structure Prepared (prepared after : Engine) : Prop where
  options : after.options = prepared.options
  submitted : after.submitted = prepared.submitted
  traversal : after.traversal = prepared.traversal
  atoms : after.atomCount = prepared.atomCount
  refuted : prepared.consistent = false → after.consistent = false

theorem Prepared.solved {models : (Nat → Bool) → Prop} {assumptions : List Literal}
    {engine : Engine} {result : Verdict × Engine}
    (prepared : (engine.prepare assumptions).Prepared result.2) (valid : Valid models result.2)
    (decides : Decides models assumptions result.2 result.1)
    (limited : result.1 = .unknown → (engine.prepare assumptions).options.threads ≤ 1 →
      (engine.prepare assumptions).options.maximumConflicts ≠ none ∨
        (engine.prepare assumptions).options.maximumTime ≠ none) :
    Solved models assumptions engine result := by
  have grows := prepareGrows engine assumptions
  rw [grows.options] at limited
  exact
    { valid
      options := prepared.options.trans grows.options
      submitted := prepared.submitted.trans grows.submitted
      traversal := prepared.traversal.trans grows.traversal
      atoms := Nat.le_trans grows.atoms (Nat.le_of_eq prepared.atoms.symm)
      count := prepared.atoms.trans (atomCountEnsureAtoms _ _)
      inside := fun literal member => by
        rw [prepared.atoms]
        exact engine.assumedInside assumptions literal member
      refuted := fun inconsistent => prepared.refuted (grows.consistent.trans inconsistent)
      decides
      limited }

/-- A call whose constraints are refuted answers without a search. -/
theorem solvedRefuted {models : (Nat → Bool) → Prop} {engine : Engine}
    {assumptions : List Literal} (inconsistent : (engine.prepare assumptions).consistent = false)
    (unsatisfiable : ∀ assignment, ¬models assignment) :
    Solved models assumptions engine (.unsatisfiable, engine.prepare assumptions) := by
  have unchanged : (engine.prepare assumptions).Prepared (engine.prepare assumptions) :=
    ⟨rfl, rfl, rfl, rfl, id⟩
  refine unchanged.solved (.refuted inconsistent unsatisfiable) ?_ fun impossible => ?_
  · exact ⟨fun assignment model => (unsatisfiable assignment model).elim, fun _ => inconsistent⟩
  · contradiction

/-- A single search under the limits of the options answers for the call. -/
theorem Concluded.solved {models : (Nat → Bool) → Prop} {engine : Engine}
    {assumptions : List Literal} {used : Nat} {clock : Nat → Nat} {result : Verdict × Engine}
    (concluded : Concluded models assumptions
      (.ofOptions (engine.prepare assumptions).options used clock none)
      (engine.prepare assumptions) result.1 result.2)
    (consistent : (engine.prepare assumptions).consistent = true) :
    Solved models assumptions engine result := by
  obtain ⟨valid, keeps, decides, limited⟩ := concluded
  have prepared : (engine.prepare assumptions).Prepared result.2 :=
    ⟨keeps.options, keeps.submitted, keeps.traversal, keeps.atoms, fun inconsistent => by
      rw [consistent] at inconsistent
      contradiction⟩
  refine prepared.solved valid decides fun unknown _ => ?_
  obtain ⟨conflicts, poll, exhausted⟩ := limited unknown
  exact limitedOfExhausted exhausted

/-- A call to the solver answers rightly under its assumptions, unless the steps run out. -/
theorem Valid.solve {models : (Nat → Bool) → Prop} {engine : Engine}
    (valid : engine.Valid models) (environment : Environment) (assumptions : List Literal) :
    Ends (Solved models assumptions engine) (engine.solve environment assumptions) := by
  have inside := engine.assumedInside assumptions
  unfold Engine.solve
  simp only
  cases valid.prepare assumptions with
  | refuted inconsistent unsatisfiable =>
      simp only [inconsistent, Bool.not_false, if_true]
      exact solvedRefuted inconsistent unsatisfiable
  | steady steady root =>
      have unrefuted (inconsistent : (engine.prepare assumptions).consistent = false) : False := by
        rw [steady.consistent] at inconsistent
        contradiction
      simp only [steady.consistent, Bool.not_true, Bool.false_eq_true, if_false]
      split
      · next several =>
          have won := runWorkersWon environment steady root inside
          unfold solvePortfolio
          generalize runWorkers environment assumptions (engine.prepare assumptions) = result at won
          cases result with
          | error stuck => exact won
          | ok result =>
              obtain ⟨verdict, winner⟩ := result
              obtain ⟨valid, submitted, atoms, decides⟩ := won
              have prepared : (engine.prepare assumptions).Prepared { winner with
                  options := (engine.prepare assumptions).options
                  traversal := (engine.prepare assumptions).traversal
                  statistics := { winner.statistics with
                    solves := (engine.prepare assumptions).statistics.solves } } :=
                ⟨rfl, submitted, rfl, atoms, fun inconsistent => (unrefuted inconsistent).elim⟩
              exact prepared.solved (valid.same rfl rfl rfl rfl rfl rfl) decides
                fun _ few => absurd several (Nat.not_lt.2 few)
      · have concluded := searchWithConcluded environment
          (.ofOptions (engine.prepare assumptions).options
            (engine.prepare assumptions).statistics.conflicts (environment.clock 0) none)
          steady root inside
        generalize searchWith environment _ assumptions (engine.prepare assumptions) =
          result at concluded ⊢
        cases result with
        | error stuck => exact concluded
        | ok result => exact concluded.solved steady.consistent

end Engine

end ParitySat
