/-
This file shows that a search ends without another decision once its budget is exhausted, and that a
search whose runs may have no conflicts never looks at its budget.
-/

import ParitySat.Proofs.Engine.Termination

namespace ParitySat

namespace Luby

theorem exponentWithinFirst (order : Nat) : exponentWithin order 0 = 0 := by
  induction order with
  | zero => rfl
  | succ order inductionHypothesis =>
      have later : 0 + 1 ≠ blockSize (order + 1) := by
        have size := blockSizeSucc (order + 1)
        have large : 2 ^ 2 ≤ 2 ^ (order + 1 + 1) :=
          Nat.pow_le_pow_right Nat.two_pos (Nat.le_add_left 2 order)
        omega
      rw [exponentWithin, if_neg later, Nat.zero_mod]
      exact inductionHypothesis

/-- The entry after a block repeats the first entry of all. -/
theorem exponentAfterBlock (order : Nat) : exponent (blockSize order) = 0 := by
  have size := blockSizeSucc order
  have within : Nat.log2 (blockSize order + 1) = order + 1 := by
    rw [size]
    exact Nat.log2_two_pow
  have early : blockSize order + 1 ≠ blockSize (order + 1) := by
    have positive : 2 ^ 1 ≤ 2 ^ (order + 1) :=
      Nat.pow_le_pow_right Nat.two_pos (Nat.le_add_left 1 order)
    rw [blockSize]
    omega
  rw [exponent, within, exponentWithin, if_neg early, Nat.mod_self]
  exact exponentWithinFirst order

/-- The exponents return to zero again and again. -/
theorem exponentRecurs (position : Nat) : ∃ later, position < later ∧ exponent later = 0 := by
  refine ⟨blockSize position, ?_, exponentAfterBlock position⟩
  have size := blockSizeSucc position
  have power : position + 1 < 2 ^ (position + 1) := Nat.lt_two_pow_self
  omega

end Luby

/-- A product with zero is zero or no number at all. -/
theorem Double.timesNothing (number : Float) : (number * Float.ofNat 0).toUInt64.toNat = 0 := by
  change ((Float.Model.pack (Float.Model.UnpackedFloat.mul .binary64 number.toModel.unpack
    (.zero .positive))).unpack.toUInt64).toNat = 0
  have product : Float.Model.UnpackedFloat.mul .binary64 number.toModel.unpack (.zero .positive) =
      .notANumber ∨ ∃ sign,
        Float.Model.UnpackedFloat.mul .binary64 number.toModel.unpack (.zero .positive) =
          .zero sign := by
    cases number.toModel.unpack with
    | notANumber => exact Or.inl rfl
    | infinity sign => exact Or.inl rfl
    | zero sign => exact Or.inr ⟨_, rfl⟩
    | finite sign mantissa exponent positive => exact Or.inr ⟨_, rfl⟩
  rcases product with missing | ⟨sign, zero⟩
  · rw [missing]
    rfl
  · rw [zero]
    cases sign <;> rfl

/-- The budget is exhausted and stays so, whatever is counted or polled afterwards. -/
def Budget.Spent (budget : Budget) (conflicts poll : Nat) : Prop :=
  ∀ more later, conflicts ≤ more → poll ≤ later → budget.exhausted more later = true

/-- A limit is reached before the call begins. -/
inductive Options.Expired (options : Options) (clock : Nat → Nat) (signal : Option Nat) :
    Prop where
  | conflicts (none : options.maximumConflicts = some 0) : Expired options clock signal
  | time {limit : Nat} (given : options.maximumTime = some limit)
      (counted : limit < Budget.clockRange) (passed : ∀ poll, limit ≤ clock poll) :
      Expired options clock signal
  | signal (seen : signal = some 0) : Expired options clock signal

theorem Options.Expired.spent {options : Options} {clock : Nat → Nat} {signal : Option Nat}
    (expired : options.Expired clock signal) (used : Nat) :
    (Budget.ofOptions options used clock signal).Spent used 0 := by
  intro more later counted _
  cases expired with
  | conflicts none =>
      have reached : min (used + 0) Budget.counterBound ≤ more :=
        Nat.le_trans (Nat.min_le_left _ _) counted
      simp [Budget.ofOptions, Budget.exhausted, none] at reached ⊢
      omega
  | time given counted passed =>
      simp [Budget.ofOptions, Budget.exhausted, given, counted, passed later]
  | signal seen => simp [Budget.ofOptions, Budget.exhausted, seen]

namespace Engine

/-- The first run of a block is allowed as many conflicts as the options say, or as a word can
count. -/
theorem allowancePositive {options : Options} (initial : 1 ≤ options.restartInitial)
    {restarts : Nat} (first : Luby.exponent restarts = 0) : 1 ≤ allowance options restarts := by
  have value : Luby.value options.restartGrowth restarts = 1.0 := by
    rw [Luby.value, first]
    rfl
  have product := Double.AtLeast.one.times (.ofWhole initial)
  rw [allowance, value]
  refine Nat.le_trans ?_ product.toUInt64
  have least : 1 ≤ 2 ^ (0 + options.restartInitial.log2) := Nat.one_le_two_pow
  omega

/-- No run is allowed a conflict if the first one is not. -/
theorem allowanceZero {options : Options} (initial : options.restartInitial = 0) (restarts : Nat) :
    allowance options restarts = 0 := by
  rw [allowance, initial]
  generalize Luby.value options.restartGrowth restarts = value
  exact Double.timesNothing value

/-- A search that ends without another decision gives up or has found a conflict at the root
level. -/
structure Halted (search : Search) (verdict : Verdict) (final : Search) : Prop where
  decisions : final.engine.statistics.decisions = search.engine.statistics.decisions
  verdict : verdict = .unknown ∨
    verdict = .unsatisfiable ∧ final.engine.level = 0 ∧ final.engine.consistent = false

/-- A restart returns to the root level and counts nothing but itself. -/
structure Restarted (search next : Search) : Prop where
  due : search.allowance ≤ search.runConflicts
  root : next.engine.level = 0
  options : next.engine.options = search.engine.options
  decisions : next.engine.statistics.decisions = search.engine.statistics.decisions
  conflicts : next.engine.statistics.conflicts = search.engine.statistics.conflicts
  polls : next.polls = search.polls
  restarts : next.restarts = search.restarts + 1
  none : next.runConflicts = 0
  allowance : next.allowance = allowance search.engine.options next.restarts

/-- Without a budget a step ends the search or restarts it. -/
def Halts (search : Search) : Progress → Prop
  | .running next => Restarted search next
  | .finished verdict final => Halted search verdict final
  | .stuck => False

theorem learnStatistics (engine : Engine) (analysis : Analysis) :
    (engine.learn analysis).statistics.decisions = engine.statistics.decisions ∧
      (engine.learn analysis).statistics.conflicts = engine.statistics.conflicts ∧
      (engine.learn analysis).model = engine.model := by
  unfold learn record
  simp only
  split <;> exact ⟨rfl, rfl, rfl⟩

section Step

variable {models : (Nat → Bool) → Prop} {assumptions : List Literal} {base : Engine}
  {generator : Generator} {budget : Budget} {search : Search}

/-- The poll after a conflict ends the search. -/
theorem afterConflictHalts (sane : search.engine.Sane models)
    (stable : search.engine.network.Stable) {conflict : Reason}
    (violated : search.engine.network.Violated conflict)
    (spent : budget.Spent search.engine.statistics.conflicts search.polls) :
    Halts search (search.afterConflict budget conflict) := by
  rw [Search.afterConflictEq]
  split
  · next root => exact ⟨rfl, Or.inr ⟨rfl, root, rfl⟩⟩
  · next deep =>
      obtain ⟨analysis, point, rest, found, -, -⟩ :=
        Network.analyzeSpec stable sane.sound (Nat.pos_of_ne_zero deep) violated sane.unmarked
      have analyzed : search.clash.engine.analyze conflict =
          (some analysis, (search.clash.engine.analyze conflict).2) := Prod.ext found rfl
      rw [analyzed, Search.afterAnalysis]
      obtain ⟨decisions, conflicts, -⟩ :=
        learnStatistics (search.clash.engine.analyze conflict).2 analysis
      have polled : Search.exhausted budget { search.clash with
          engine := (search.clash.engine.analyze conflict).2.learn analysis } = true := by
        refine spent _ _ ?_ (Nat.le_refl _)
        rw [conflicts]
        exact Nat.le_succ _
      simp only [polled, if_true]
      exact ⟨decisions, Or.inl rfl⟩

/-- The poll before a decision ends the search. -/
theorem afterFixpointHalts
    (spent : budget.Spent search.engine.statistics.conflicts search.polls) :
    Halts search (search.afterFixpoint generator budget assumptions) := by
  rw [Search.afterFixpointEq]
  split
  · next due =>
      exact
        { due
          root := by
            change (search.engine.cancelUntil 0).level = 0
            rw [levelCancelUntil, Nat.zero_min]
          options := rfl
          decisions := rfl
          conflicts := rfl
          polls := rfl
          restarts := rfl
          none := rfl
          allowance := rfl }
  · have polled : search.exhausted budget = true := spent _ _ (Nat.le_refl _) (Nat.le_refl _)
    rw [if_pos polled]
    exact ⟨rfl, Or.inl rfl⟩

/-- Without a budget no step decides. -/
theorem stepHalts (generator : Generator)
    (searching : Searching models assumptions base search.engine)
    (spent : budget.Spent search.engine.statistics.conflicts search.polls) :
    Halts search (search.step generator budget assumptions) := by
  obtain ⟨sane, stable, -, violated⟩ := searching.toSteady.propagate
  have halts : Halts { search with engine := search.engine.propagate.2 }
      (Search.afterPropagation generator budget assumptions
        { search with engine := search.engine.propagate.2 } search.engine.propagate.1) := by
    cases outcome : search.engine.propagate.1 with
    | some conflict => exact afterConflictHalts sane stable (violated conflict outcome) spent
    | none => exact afterFixpointHalts spent
  rw [Search.stepEq]
  generalize Search.afterPropagation generator budget assumptions
    { search with engine := search.engine.propagate.2 } search.engine.propagate.1 =
      progress at halts ⊢
  cases progress with
  | running next => exact ⟨halts.due, halts.root, halts.options, halts.decisions,
      halts.conflicts, halts.polls, halts.restarts, halts.none, halts.allowance⟩
  | finished verdict final => exact ⟨halts.decisions, halts.verdict⟩
  | stuck => exact halts

theorem Restarted.spent {next : Search} (restarted : Restarted search next)
    (spent : budget.Spent search.engine.statistics.conflicts search.polls) :
    budget.Spent next.engine.statistics.conflicts next.polls := by
  rw [restarted.conflicts, restarted.polls]
  exact spent

/-- Whatever a search reaches without a budget, it has not decided on the way. -/
theorem reachesIdle (searching : Searching models assumptions base search.engine)
    (inside : ∀ literal ∈ assumptions, literal.atom < base.atomCount)
    (spent : budget.Spent search.engine.statistics.conflicts search.polls) {later : Search}
    (reaches : Reaches generator budget assumptions search later) :
    later.engine.statistics.decisions = search.engine.statistics.decisions ∧
      (later = search ∨ later.engine.level = 0) := by
  induction reaches with
  | refl search => exact ⟨rfl, Or.inl rfl⟩
  | step next _ inductionHypothesis =>
      have halts := stepHalts generator searching spent
      have meets := stepMeets budget generator searching inside
      rw [next] at halts meets
      obtain ⟨same, place⟩ := inductionHypothesis meets (halts.spent spent)
      refine ⟨same.trans halts.decisions, Or.inr ?_⟩
      rcases place with rfl | root
      · exact halts.root
      · exact root

/-- Without a budget a search ends, at the latest in a run that may have a conflict. -/
theorem runHalts (generator : Generator)
    (inside : ∀ literal ∈ assumptions, literal.atom < base.atomCount) {last : Nat}
    (positive : 1 ≤ allowance base.options last) (steps : Nat)
    (searching : Searching models assumptions base search.engine)
    (spent : budget.Spent search.engine.statistics.conflicts search.polls)
    (early : search.restarts ≤ last)
    (spare : search.restarts = last → search.runConflicts < search.allowance)
    (enough : last - search.restarts < steps) :
    ∃ verdict final, Search.run generator budget assumptions steps search =
        .ok (verdict, final) ∧ Halted search verdict final := by
  induction steps generalizing search with
  | zero => exact absurd enough (Nat.not_lt_zero _)
  | succ steps inductionHypothesis =>
      have halts := stepHalts generator searching spent
      have meets := stepMeets budget generator searching inside
      rw [Search.run]
      cases stepped : search.step generator budget assumptions with
      | running next =>
          rw [stepped] at halts meets
          have before : search.restarts < last := by
            refine Nat.lt_of_le_of_ne early fun same => ?_
            exact absurd halts.due (Nat.not_le.mpr (spare same))
          have restarts := halts.restarts
          obtain ⟨verdict, final, ran, halted⟩ := inductionHypothesis meets (halts.spent spent)
            (by omega) (fun same => by
              rw [halts.none, halts.allowance, searching.keeps.options, same]
              exact positive) (by omega)
          exact ⟨verdict, final, ran, halted.decisions.trans halts.decisions, halted.verdict⟩
      | finished verdict final =>
          rw [stepped] at halts
          exact ⟨verdict, final, rfl, halts⟩
      | stuck =>
          rw [stepped] at halts
          exact halts.elim

end Step

/-- A search that restarts without a conflict or a decision is where it has been. -/
theorem runRestarts (generator : Generator) (budget : Budget) (assumptions : List Literal)
    {search : Search} (initial : search.engine.options.restartInitial = 0)
    (root : search.engine.level = 0)
    (finished : search.engine.network.trail.head = search.engine.network.trail.literals.size)
    (due : search.allowance = 0) (steps : Nat) :
    Search.run generator budget assumptions steps search = .error .outOfSteps := by
  induction steps generalizing search with
  | zero => rfl
  | succ steps inductionHypothesis =>
      have idle : search.engine.propagate = (none, search.engine) := by
        have unchanged (fuel : Nat) :
            search.engine.network.propagateLoop fuel = (none, search.engine.network) := by
          cases fuel with
          | zero => rfl
          | succ fuel => simp [Network.propagateLoop, finished]
        rw [Engine.propagate, Network.propagate, unchanged]
      have stepped : search.step generator budget assumptions = .running search.restart := by
        rw [Search.stepEq, idle]
        exact (Search.afterFixpointEq ..).trans (if_pos (due ▸ Nat.zero_le _))
      have unchanged : (search.engine.cancelUntil 0).network = search.engine.network := by
        rw [networkCancelUntil, Network.backtrackLow (Nat.le_of_eq root)]
      rw [Search.run, stepped]
      refine inductionHypothesis initial ?_ ?_ (allowanceZero initial _)
      · change (search.engine.cancelUntil 0).level = 0
        rw [levelCancelUntil, Nat.zero_min]
      · change (search.engine.cancelUntil 0).network.trail.head =
          (search.engine.cancelUntil 0).network.trail.literals.size
        rw [unchanged]
        exact finished

/-- From here on a search ends after finitely many steps, and it does not decide before that. -/
structure Stops (generator : Generator) (budget : Budget) (assumptions : List Literal)
    (search : Search) : Prop where
  idle : ∀ later, Reaches generator budget assumptions search later →
    later.engine.statistics.decisions = search.engine.statistics.decisions ∧
      (later = search ∨ later.engine.level = 0)
  ends : ∃ enough, ∀ steps, enough ≤ steps → ∃ verdict final,
    Search.run generator budget assumptions steps search = .ok (verdict, final) ∧
      Halted search verdict final

/-- A call ends without a decision: it gives up, or the constraints are refuted. -/
def Surrenders (before : Engine) (call : Except Stuck (Verdict × Engine)) : Prop :=
  ∃ verdict after, call = .ok (verdict, after) ∧
    after.statistics.decisions = before.statistics.decisions ∧
    (verdict = .unknown ∨ verdict = .unsatisfiable ∧ after.consistent = false)

section Call

variable {models : (Nat → Bool) → Prop} {assumptions : List Literal} {base : Engine}

/-- A search without a budget stops wherever it is. -/
theorem Steady.stops (steady : base.Steady models) (root : base.level = 0)
    (inside : ∀ literal ∈ assumptions, literal.atom < base.atomCount)
    (initial : 1 ≤ base.options.restartInitial) {generator : Generator} {budget : Budget}
    {search : Search} (reaches : Reaches generator budget assumptions (.start base) search)
    (spent : budget.Spent search.engine.statistics.conflicts search.polls) :
    Stops generator budget assumptions search := by
  have searching := reachesSearching (steady.startSearching root) inside reaches
  obtain ⟨last, later, first⟩ := Luby.exponentRecurs search.restarts
  refine ⟨fun other further => reachesIdle searching inside spent further,
    last - search.restarts + 1, fun steps enough => ?_⟩
  exact runHalts generator inside (allowancePositive initial first) steps searching spent
    (Nat.le_of_lt later) (fun same => absurd same (Nat.ne_of_lt later)) enough

/-- A budget that is exhausted at the beginning leaves time for one propagation. -/
theorem Steady.surrenders (steady : base.Steady models) (root : base.level = 0)
    (inside : ∀ literal ∈ assumptions, literal.atom < base.atomCount)
    (initial : 1 ≤ base.options.restartInitial) {budget : Budget}
    (spent : budget.Spent base.statistics.conflicts 0) {environment : Environment}
    (enough : 1 ≤ environment.steps) :
    Surrenders base (searchWith environment budget assumptions base) := by
  have positive := allowancePositive initial (show Luby.exponent 0 = 0 from rfl)
  obtain ⟨verdict, final, ran, decisions, known⟩ := runHalts environment.generator inside
    positive environment.steps (steady.startSearching root) spent (Nat.le_refl 0)
    (fun _ => positive) enough
  refine ⟨verdict, final.engine.conclude verdict, ?_, ?_, ?_⟩
  · rw [searchWith, ran]
  · cases verdict <;> exact decisions
  · rcases known with rfl | ⟨rfl, -, refuted⟩
    · exact Or.inl rfl
    · exact Or.inr ⟨rfl, refuted⟩

/-- A search whose runs may have no conflicts only ends if the constraints are refuted at once. -/
theorem Steady.neverEnds (steady : base.Steady models) (root : base.level = 0)
    (initial : base.options.restartInitial = 0) (peaceful : base.propagate.1 = none)
    (generator : Generator) (budget : Budget) (steps : Nat) :
    Search.run generator budget assumptions steps (.start base) = .error .outOfSteps := by
  have due := allowanceZero initial 0
  have level : base.propagate.2.level = 0 := by
    have limits := (Network.propagateSpec steady.ready).1.propagates.frame.1
    change base.propagate.2.network.trail.limits.size = 0
    rw [show base.propagate.2.network.trail.limits = base.network.trail.limits from limits]
    exact root
  obtain ⟨-, finished⟩ := steady.propagate.2.2.1 peaceful
  have unchanged : base.propagate.2.network.backtrack 0 = base.propagate.2.network :=
    Network.backtrackLow (Nat.le_of_eq level)
  cases steps with
  | zero => rfl
  | succ steps =>
      have stepped : (Search.start base).step generator budget assumptions =
          .running { Search.start base with
            engine := { base.propagate.2 with bound := base.startBound } }.restart := by
        rw [Search.stepEq]
        have outcome : (Search.start base).engine.propagate.1 = none := peaceful
        rw [outcome]
        exact (Search.afterFixpointEq ..).trans (if_pos (Nat.le_of_eq due))
      rw [Search.run, stepped]
      refine runRestarts generator budget assumptions initial ?_ ?_ (allowanceZero initial _) steps
      · change (base.propagate.2.network.backtrack 0).trail.level = 0
        rw [unchanged]
        exact level
      · change (base.propagate.2.network.backtrack 0).trail.head =
          (base.propagate.2.network.backtrack 0).trail.literals.size
        rw [unchanged]
        exact finished

/-- The settings of the restarts and the counters are the same for whoever searches. -/
theorem Employed.settings {engine worker : Engine}
    (employed : engine.Employed assumptions worker) :
    worker.options.restartInitial = engine.options.restartInitial ∧
      worker.statistics.decisions = engine.statistics.decisions := by
  have prepared : (engine.prepare assumptions).options = engine.options ∧
      (engine.prepare assumptions).statistics.decisions = engine.statistics.decisions := by
    unfold prepare
    apply ensureAtomsInduction (motive := fun grown : Engine => grown.options = engine.options ∧
      grown.statistics.decisions = engine.statistics.decisions)
    · exact fun _ same => same
    · exact ⟨rfl, rfl⟩
  rw [← prepared.1, ← prepared.2]
  rcases employed with rfl | ⟨index, rfl⟩
  · exact ⟨rfl, rfl⟩
  · unfold worker
    simp only
    split
    · exact ⟨rfl, rfl⟩
    · split <;> exact ⟨rfl, rfl⟩

end Call

/-- A budget that is exhausted stops the search at its next poll, in a single search and in every
worker, if the first run may have a conflict.

If it may have none, the search restarts for ever and never polls, whatever its budget, unless the
constraints are refuted at once. -/
theorem exhaustionStops {options : Options} {requests : List Request} {engine : Engine}
    (reached : run requests (ofOptions options) = .ok engine)
    (consistent : engine.consistent = true) (assumptions : List Literal) :
    (1 ≤ engine.options.restartInitial →
      (∀ worker, engine.Employed assumptions worker → ∀ generator budget search,
        Reaches generator budget assumptions (.start worker) search →
          budget.Spent search.engine.statistics.conflicts search.polls →
            Stops generator budget assumptions search) ∧
      ∀ environment : Environment, 1 ≤ environment.steps →
        (engine.options.threads ≤ 1 → engine.options.Expired (environment.clock 0) none →
          Surrenders engine (engine.solve environment assumptions)) ∧
        ∀ index, ((engine.prepare assumptions).worker index).options.Expired
            (environment.clock index) (environment.signal index) →
          Surrenders engine
            (runWorker environment assumptions (engine.prepare assumptions) index)) ∧
    (engine.options.restartInitial = 0 →
      ∀ worker, engine.Employed assumptions worker → worker.propagate.1 = none →
        ∀ generator budget steps,
          Search.run generator budget assumptions steps (.start worker) = .error .outOfSteps) := by
  have valid := (reachedFaithful reached).valid
  have prepared : (engine.prepare assumptions).consistent = true :=
    (prepareGrows engine assumptions).consistent.trans consistent
  refine ⟨fun initial => ⟨fun worker employed generator budget search reaches spent => ?_,
    fun environment enough => ⟨fun single expired => ?_, fun index expired => ?_⟩⟩,
    fun initial worker employed peaceful generator budget steps => ?_⟩
  · obtain ⟨steady, root, -, inside⟩ := valid.employed prepared employed
    exact steady.stops root inside (by rwa [employed.settings.1]) reaches spent
  · obtain ⟨steady, root, -, inside⟩ := valid.employed prepared (.inl rfl)
    have own : engine.Employed assumptions (engine.prepare assumptions) := .inl rfl
    have settings := own.settings
    have alone : ¬1 < (engine.prepare assumptions).options.threads := by
      rw [(prepareGrows engine assumptions).options]
      exact Nat.not_lt.mpr single
    rw [← (prepareGrows engine assumptions).options] at expired
    have surrenders := steady.surrenders root inside (by rwa [settings.1])
      (expired.spent (engine.prepare assumptions).statistics.conflicts) enough
    simp only [Engine.solve, prepared, alone, Bool.not_true, Bool.false_eq_true, if_false]
    rwa [Surrenders, ← settings.2]
  · have employed : engine.Employed assumptions ((engine.prepare assumptions).worker index) :=
      .inr ⟨index, rfl⟩
    obtain ⟨steady, root, -, inside⟩ := valid.employed prepared employed
    rw [Surrenders, ← employed.settings.2]
    exact steady.surrenders root inside (by rwa [employed.settings.1]) (expired.spent _) enough
  · obtain ⟨steady, root, -, -⟩ := valid.employed prepared employed
    exact steady.neverEnds root (employed.settings.1.trans initial) peaceful generator budget steps

/-- After the mixed requests no call may have a conflict any more. -/
def spentRequests : List Request :=
  mixedRequests ++ [.setOptions fun options => { options with maximumConflicts := some 0 }]

theorem exhaustionStopsSpent :
    ∃ engine, run spentRequests (ofOptions {}) = .ok engine ∧ engine.consistent = true ∧
      engine.options.maximumConflicts = some 0 ∧
      Stops splitMix ((engine.prepare [⟨2, false⟩]).ownBudget stillEnvironment) [⟨2, false⟩]
        (.start (engine.prepare [⟨2, false⟩])) ∧
      Surrenders engine (engine.solve stillEnvironment [⟨2, false⟩]) ∧
      Surrenders engine
        (runWorker stillEnvironment [⟨2, false⟩] (engine.prepare [⟨2, false⟩]) 1) := by
  obtain ⟨engine, reached, facts⟩ := reachedObserved
    (show (run spentRequests (ofOptions {})).toOption.map (fun engine =>
      ((engine.consistent, engine.options.restartInitial, engine.options.threads),
        engine.options.maximumConflicts,
        ((engine.prepare [⟨2, false⟩]).worker 1).options.maximumConflicts)) =
          some ((true, 100, 1), some 0, some 0) by decide +kernel)
  simp only [Prod.mk.injEq] at facts
  obtain ⟨⟨consistent, initial, threads⟩, none, worker⟩ := facts
  have prepared : (engine.prepare [⟨2, false⟩]).options.maximumConflicts = some 0 := by
    rw [(prepareGrows engine [⟨2, false⟩]).options]
    exact none
  obtain ⟨stopping, -⟩ := exhaustionStops reached consistent [⟨2, false⟩]
  obtain ⟨anywhere, called⟩ := stopping (by omega)
  obtain ⟨alone, portfolio⟩ := called stillEnvironment (by decide)
  exact ⟨engine, reached, consistent, none,
    anywhere _ (.inl rfl) splitMix _ _ (.refl _) (Options.Expired.spent (.conflicts prepared) _),
    alone (by omega) (.conflicts none), portfolio 1 (.conflicts worker)⟩

/-- These options allow no conflict to the call and none to its runs. -/
def restlessOptions : Options :=
  { restartInitial := 0, maximumConflicts := some 0 }

/-- One free atom and an exhausted budget keep the search busy for any number of steps. -/
theorem exhaustionIgnored :
    ∃ engine, run [.addAtoms 1] (ofOptions restlessOptions) = .ok engine ∧
      engine.consistent = true ∧ engine.options.threads ≤ 1 ∧
      ∀ environment : Environment, engine.options.Expired (environment.clock 0) none ∧
        engine.solve environment [] = .error .outOfSteps ∧
        ¬Surrenders engine (engine.solve environment []) := by
  have reached : run [.addAtoms 1] (ofOptions restlessOptions) =
      .ok (addAtoms 1 (ofOptions restlessOptions)) := rfl
  obtain ⟨steady, root, -, -⟩ := @Valid.employed _ _ _ (reachedFaithful reached).valid [] rfl
    (.inl rfl)
  refine ⟨_, reached, rfl, by decide, fun environment => ?_⟩
  have endless := @Steady.neverEnds _ [] _ steady root rfl (by decide) environment.generator
    ((addAtoms 1 (ofOptions restlessOptions)).prepare [] |>.ownBudget environment)
    environment.steps
  have solved : (addAtoms 1 (ofOptions restlessOptions)).solve environment [] =
      .error .outOfSteps := by
    change searchWith environment
      (((addAtoms 1 (ofOptions restlessOptions)).prepare []).ownBudget environment) []
      ((addAtoms 1 (ofOptions restlessOptions)).prepare []) = _
    rw [searchWith, endless]
  refine ⟨.conflicts rfl, solved, ?_⟩
  rintro ⟨verdict, after, answered, -⟩
  rw [solved] at answered
  contradiction

end Engine

end ParitySat
