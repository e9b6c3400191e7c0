/-
This file shows that no step of a search breaks a promise, however many steps there are.
-/

import ParitySat.Luby.Word
import ParitySat.Proofs.Checked.Learning
import ParitySat.Proofs.Engine.Progress
import ParitySat.Proofs.Engine.Upkeep
import ParitySat.Proofs.Luby.Word

namespace ParitySat.Checked

open Engine

/-- The exponent of the allowance is computed on words of 32 bits. -/
def allowance (options : Options) (restarts : Nat) : Except Fault Nat := do
  require (restarts < 0xFFFFFFFF) .manyRestarts
  match Luby.wordValue? options.restartGrowth (UInt32.ofNat restarts) with
  | none => .error .overflow
  | some growth => return (growth * Float.ofNat options.restartInitial).toUInt64.toNat

/-- The value of an assumption is read before a level is opened for it. -/
def assume (trail : Trail) : List Literal → Except Fault Assumed
  | [] => return .complete trail
  | literal :: rest => do
    match ← value trail literal with
    | some true => assume trail.openLevel rest
    | some false => return .failed trail
    | none => return .decide literal trail

def popUndetermined (trail : Trail) :
    Nat → DecisionOrder → Except Fault (Option Nat × DecisionOrder)
  | 0, order => return (none, order)
  | fuel + 1, order => do
    match ← pop order.activity order.queue with
    | (none, queue) => return (none, { order with queue })
    | (some atom, queue) =>
      within trail.atoms atom
      if trail.atomValue atom = none then return (some atom, { order with queue })
      else popUndetermined trail fuel { order with queue }

def queueBranch (engine : Engine) : Except Fault (Option Nat × Engine) := do
  let (choice, order) ← popUndetermined engine.network.trail
    (engine.order.queue.entries.size + 1) engine.order
  return (choice, { engine with order })

/-- A slot is drawn from a queue that has one. -/
def randomBranch (generator : Generator) (engine : Engine) :
    Except Fault (Option Nat × Engine) := do
  if 0.0 < engine.options.randomFrequency && !engine.order.isEmpty then
    let queue := engine.order.queue
    let slot := ((engine.random.fraction generator).2.below generator queue.entries.size).1
    require (0 < queue.entries.size) .outOfBounds
    within queue.entries slot
    within engine.network.trail.atoms (queue.entry slot)
    return engine.randomBranch generator
  else return engine.randomBranch generator

def pickBranch (generator : Generator) (engine : Engine) : Except Fault (Option Nat × Engine) := do
  match ← randomBranch generator engine with
  | (some atom, engine) => return (some atom, engine)
  | (none, engine) => queueBranch engine

def decideOn (engine : Engine) (literal : Literal) : Except Fault Engine := do
  let trail ← enqueue engine.network.trail.openLevel literal none
  return engine.withTrail trail

/-- The phase of the picked atom is read for the decision. -/
def branch (search : Search) : Option Nat × Engine → Except Fault Progress
  | (none, engine) => return .finished .satisfiable { search with engine }
  | (some atom, engine) => do
    within engine.network.trail.atoms atom
    let engine ← decideOn engine (engine.phaseLiteral atom)
    return .running { search with engine }

def afterAssumptions (generator : Generator) (search : Search) : Assumed → Except Fault Progress
  | .failed trail =>
    return .finished .unsatisfiable { search with engine := search.engine.withTrail trail }
  | .decide literal trail => do
    let engine ← decideOn (search.engine.withTrail trail) literal
    return .running { search with engine }
  | .complete trail => do
    let picked ← pickBranch generator { search.engine.withTrail trail with
      statistics := { search.engine.statistics with
        decisions := search.engine.statistics.decisions + 1 } }
    branch search picked

def decide (generator : Generator) (assumptions : List Literal) (search : Search) :
    Except Fault Progress := do
  let assumed ← assume search.engine.network.trail (assumptions.drop search.engine.level)
  afterAssumptions generator search assumed

/-- A conflict at the root level is not analyzed. -/
def afterConflict (budget : Budget) (search : Search) (conflict : Reason) :
    Except Fault Progress := do
  let engine := search.clash.engine
  if engine.level = 0 then return search.afterConflict budget conflict
  else
    match ← analyze engine.network engine.marks conflict with
    | (none, _) => return .stuck
    | (some analysis, marks) =>
      let _ ← learn { engine with marks } analysis
      return search.afterConflict budget conflict

def restart (search : Search) : Except Fault Search := do
  let engine ← cancelUntil search.engine 0
  let allowance ← allowance engine.options (search.restarts + 1)
  return { search with
    engine := { engine with
      statistics := { engine.statistics with restarts := engine.statistics.restarts + 1 } }
    restarts := search.restarts + 1
    runConflicts := 0
    allowance }

def relieve (search : Search) : Except Fault Search := do
  let polled := { search with polls := search.polls + 1 }
  if polled.engine.crowded then
    let engine ← reduce polled.engine
    return { polled with engine }
  else return polled

def afterFixpoint (generator : Generator) (budget : Budget) (assumptions : List Literal)
    (search : Search) : Except Fault Progress := do
  if search.allowance ≤ search.runConflicts then
    let restarted ← restart search
    return .running restarted
  else if search.exhausted budget then
    return .finished .unknown { search with polls := search.polls + 1 }
  else
    let relieved ← relieve search
    decide generator assumptions relieved

def afterPropagation (generator : Generator) (budget : Budget) (assumptions : List Literal)
    (search : Search) : Option Reason → Except Fault Progress
  | some conflict => afterConflict budget search conflict
  | none => afterFixpoint generator budget assumptions search

def step (generator : Generator) (budget : Budget) (assumptions : List Literal)
    (search : Search) : Except Fault Progress := do
  let propagated ← propagate search.engine.network
  afterPropagation generator budget assumptions
    { search with engine := { search.engine with network := propagated.2 } } propagated.1

/-- At the end a search returns to the root level. -/
def runSearch (generator : Generator) (budget : Budget) (assumptions : List Literal) :
    Nat → Search → Except Fault (Except Stuck (Verdict × Search))
  | 0, _ => return .error .outOfSteps
  | steps + 1, search => do
    match ← step generator budget assumptions search with
    | .running next => runSearch generator budget assumptions steps next
    | .finished verdict final =>
      let _ ← cancelUntil final.engine 0
      return .ok (verdict, final)
    | .stuck => return .error .noImplicationPoint

theorem allowanceSafe (options : Options) {restarts : Nat} (few : restarts < 0xFFFFFFFF) :
    allowance options restarts = .ok (Engine.allowance options restarts) := by
  rw [allowance, requireMet few, okBind, Luby.wordValue?, Luby.wordExponentFinds few,
    Option.map_some]
  rfl

theorem assumeSafe {trail : Trail} {literals : List Literal}
    (inside : ∀ literal ∈ literals, literal.atom < trail.atoms.size) :
    assume trail literals = .ok (Engine.assume trail literals) := by
  induction literals generalizing trail with
  | nil => rfl
  | cons literal rest inductionHypothesis =>
      have later : assume trail.openLevel rest = .ok (Engine.assume trail.openLevel rest) :=
        inductionHypothesis fun other member => inside other (List.mem_cons_of_mem _ member)
      rw [assume, Engine.assume, valueSafe (inside literal List.mem_cons_self), okBind]
      cases trail.value literal with
      | none => rfl
      | some truth =>
          cases truth with
          | false => rfl
          | true => exact later

section Branch

variable {engine : Engine}

theorem popUndeterminedSafe (trail : Trail) (fuel : Nat) {order : DecisionOrder}
    (tabled : Tabled order trail.atoms.size) :
    popUndetermined trail fuel order = .ok (Engine.popUndetermined trail fuel order) := by
  induction fuel generalizing order with
  | zero => rfl
  | succ fuel inductionHypothesis =>
      rw [popUndetermined, Engine.popUndetermined, popSafe tabled.indexed tabled.same, okBind,
        DecisionOrder.pop]
      rcases Queue.popRemoved (DecisionOrder.higher order.activity) tabled.indexed with
        ⟨popped, -⟩ | ⟨top, rest, popped, held, removed⟩
      · rw [popped]
        rfl
      · have known := Queue.containsInside held
        rw [tabled.capacity] at known
        have later : Tabled { order with queue := rest } trail.atoms.size :=
          ⟨removed.indexed, removed.capacity.trans tabled.capacity, tabled.ranked⟩
        rw [popped]
        simp only [withinMet known, okBind]
        split
        · rfl
        · exact inductionHypothesis later

/-- A drawn slot holds the atom of an existing entry. -/
theorem randomBranchSafe (generator : Generator)
    (queued : engine.network.trail.Queued engine.order) :
    randomBranch generator engine = .ok (engine.randomBranch generator) := by
  rw [randomBranch]
  split
  · next drawn =>
      have filled : 0 < engine.order.queue.entries.size := by
        simp only [Bool.and_eq_true, DecisionOrder.isEmpty, Bool.not_eq_true'] at drawn
        exact Array.size_pos_iff.2 (Array.isEmpty_eq_false_iff.1 drawn.2)
      have below : ((engine.random.fraction generator).2.below generator
          engine.order.queue.entries.size).1 < engine.order.queue.entries.size :=
        Nat.mod_lt _ filled
      have known := Queue.Indexed.positionInside
        ((queued.indexed _ _).1 (Queue.entryEq below))
      rw [queued.capacity] at known
      simp only [requireMet filled, withinMet below, withinMet known, okBind, pureOk]
  · rfl

theorem pickBranchSafe (generator : Generator)
    (queued : engine.network.trail.Queued engine.order) (ranked : engine.Ranked) :
    pickBranch generator engine = .ok (engine.pickBranch generator) := by
  have tabled : Tabled engine.order engine.network.trail.atoms.size :=
    ⟨queued.indexed, queued.capacity, ranked⟩
  obtain ⟨frame, -⟩ := randomBranchPicked generator queued
  rw [pickBranch, Engine.pickBranch, randomBranchSafe generator queued, okBind]
  generalize engine.randomBranch generator = drawn at *
  obtain ⟨choice, after⟩ := drawn
  cases choice with
  | some atom => rfl
  | none =>
      have only : after = { engine with random := after.random } := frame
      have order : after.order = engine.order := by rw [only]
      have network : after.network = engine.network := by rw [only]
      simp only
      rw [queueBranch, order, network, popUndeterminedSafe _ _ tabled, okBind, Engine.queueBranch,
        order, network]
      rfl

theorem decideOnSafe {literal : Literal} (inside : literal.atom < engine.atomCount)
    (unknown : engine.network.trail.atomValue literal.atom = none) :
    decideOn engine literal = .ok (engine.decideOn literal) := by
  have opened : enqueue engine.network.trail.openLevel literal none =
      .ok (engine.network.trail.openLevel.enqueue literal none) :=
    @enqueueSafe engine.network.trail.openLevel literal inside unknown none
  rw [decideOn, opened, okBind]
  rfl

/-- The atom that has been picked is undetermined. -/
theorem branchSafe {search : Search} {picked : Option Nat × Engine} (picks : Picked engine picked) :
    branch search picked = .ok (search.branch picked) := by
  obtain ⟨choice, after⟩ := picked
  obtain ⟨chosen, frame⟩ := picks
  have only : after = { engine with order := after.order, random := after.random } := frame
  have network : after.network = engine.network := by rw [only]
  cases choice with
  | none => rfl
  | some atom =>
      have spares : engine.network.trail.Spares atom after.order := chosen
      have known : atom < after.network.trail.atoms.size := network ▸ spares.inside
      have unknown : after.network.trail.atomValue atom = none := network ▸ spares.unknown
      have decided : decideOn after (after.phaseLiteral atom) =
          .ok (after.decideOn (after.phaseLiteral atom)) :=
        decideOnSafe known unknown
      rw [branch, withinMet known, okBind, decided, okBind]
      rfl

end Branch

/-- A word cannot count the restarts of the search at some moment. -/
def Outlasts (generator : Generator) (budget : Budget) (assumptions : List Literal)
    (search : Search) (fault : Fault) : Prop :=
  fault = .manyRestarts ∧ ∃ later, Reaches generator budget assumptions search later ∧
    0xFFFFFFFF ≤ later.restarts

section Step

variable {models : (Nat → Bool) → Prop} {assumptions : List Literal} {base : Engine}
  {search : Search}

theorem tabledSearching {engine : Engine} (sane : engine.Sane models) (ranked : engine.Ranked) :
    Tabled engine.order engine.atomCount :=
  ⟨sane.queued.indexed, sane.queued.capacity, ranked⟩

theorem decideSafe (generator : Generator)
    (paused : Paused models assumptions base search.engine) (ranked : search.engine.Ranked)
    (inside : ∀ literal ∈ assumptions, literal.atom < base.atomCount) :
    decide generator assumptions search = .ok (search.decide generator assumptions) := by
  have known : ∀ literal ∈ assumptions.drop search.engine.level,
      literal.atom < search.engine.network.trail.atoms.size := by
    intro literal member
    exact Nat.lt_of_lt_of_eq (inside literal (List.mem_of_mem_drop member))
      paused.keeps.atoms.symm
  have meets := assumeMeets (assumptions.drop search.engine.level) paused rfl
  rw [decide, assumeSafe known, okBind, Search.decideEq]
  generalize Engine.assume search.engine.network.trail (assumptions.drop search.engine.level) =
    assumed at meets ⊢
  cases assumed with
  | failed trail => rfl
  | decide literal trail =>
      obtain ⟨next, found, unknown⟩ := meets
      have existing := inside literal (List.mem_of_getElem? found)
      rw [← next.keeps.atoms] at existing
      rw [afterAssumptions, decideOnSafe existing unknown, okBind]
      rfl
  | complete trail =>
      obtain ⟨complete, -⟩ := meets
      have same : trail.atoms.size = search.engine.network.trail.atoms.size :=
        complete.keeps.atoms.trans paused.keeps.atoms.symm
      have counted : Trail.Queued trail search.engine.order := complete.queued
      have ranks : Ranked (search.engine.withTrail trail) := ranked.trans same.symm
      rw [afterAssumptions, @pickBranchSafe { search.engine.withTrail trail with
        statistics := { search.engine.statistics with
          decisions := search.engine.statistics.decisions + 1 } } generator counted ranks, okBind,
        branchSafe (pickBranchPicked generator counted)]
      rfl

/-- A conflict above the root level has an implication point to learn from. -/
theorem afterConflictSafe (budget : Budget) (sane : search.engine.Sane models)
    (stable : search.engine.network.Stable) (ranked : search.engine.Ranked) {conflict : Reason}
    (violated : search.engine.network.Violated conflict) :
    afterConflict budget search conflict = .ok (search.afterConflict budget conflict) := by
  rw [afterConflict]
  split
  · rfl
  · next deep =>
      obtain ⟨analysis, point, rest, found, asserting, -⟩ :=
        Network.analyzeSpec stable sane.sound (Nat.pos_of_ne_zero deep) violated sane.unmarked
      have analyzed : analyze search.clash.engine.network search.clash.engine.marks conflict = _ :=
        analyzeSafe stable.shaped sane.unmarked.width (violatedStored violated) found
      rw [analyzed, okBind]
      generalize search.engine.network.analyze search.engine.marks conflict = outcome at found ⊢
      obtain ⟨answer, marks⟩ := outcome
      obtain rfl : answer = some analysis := found
      have tabled : Tabled search.engine.order search.engine.atomCount :=
        tabledSearching sane ranked
      have learnt : learn { search.clash.engine with marks } analysis = .ok _ :=
        @learnSafe models { search.clash.engine with marks } stable tabled analysis point rest
          asserting
      simp only
      rw [learnt, okBind, pureOk]

/-- A word cannot count the restarts before the next step. -/
def Overcounts (progress : Progress) (fault : Fault) : Prop :=
  fault = .manyRestarts ∧ ∃ next, progress = .running next ∧ 0xFFFFFFFF ≤ next.restarts

theorem restartAgrees (coherent : search.engine.network.trail.Coherent)
    (tabled : Tabled search.engine.order search.engine.atomCount) :
    Agrees (Overcounts (.running search.restart)) search.restart (restart search) := by
  rw [restart, cancelUntilSafe coherent tabled 0, okBind]
  by_cases few : search.restarts + 1 < 0xFFFFFFFF
  · rw [allowanceSafe _ few]
    exact .same
  · rw [allowance, require, if_neg few]
    exact .faulty ⟨rfl, _, rfl, Nat.le_of_not_lt few⟩

theorem relieveSafe (shaped : search.engine.network.Shaped)
    (registered : search.engine.Registered) : relieve search = .ok search.relieved := by
  rw [relieve, Search.relieved]
  simp only
  split
  · rw [reduceSafe shaped registered, okBind, pureOk]
  · rfl

/-- Only a restart may be one too many. -/
theorem afterFixpointAgrees (generator : Generator) (budget : Budget)
    (paused : Paused models assumptions base search.engine)
    (registered : search.engine.Registered) (ranked : search.engine.Ranked)
    (inside : ∀ literal ∈ assumptions, literal.atom < base.atomCount) :
    Agrees (Overcounts (search.afterFixpoint generator budget assumptions))
      (search.afterFixpoint generator budget assumptions)
      (afterFixpoint generator budget assumptions search) := by
  have shaped := paused.ready.shaped
  rw [Search.afterFixpointEq, afterFixpoint]
  split
  · exact (restartAgrees shaped.trail (tabledSearching paused.toSane ranked)).bind .same
  · split
    · exact .same
    · have relieved := relievedPaused paused
      have ranks := (relievedTends search shaped).ranked ranked
        (relieved.keeps.atoms.trans paused.keeps.atoms.symm)
      rw [relieveSafe shaped registered, okBind, decideSafe generator relieved ranks inside]
      exact .same

variable {generator : Generator} {budget : Budget}
  (searching : Searching models assumptions base search.engine)
  (registered : search.engine.Registered) (ranked : search.engine.Ranked)
  (inside : ∀ literal ∈ assumptions, literal.atom < base.atomCount)
include searching registered ranked inside

/-- One step of a search meets no other fault. -/
theorem stepAgrees : Agrees (Overcounts (search.step generator budget assumptions))
    (search.step generator budget assumptions) (step generator budget assumptions search) := by
  have keeps := keepsPropagate searching.ready
  have tends := tendsPropagate searching.ready
  have ranks := tends.ranked ranked keeps.atoms
  have lists := tends.registered registered
  obtain ⟨sane, stable, fixpoint, violated⟩ := searching.toSteady.propagate
  have follows : search.engine.propagate.2.network.trail.Follows assumptions :=
    (Network.propagateSpec searching.ready).1.propagates.follows searching.ready.shaped
      searching.follows
  rw [Search.stepEq, step, propagateSafe searching.ready, okBind]
  change Agrees _ _ (afterPropagation generator budget assumptions
    { search with engine := search.engine.propagate.2 } search.engine.propagate.1)
  cases outcome : search.engine.propagate.1 with
  | some conflict =>
      exact .ofEq (afterConflictSafe budget sane stable ranks (violated conflict outcome))
  | none =>
      obtain ⟨steady, finished⟩ := fixpoint outcome
      exact afterFixpointAgrees generator budget
        ⟨⟨steady, follows, searching.keeps.trans keeps⟩, finished⟩ lists ranks inside

/-- The engine that a search ends with may return to the root level. -/
theorem closesSafe {verdict : Verdict} {final : Search}
    (ended : search.step generator budget assumptions = .finished verdict final) :
    cancelUntil final.engine 0 = .ok (final.engine.cancelUntil 0) := by
  have meets := stepMeets budget generator searching inside
  rcases stepTends searching registered ranked with leads | ⟨refuted, same, resting, -⟩
  · rw [ended] at leads meets
    have closes (last : Searching models assumptions base final.engine) :
        cancelUntil final.engine 0 = .ok (final.engine.cancelUntil 0) := by
      have atoms := last.keeps.atoms.trans searching.keeps.atoms.symm
      have tends : search.engine.Tends final.engine := leads
      exact cancelUntilSafe last.ready.shaped.trail
        (tabledSearching last.toSane (tends.ranked ranked atoms)) 0
    cases meets with
    | satisfiable last _ _ _ => exact closes last
    | refuted _ inconsistent _ =>
        -- A step that keeps the engine consistent cannot have refuted anything.
        have tends : search.engine.Tends final.engine := leads
        rw [tends.consistent, searching.consistent] at inconsistent
        contradiction
    | failed last _ _ => exact closes last
    | unknown last _ _ _ => exact closes last
  · -- After a refutation the search is at the root level already.
    obtain ⟨-, rfl⟩ := Progress.finished.inj (ended.symm.trans same)
    have shut : ¬0 < final.engine.network.trail.level := Nat.not_lt.2 (Nat.le_of_eq resting.root)
    rw [cancelRoot resting.root, cancelUntil, if_neg shut, pureOk]

/-- A whole search meets no fault unless it restarts too often. -/
theorem runSearchAgrees (steps : Nat) : Agrees (Outlasts generator budget assumptions search)
    (Search.run generator budget assumptions steps search)
    (runSearch generator budget assumptions steps search) := by
  induction steps generalizing search with
  | zero => exact .same
  | succ steps inductionHypothesis =>
      have meets := stepMeets budget generator searching inside
      have rests : StepRests search.engine (search.step generator budget assumptions) :=
        stepRests searching registered ranked inside
      rw [Search.run, runSearch]
      have agrees : Agrees (Outlasts generator budget assumptions search)
          (search.step generator budget assumptions)
          (step generator budget assumptions search) := by
        refine (stepAgrees searching registered ranked inside).mono ?_
        rintro fault ⟨same, next, leads, many⟩
        exact ⟨same, next, .step leads (.refl next), many⟩
      refine agrees.bind ?_
      cases ended : search.step generator budget assumptions with
      | running next =>
          rw [ended] at meets rests
          obtain ⟨listed, counted, -⟩ := rests
          refine (inductionHypothesis meets listed counted).mono ?_
          rintro fault ⟨same, later, reaches, many⟩
          exact ⟨same, later, .step ended reaches, many⟩
      | finished verdict final =>
          simp only
          rw [closesSafe searching registered ranked inside ended, okBind, pureOk]
          exact .same
      | stuck => exact .same

end Step

end ParitySat.Checked
