/-
This file shows what every step of a search keeps and what the verdict at its end says.
-/

import ParitySat.Proofs.Engine.Branching
import ParitySat.Proofs.Engine.Learning
import ParitySat.Proofs.Engine.Reduction

namespace ParitySat

namespace Engine

/-- Only these parts of an engine matter to a search. -/
theorem Searching.same {models : (Nat → Bool) → Prop} {assumptions : List Literal}
    {base before after : Engine} (searching : Searching models assumptions base before)
    (network : after.network = before.network)
    (queue : after.order.queue = before.order.queue) (marks : after.marks = before.marks)
    (learnts : after.learnts = before.learnts) (learntUnits : after.learntUnits = before.learntUnits)
    (consistent : after.consistent = before.consistent) (options : after.options = before.options)
    (submitted : after.submitted = before.submitted)
    (traversal : after.traversal = before.traversal) :
    Searching models assumptions base after where
  toSane := searching.toSane.same network queue marks learnts learntUnits consistent
  ready := by rw [network]; exact searching.ready
  follows := by rw [network]; exact searching.follows
  keeps :=
    { options := options.trans searching.keeps.options
      submitted := submitted.trans searching.keeps.submitted
      traversal := traversal.trans searching.keeps.traversal
      atoms := by rw [atomCount, network]; exact searching.keeps.atoms }

/-- A search ends with a model, with a refutation, or because a limit has been reached. -/
inductive Answers (models : (Nat → Bool) → Prop) (assumptions : List Literal) (budget : Budget)
    (base engine : Engine) : Verdict → Prop where
  | satisfiable (searching : Searching models assumptions base engine)
      (total : engine.network.trail.Total) (model : models engine.network.trail.assignment)
      (assumed : ∀ literal ∈ assumptions,
        literal.holds engine.network.trail.assignment = true) :
      Answers models assumptions budget base engine .satisfiable
  | refuted (keeps : base.Keeps engine) (inconsistent : engine.consistent = false)
      (unsatisfiable : ∀ assignment, ¬models assignment) :
      Answers models assumptions budget base engine .unsatisfiable
  | failed (searching : Searching models assumptions base engine) (assuming : assumptions ≠ [])
      (contradicted : ∀ assignment, models assignment →
        ∃ literal ∈ assumptions, literal.holds assignment = false) :
      Answers models assumptions budget base engine .unsatisfiable
  | unknown (searching : Searching models assumptions base engine) (conflicts poll : Nat)
      (exhausted : budget.exhausted conflicts poll = true) :
      Answers models assumptions budget base engine .unknown

/-- A step keeps the invariant of the search or answers, and it never gets stuck. -/
def StepMeets (models : (Nat → Bool) → Prop) (assumptions : List Literal) (budget : Budget)
    (base : Engine) : Progress → Prop
  | .running next => Searching models assumptions base next.engine
  | .finished verdict final => Answers models assumptions budget base final.engine verdict
  | .stuck => False

section Step

variable {models : (Nat → Bool) → Prop} {assumptions : List Literal} {base : Engine}
  (budget : Budget) {search : Search}

/-- A conflict above the root level always teaches a clause. -/
theorem afterConflictMeets (sane : search.engine.Sane models)
    (stable : search.engine.network.Stable)
    (follows : search.engine.network.trail.Follows assumptions)
    (keeps : base.Keeps search.engine) {conflict : Reason}
    (violated : search.engine.network.Violated conflict) :
    StepMeets models assumptions budget base (search.afterConflict budget conflict) := by
  unfold Search.afterConflict
  simp only
  split
  · next root =>
      exact .refuted ⟨keeps.options, keeps.submitted, keeps.traversal, keeps.atoms⟩ rfl
        (Network.refutedRoot sane.sound stable.shaped root violated)
  · next deep =>
      obtain ⟨analysis, point, rest, found, asserting, unmarked⟩ :=
        Network.analyzeSpec stable sane.sound (Nat.pos_of_ne_zero deep) violated sane.unmarked
      unfold Engine.analyze
      simp only [found]
      generalize (search.engine.network.analyze search.engine.marks conflict).2 = marks at *
      have marked : Sane models { search.engine with
          statistics := { search.engine.statistics with
            conflicts := search.engine.statistics.conflicts + 1 }
          marks } :=
        ⟨sane.sound, sane.complete, sane.queued, unmarked, sane.learnts, sane.units,
          sane.consistent⟩
      have learnt := Searching.learn marked stable follows
        ⟨keeps.options, keeps.submitted, keeps.traversal, keeps.atoms⟩ asserting
      split
      · next exhausted => exact .unknown learnt _ _ exhausted
      · exact learnt

/-- A restart returns to the root level. -/
theorem restartSearching (searching : Searching models assumptions base search.engine) :
    Searching models assumptions base search.restart.engine := by
  have coherent := searching.ready.shaped.trail
  have returned : Searching models assumptions base (search.engine.cancelUntil 0) :=
    { toSteady := searching.toSteady.cancelUntil 0
      follows := searching.follows.cancelUntil coherent 0
      keeps := searching.keeps.trans (keepsCancelUntil 0) }
  exact returned.same rfl rfl rfl rfl rfl rfl rfl rfl rfl

/-- Beyond the assumptions the search either picks an atom or has found a model. -/
theorem pickedMeets {engine : Engine} (paused : Paused models assumptions base engine)
    (done : assumptions.length ≤ engine.level) {picked : Option Nat × Engine} :
    Picked engine picked → StepMeets models assumptions budget base (match picked with
      | (none, after) => .finished .satisfiable { search with engine := after }
      | (some atom, after) =>
        .running { search with engine := after.decideOn (after.phaseLiteral atom) }) := by
  intro picks
  obtain ⟨choice, after⟩ := picked
  obtain ⟨chosen, frame⟩ := picks
  have only : after = { engine with order := after.order, random := after.random } := frame
  generalize after.random = random at only
  generalize after.order = order at only chosen
  subst only
  cases choice with
  | none =>
      have searching : Searching models assumptions base { engine with order, random } :=
        { toSane := (paused.toSane.reorder chosen.1).same rfl rfl rfl rfl rfl rfl
          ready := paused.ready
          follows := paused.follows
          keeps := ⟨paused.keeps.options, paused.keeps.submitted, paused.keeps.traversal,
            paused.keeps.atoms⟩ }
      apply Answers.satisfiable searching chosen.2 (paused.model chosen.2)
      intro literal member
      obtain ⟨index, inside, found⟩ := List.mem_iff_getElem.1 member
      have reached := paused.follows.reached index literal
        (by rw [List.getElem?_eq_getElem inside, found]) (Nat.lt_of_lt_of_le inside done)
      exact Network.holdsAssignment paused.ready.shaped.trail reached.1
  | some atom =>
      refine paused.decideOn random chosen fun other assumed => ?_
      rw [List.getElem?_eq_none done] at assumed
      contradiction

/-- A decision either follows an assumption, opens another level, or finds nothing to decide. -/
theorem decideMeets (generator : Generator)
    (paused : Paused models assumptions base search.engine)
    (inside : ∀ literal ∈ assumptions, literal.atom < base.atomCount) :
    StepMeets models assumptions budget base (search.decide generator assumptions) := by
  have meets := assumeMeets (assumptions.drop search.engine.level) paused rfl
  unfold Search.decide
  simp only
  generalize Engine.assume search.engine.network.trail (assumptions.drop search.engine.level) =
    assumed at meets ⊢
  cases assumed with
  | failed trail =>
      obtain ⟨failed, low, literal, member, isFalse⟩ := meets
      apply Answers.failed failed.toSearching (List.ne_nil_of_mem member)
      intro assignment model
      cases all : assumptions.all (·.holds assignment) with
      | false =>
          obtain ⟨other, listed, wrong⟩ := List.all_eq_false.1 all
          exact ⟨other, listed, Bool.eq_false_iff.2 wrong⟩
      | true =>
          obtain ⟨position, found⟩ := List.getElem?_of_mem isFalse
          have negated := Network.assumedHolds failed.ready.shaped failed.sound failed.follows low
            model (List.all_eq_true.1 all) position literal.negate found
          exact ⟨literal, member, Network.notHoldsOfNegate negated⟩
  | decide literal trail =>
      obtain ⟨next, found, unknown⟩ := meets
      have existing := inside literal (List.mem_of_getElem? found)
      rw [← next.keeps.atoms] at existing
      exact next.decideOn search.engine.random (next.queued.spares existing unknown)
        fun other assumed => Option.some.inj (assumed.symm.trans found)
  | complete trail =>
      obtain ⟨complete, done⟩ := meets
      have counted : Paused models assumptions base { search.engine.withTrail trail with
          statistics := { search.engine.statistics with
            decisions := search.engine.statistics.decisions + 1 } } :=
        ⟨complete.toSearching.same rfl rfl rfl rfl rfl rfl rfl rfl rfl, complete.finished⟩
      exact pickedMeets budget counted done (pickBranchPicked generator counted.queued)

/-- A reduction of the learnt store changes no literal of the trail. -/
theorem reducePaused {engine : Engine} (paused : Paused models assumptions base engine) :
    Paused models assumptions base engine.reduce := by
  obtain ⟨inherits, learnts⟩ := reduceInherits paused.ready.shaped paused.learnts
  have size : engine.reduce.network.atomCount = engine.network.atomCount := by
    simp [reduce, collectGarbage, Network.atomCount]
  exact
    { sound := inherits.sound paused.sound
      complete := inherits.complete paused.complete
      queued := paused.queued.longer size fun atom missing => by
        rwa [inherits.alike.value] at missing
      unmarked := ⟨paused.unmarked.width.trans size.symm, paused.unmarked.clear⟩
      learnts
      units := paused.units
      consistent := paused.consistent
      ready := inherits.ready paused.ready
      follows := inherits.follows paused.follows
      keeps := ⟨paused.keeps.options, paused.keeps.submitted, paused.keeps.traversal,
        size.trans paused.keeps.atoms⟩
      finished := by
        rw [inherits.alike.head, inherits.alike.literals]
        exact paused.finished }

/-- Without a conflict the run restarts, ends at a limit, or decides. -/
theorem afterFixpointMeets (generator : Generator)
    (paused : Paused models assumptions base search.engine)
    (inside : ∀ literal ∈ assumptions, literal.atom < base.atomCount) :
    StepMeets models assumptions budget base
      (search.afterFixpoint generator budget assumptions) := by
  unfold Search.afterFixpoint
  simp only
  split
  · exact restartSearching paused.toSearching
  · split
    · next exhausted => exact .unknown paused.toSearching _ _ exhausted
    · split
      · exact decideMeets budget generator (reducePaused paused) inside
      · exact decideMeets budget generator paused inside

/-- Every step of a search keeps the invariant or answers. -/
theorem stepMeets (generator : Generator)
    (searching : Searching models assumptions base search.engine)
    (inside : ∀ literal ∈ assumptions, literal.atom < base.atomCount) :
    StepMeets models assumptions budget base (search.step generator budget assumptions) := by
  obtain ⟨sane, stable, fixpoint, violated⟩ := searching.toSteady.propagate
  have keeps := searching.keeps.trans (keepsPropagate searching.ready)
  have follows : search.engine.propagate.2.network.trail.Follows assumptions :=
    (Network.propagateSpec searching.ready).1.propagates.follows searching.ready.shaped
      searching.follows
  unfold Search.step
  generalize search.engine.propagate = propagated at *
  obtain ⟨outcome, engine⟩ := propagated
  cases outcome with
  | none =>
      obtain ⟨steady, finished⟩ := fixpoint rfl
      exact afterFixpointMeets budget generator ⟨⟨steady, follows, keeps⟩, finished⟩ inside
  | some conflict => exact afterConflictMeets budget sane stable follows keeps (violated conflict rfl)

end Step

/-- The result has the property, unless the steps have run out. -/
def Ends {Result : Type} (property : Result → Prop) : Except Stuck Result → Prop
  | .ok result => property result
  | .error stuck => stuck = .outOfSteps

/-- A search reaches what any number of its steps leads to. -/
inductive Reaches (generator : Generator) (budget : Budget) (assumptions : List Literal) :
    Search → Search → Prop where
  | refl (search : Search) : Reaches generator budget assumptions search search
  | step {first second third : Search}
      (next : first.step generator budget assumptions = .running second)
      (later : Reaches generator budget assumptions second third) :
      Reaches generator budget assumptions first third

section Run

variable {models : (Nat → Bool) → Prop} {assumptions : List Literal} {base : Engine}
  {generator : Generator} {budget : Budget} {search : Search}
  (searching : Searching models assumptions base search.engine)
  (inside : ∀ literal ∈ assumptions, literal.atom < base.atomCount)
include searching inside

/-- The invariant holds at every moment of a search. -/
theorem reachesSearching {later : Search}
    (reaches : Reaches generator budget assumptions search later) :
    Searching models assumptions base later.engine := by
  induction reaches with
  | refl => exact searching
  | step next _ inductionHypothesis =>
      have meets := stepMeets budget generator searching inside
      rw [next] at meets
      exact inductionHypothesis meets

/-- A search that does not run out of steps has an answer. -/
theorem runAnswers (steps : Nat) :
    Ends (fun result => Answers models assumptions budget base result.2.engine result.1)
      (Search.run generator budget assumptions steps search) := by
  induction steps generalizing search with
  | zero => exact rfl
  | succ steps inductionHypothesis =>
      have meets := stepMeets budget generator searching inside
      rw [Search.run]
      generalize search.step generator budget assumptions = progress at meets
      cases progress with
      | running next => exact inductionHypothesis meets
      | finished verdict final => exact meets
      | stuck => exact meets.elim

end Run

end Engine

end ParitySat
