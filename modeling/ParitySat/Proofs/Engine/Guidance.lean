/-
This file shows that a search whose phases lead to a model goes straight to that model.
-/

import ParitySat.Proofs.Engine.Exhaustion
import ParitySat.Proofs.Engine.Phases

namespace ParitySat

/-- The search still agrees with the assignment, and it has counted neither a conflict nor a
restart. -/
structure Search.Nears (assignment : Nat → Bool) (before after : Search) : Prop where
  favors : after.engine.network.trail.Favors assignment
  longer : before.engine.network.trail.literals.size ≤ after.engine.network.trail.literals.size
  conflicts : after.engine.statistics.conflicts = before.engine.statistics.conflicts
  restarts : after.engine.statistics.restarts = before.engine.statistics.restarts
  runConflicts : after.runConflicts = before.runConflicts
  allowance : after.allowance = before.allowance

theorem Search.Nears.trans {assignment : Nat → Bool} {first second third : Search}
    (left : Nears assignment first second) (right : Nears assignment second third) :
    Nears assignment first third where
  favors := right.favors
  longer := Nat.le_trans left.longer right.longer
  conflicts := right.conflicts.trans left.conflicts
  restarts := right.restarts.trans left.restarts
  runConflicts := right.runConflicts.trans left.runConflicts
  allowance := right.allowance.trans left.allowance

/-- A step of such a search assigns another literal or ends with a model. -/
def Search.Approaches (assignment : Nat → Bool) (search : Search) : Progress → Prop
  | .running next => search.Nears assignment next ∧
      search.engine.network.trail.literals.size < next.engine.network.trail.literals.size
  | .finished verdict final => verdict = .satisfiable ∧ search.Nears assignment final
  | .stuck => False

/-- What precedes a step may be counted in. -/
theorem Search.Approaches.earlier {assignment : Nat → Bool} {before after : Search}
    {progress : Progress} (approaches : after.Approaches assignment progress)
    (nears : before.Nears assignment after) : before.Approaches assignment progress := by
  cases progress with
  | running next => exact ⟨nears.trans approaches.1, Nat.lt_of_le_of_lt nears.longer approaches.2⟩
  | finished verdict final => exact ⟨approaches.1, nears.trans approaches.2⟩
  | stuck => exact approaches

namespace Engine

/-- Levels for true assumptions change neither the values nor the phases. -/
theorem assumeSame (rest : List Literal) (trail : Trail) :
    (assume trail rest).trail.atoms = trail.atoms ∧
      (assume trail rest).trail.literals = trail.literals := by
  induction rest generalizing trail with
  | nil => exact ⟨rfl, rfl⟩
  | cons literal rest inductionHypothesis =>
      rw [assume]
      cases trail.value literal with
      | none => exact ⟨rfl, rfl⟩
      | some truth =>
          cases truth with
          | false => exact ⟨rfl, rfl⟩
          | true => exact inductionHypothesis trail.openLevel

/-- A reduction of the learnt store changes no phase. -/
theorem reduceProlongs {models : (Nat → Bool) → Prop} {assumptions : List Literal}
    {base engine : Engine} (paused : Paused models assumptions base engine) :
    engine.network.trail.Prolongs engine.reduce.network.trail := by
  obtain ⟨inherits, -⟩ := reduceInherits paused.ready.shaped paused.learnts
  refine ⟨by simp [reduce, collectGarbage], ?_, fun atom missing => ?_, fun atom => ?_⟩
  · exact Nat.le_of_eq (congrArg Array.size inherits.alike.literals).symm
  · rwa [inherits.alike.value] at missing
  · rw [networkReduce, Network.atomCompact]
    rfl

section Step

variable {models : (Nat → Bool) → Prop} {assumptions : List Literal} {base : Engine}
  {assignment : Nat → Bool} {search : Search}

/-- The search may decide on a literal that holds. -/
theorem decideNears {engine : Engine} {literal : Literal} {order : DecisionOrder}
    {random : RandomStream}
    (nears : search.Nears assignment { search with engine })
    (isTrue : literal.holds assignment = true) :
    search.Approaches assignment
      (.running { search with engine := { engine with order, random }.decideOn literal }) := by
  have size : (engine.network.trail.openLevel.enqueue literal none).literals.size =
      engine.network.trail.literals.size + 1 := by
    simp [Trail.enqueue, Trail.openLevel]
  have longer := nears.longer
  simp only at longer
  refine ⟨⟨nears.favors.decide isTrue, ?_, nears.conflicts, nears.restarts, rfl, rfl⟩, ?_⟩
  · change _ ≤ (engine.network.trail.openLevel.enqueue literal none).literals.size
    omega
  · change _ < (engine.network.trail.openLevel.enqueue literal none).literals.size
    omega

/-- The phase of the picked atom leads on. -/
theorem branchApproaches {engine : Engine}
    (nears : search.Nears assignment { search with engine }) {picked : Option Nat × Engine}
    (picks : Picked engine picked) : search.Approaches assignment (search.branch picked) := by
  obtain ⟨choice, after⟩ := picked
  obtain ⟨chosen, frame⟩ := picks
  have only : after = { engine with order := after.order, random := after.random } := frame
  generalize after.random = random at only
  generalize after.order = order at only chosen
  subst only
  cases choice with
  | none => exact ⟨rfl, nears.favors, nears.longer, nears.conflicts, nears.restarts, rfl, rfl⟩
  | some atom => exact decideNears nears (nears.favors.phaseHolds chosen.inside chosen.unknown)

/-- No assumption is false, and a decision on one leads on. -/
theorem decideApproaches (generator : Generator)
    (paused : Paused models assumptions base search.engine)
    (favors : search.engine.network.trail.Favors assignment)
    (assumed : ∀ literal ∈ assumptions, literal.holds assignment = true) :
    search.Approaches assignment (search.decide generator assumptions) := by
  have meets := assumeMeets (assumptions.drop search.engine.level) paused rfl
  obtain ⟨atoms, literals⟩ :=
    assumeSame (assumptions.drop search.engine.level) search.engine.network.trail
  rw [Search.decideEq]
  generalize Engine.assume search.engine.network.trail (assumptions.drop search.engine.level) =
    outcome at meets atoms literals ⊢
  have nears : search.Nears assignment
      { search with engine := search.engine.withTrail outcome.trail } := by
    refine ⟨favors.prolong (.ofSame atoms literals) ?_,
      Nat.le_of_eq (congrArg Array.size literals).symm, rfl, rfl, rfl, rfl⟩
    intro literal member
    rw [show (search.engine.withTrail outcome.trail).network.trail = outcome.trail from rfl,
      literals] at member
    exact favors.holds literal member
  cases outcome with
  | failed trail =>
      obtain ⟨-, -, literal, member, isFalse⟩ := meets
      have wrong := Network.notHoldsOfNegate (nears.favors.holds literal.negate isFalse)
      rw [assumed literal member] at wrong
      contradiction
  | decide literal trail =>
      obtain ⟨-, found, -⟩ := meets
      exact decideNears nears (assumed literal (List.mem_of_getElem? found))
  | complete trail =>
      obtain ⟨complete, -⟩ := meets
      have counted : search.Nears assignment { search with
          engine := { search.engine.withTrail trail with
            statistics := { search.engine.statistics with
              decisions := search.engine.statistics.decisions + 1 } } } :=
        ⟨nears.favors, nears.longer, rfl, rfl, rfl, rfl⟩
      exact branchApproaches counted (pickBranchPicked generator complete.queued)

/-- The reduction of a crowded store does not lead astray. -/
theorem relievedNears (paused : Paused models assumptions base search.engine)
    (favors : search.engine.network.trail.Favors assignment) :
    search.Nears assignment search.relieved := by
  unfold Search.relieved
  simp only
  split
  · have prolongs := reduceProlongs paused
    obtain ⟨inherits, -⟩ := reduceInherits paused.ready.shaped paused.learnts
    refine ⟨favors.prolong prolongs fun literal member => ?_, prolongs.longer, rfl, rfl, rfl, rfl⟩
    rw [inherits.alike.literals] at member
    exact favors.holds literal member
  · exact ⟨favors, Nat.le_refl _, rfl, rfl, rfl, rfl⟩

/-- The search may have a conflict in its run, and its budget allows any number of polls. -/
structure Unhindered (budget : Budget) (search : Search) : Prop where
  spare : search.runConflicts < search.allowance
  open_ : ∀ poll, budget.exhausted search.engine.statistics.conflicts poll = false

theorem Unhindered.next {budget : Budget} {next : Search} (unhindered : Unhindered budget search)
    (nears : search.Nears assignment next) : Unhindered budget next where
  spare := by
    rw [nears.runConflicts, nears.allowance]
    exact unhindered.spare
  open_ := by
    rw [nears.conflicts]
    exact unhindered.open_

/-- Neither the run nor the budget ends. -/
theorem afterFixpointApproaches (generator : Generator) {budget : Budget}
    (paused : Paused models assumptions base search.engine)
    (favors : search.engine.network.trail.Favors assignment)
    (assumed : ∀ literal ∈ assumptions, literal.holds assignment = true)
    (unhindered : Unhindered budget search) :
    search.Approaches assignment (search.afterFixpoint generator budget assumptions) := by
  have open_ : ¬search.exhausted budget = true := by
    rw [Search.exhausted, unhindered.open_]
    exact Bool.false_ne_true
  rw [Search.afterFixpointEq, if_neg (Nat.not_le.2 unhindered.spare), if_neg open_]
  have nears := relievedNears paused favors
  exact (decideApproaches generator (relievedPaused paused) nears.favors assumed).earlier nears

/-- A step finds no conflict, because all that is decided and forced holds in the model. -/
theorem stepApproaches (generator : Generator) {budget : Budget}
    (searching : Searching models assumptions base search.engine) (model : models assignment)
    (favors : search.engine.network.trail.Favors assignment)
    (assumed : ∀ literal ∈ assumptions, literal.holds assignment = true)
    (unhindered : Unhindered budget search) :
    search.Approaches assignment (search.step generator budget assumptions) := by
  have shaped := searching.ready.shaped
  have spec := (Network.propagateSpec searching.ready).1.propagates
  obtain ⟨sane, stable, fixpoint, violated⟩ := searching.toSteady.propagate
  have holds := spec.holds shaped searching.sound model favors.holds
  have nears : search.Nears assignment { search with engine := search.engine.propagate.2 } :=
    ⟨favors.prolong spec.prolongs holds, spec.prolongs.longer, rfl, rfl, rfl, rfl⟩
  have peaceful : search.engine.propagate.1 = none := by
    refine Option.eq_none_iff_forall_ne_some.2 fun conflict found => ?_
    have wrong := violated conflict found
    exact wrong.contradicts stable.shaped.trail (sane.sound.violated model wrong) holds
  obtain ⟨steady, finished⟩ := fixpoint peaceful
  have paused : Paused models assumptions base search.engine.propagate.2 :=
    { toSteady := steady
      follows := spec.follows shaped searching.follows
      keeps := searching.keeps.trans (keepsPropagate searching.ready)
      finished }
  rw [Search.stepEq, peaceful]
  exact (afterFixpointApproaches generator paused nears.favors assumed
    (unhindered.next nears)).earlier nears

/-- A search ends with a model as soon as every atom may have taken a step. -/
theorem runApproaches (generator : Generator) {budget : Budget}
    (inside : ∀ literal ∈ assumptions, literal.atom < base.atomCount) (model : models assignment)
    (assumed : ∀ literal ∈ assumptions, literal.holds assignment = true) (steps : Nat)
    (searching : Searching models assumptions base search.engine)
    (favors : search.engine.network.trail.Favors assignment)
    (unhindered : Unhindered budget search)
    (enough : base.atomCount < search.engine.network.trail.literals.size + steps) :
    ∃ final, Search.run generator budget assumptions steps search = .ok (.satisfiable, final) ∧
      search.Nears assignment final := by
  induction steps generalizing search with
  | zero =>
      have size := searching.ready.shaped.trail.sizeLe
      have atoms := searching.keeps.atoms
      rw [atomCount, Network.atomCount] at atoms
      omega
  | succ steps inductionHypothesis =>
      have approaches := stepApproaches generator searching model favors assumed unhindered
      have meets := stepMeets budget generator searching inside
      rw [Search.run]
      cases stepped : search.step generator budget assumptions with
      | running next =>
          rw [stepped] at approaches meets
          obtain ⟨nears, longer⟩ := approaches
          obtain ⟨final, ran, further⟩ := inductionHypothesis meets nears.favors
            (unhindered.next nears) (by omega)
          exact ⟨final, ran, nears.trans further⟩
      | finished verdict final =>
          rw [stepped] at approaches
          obtain ⟨rfl, nears⟩ := approaches
          exact ⟨final, rfl, nears⟩
      | stuck =>
          rw [stepped] at approaches
          exact approaches.elim

end Step

end Engine

end ParitySat
