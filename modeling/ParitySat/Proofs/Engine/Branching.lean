/-
This file shows that a branch is always over an undetermined atom, and that a search without such
an atom has found a model.
-/

import ParitySat.Proofs.Engine.Assumptions

namespace ParitySat

/-- The atom has no value, and every other such atom waits in the queue. -/
structure Trail.Spares (trail : Trail) (atom : Nat) (order : DecisionOrder) : Prop where
  indexed : order.queue.Indexed
  capacity : order.queue.positions.size = trail.atoms.size
  inside : atom < trail.atoms.size
  unknown : trail.atomValue atom = none
  waiting : ∀ other, other ≠ atom → other < trail.atoms.size → trail.atomValue other = none →
    order.contains other = true

/-- Every atom has a value. -/
def Trail.Total (trail : Trail) : Prop :=
  ∀ atom, atom < trail.atoms.size → trail.atomValue atom ≠ none

theorem Trail.Queued.spares {trail : Trail} {order : DecisionOrder} (queued : trail.Queued order)
    {atom : Nat} (inside : atom < trail.atoms.size) (unknown : trail.atomValue atom = none) :
    trail.Spares atom order :=
  ⟨queued.indexed, queued.capacity, inside, unknown, fun other _ => queued.waiting other⟩

/-- After a decision on the spared atom all undetermined atoms wait again. -/
theorem Trail.Spares.decide {trail : Trail} {literal : Literal} {order : DecisionOrder}
    (spares : trail.Spares literal.atom order) :
    (trail.openLevel.enqueue literal none).Queued order where
  indexed := spares.indexed
  capacity := by
    rw [Trail.sizeEnqueue]
    exact spares.capacity
  waiting other inside missing := by
    rw [Trail.sizeEnqueue] at inside
    by_cases same : literal.atom = other
    · subst same
      rw [Trail.atomValue, Trail.atomEnqueue, if_pos ⟨rfl, inside⟩] at missing
      contradiction
    · rw [Trail.atomValueEnqueue _ _ _ same] at missing
      exact spares.waiting other (Ne.symm same) inside missing

namespace Engine

/-- The outcome of a choice: without an atom there is nothing left to decide. -/
def Chosen (trail : Trail) (order : DecisionOrder) : Option Nat → Prop
  | none => trail.Queued order ∧ trail.Total
  | some atom => trail.Spares atom order

/-- The queue never runs out of fuel before it runs out of atoms. -/
theorem popUndeterminedChosen (trail : Trail) (fuel : Nat) {order : DecisionOrder}
    (queued : trail.Queued order) (enough : order.queue.entries.size < fuel) :
    Chosen trail (popUndetermined trail fuel order).2 (popUndetermined trail fuel order).1 := by
  induction fuel generalizing order with
  | zero => omega
  | succ fuel inductionHypothesis =>
      rw [popUndetermined, DecisionOrder.pop]
      rcases Queue.popRemoved (DecisionOrder.higher order.activity) queued.indexed with
        ⟨popped, empty⟩ | ⟨top, rest, popped, held, removed⟩
      · rw [popped]
        refine ⟨⟨queued.indexed, queued.capacity, queued.waiting⟩, fun atom inside missing => ?_⟩
        have waiting := queued.waiting atom inside missing
        rw [DecisionOrder.contains, empty] at waiting
        contradiction
      · have waiting (other : Nat) (different : other ≠ top) (inside : other < trail.atoms.size)
            (missing : trail.atomValue other = none) : rest.contains other = true := by
          rw [removed.contains, ← DecisionOrder.contains, queued.waiting other inside missing]
          simp [different]
        have capacity := removed.capacity.trans queued.capacity
        rw [popped]
        by_cases unknown : trail.atomValue top = none
        · simp only [unknown, if_true]
          have inside := Queue.containsInside held
          rw [queued.capacity] at inside
          exact ⟨removed.indexed, capacity, inside, unknown, waiting⟩
        · simp only [unknown, if_false]
          refine inductionHypothesis ⟨removed.indexed, capacity, fun other inside missing => ?_⟩ ?_
          · exact waiting other (fun same => unknown (same ▸ missing)) inside missing
          · have size := removed.size
            change rest.entries.size < fuel
            omega

/-- A choice changes nothing but the queue and the random stream. -/
structure Picked (engine : Engine) (picked : Option Nat × Engine) : Prop where
  choice : Chosen engine.network.trail picked.2.order picked.1
  frame : picked.2 = { engine with order := picked.2.order, random := picked.2.random }

theorem queueBranchPicked {engine : Engine}
    (queued : engine.network.trail.Queued engine.order) : Picked engine engine.queueBranch :=
  ⟨popUndeterminedChosen engine.network.trail _ queued (Nat.lt_succ_self _), rfl⟩

/-- A random atom comes from the queue. -/
theorem randomBranchPicked (generator : Generator) {engine : Engine}
    (queued : engine.network.trail.Queued engine.order) :
    (engine.randomBranch generator).2 =
        { engine with random := (engine.randomBranch generator).2.random } ∧
      ∀ atom, (engine.randomBranch generator).1 = some atom →
        engine.network.trail.Spares atom engine.order := by
  unfold randomBranch
  split
  · next drawn =>
      simp only [Bool.and_eq_true, Bool.not_eq_true', decide_eq_true_eq] at drawn
      generalize engine.random.fraction generator = coin
      obtain ⟨fraction, random⟩ := coin
      simp only
      split
      · refine ⟨rfl, fun atom chosen => ?_⟩
        split at chosen
        · next unknown =>
            obtain rfl := Option.some.inj chosen
            have filled : engine.order.queue.entries.size ≠ 0 := by
              simpa [DecisionOrder.isEmpty] using drawn.2
            have below := Nat.mod_lt (random.next generator).1.toNat (Nat.pos_of_ne_zero filled)
            have held := (queued.indexed _ _).1 (Queue.entryEq below)
            have inside := Queue.Indexed.positionInside held
            rw [queued.capacity] at inside
            exact queued.spares inside unknown
        · contradiction
      · exact ⟨rfl, fun atom chosen => by contradiction⟩
  · exact ⟨rfl, fun atom chosen => by contradiction⟩

theorem pickBranchPicked (generator : Generator) {engine : Engine}
    (queued : engine.network.trail.Queued engine.order) :
    Picked engine (engine.pickBranch generator) := by
  obtain ⟨frame, spares⟩ := randomBranchPicked generator queued
  unfold pickBranch
  generalize engine.randomBranch generator = drawn at *
  obtain ⟨choice, after⟩ := drawn
  have only : after = { engine with random := after.random } := frame
  generalize after.random = random at only
  subst only
  cases choice with
  | some atom => exact ⟨spares atom rfl, rfl⟩
  | none =>
      have picked : Picked { engine with random } { engine with random }.queueBranch :=
        queueBranchPicked queued
      exact ⟨picked.choice, picked.frame⟩

section Decision

variable {models : (Nat → Bool) → Prop} {assumptions : List Literal} {base engine : Engine}
  (paused : Paused models assumptions base engine)
include paused

/-- A decision opens a level, whatever has become of the random stream. -/
theorem Paused.decideOn {literal : Literal} {order : DecisionOrder} (random : RandomStream)
    (spares : engine.network.trail.Spares literal.atom order)
    (next : ∀ other, assumptions[engine.level]? = some other → other = literal) :
    Searching models assumptions base ({ engine with order, random }.decideOn literal) where
  sound := by
    have coherent := paused.ready.shaped.trail.openLevel paused.finished
    have unknown : engine.network.deepen.trail.atomValue literal.atom = none := spares.unknown
    apply paused.sound.deepen.assign none coherent unknown spares.inside
    intro root
    simp at root
  complete := by
    have coherent := paused.ready.shaped.trail.openLevel paused.finished
    have unknown : engine.network.deepen.trail.atomValue literal.atom = none := spares.unknown
    exact paused.complete.deepen.assign none coherent unknown
  queued := spares.decide
  unmarked := by
    have opened : engine.network.deepen.Unmarked engine.marks :=
      ⟨paused.unmarked.width, paused.unmarked.clear⟩
    exact opened.enqueue
  learnts := paused.learnts
  units := paused.units
  consistent := paused.consistent
  ready := paused.ready.decide paused.finished spares.inside spares.unknown
  follows := paused.follows.decide paused.ready.shaped.trail spares.inside spares.unknown next
  keeps :=
    { options := paused.keeps.options
      submitted := paused.keeps.submitted
      traversal := paused.keeps.traversal
      atoms := (Network.atomCountAssign none).trans paused.keeps.atoms }

/-- A total trail without waiting literals is a model. -/
theorem Paused.model (total : engine.network.trail.Total) :
    models engine.network.trail.assignment := by
  have shaped := paused.ready.shaped
  have coherent := shaped.trail
  refine paused.complete _ ⟨fun reference inside _ => ?_, fun index inside => ?_, ?_⟩
  · have proper := shaped.store.proper reference inside
    match same : engine.network.store.literals reference, proper.long with
    | first :: second :: rest, _ =>
        rw [same] at proper
        by_cases isTrue : first ∈ engine.network.trail.literals.toList
        · rw [Clause.holds, List.any_cons, Network.holdsAssignment coherent isTrue, Bool.true_or]
        · -- A false first watch has a true second one.
          have known := total first.atom (proper.inside first List.mem_cons_self)
          have isFalse : first.negate ∈ engine.network.trail.literals.toList := by
            rw [← coherent.falsehood]
            cases value : engine.network.trail.value first with
            | none => exact absurd ((Trail.valueNone _ _).1 value) known
            | some truth =>
                cases truth
                · rfl
                · exact absurd ((coherent.truth first).1 value) isTrue
          have guards := (paused.ready.quiet reference first second rest same).1
          have other := (guards (by
            rw [paused.finished, Trail.initialAll _ (Nat.le_refl _)]
            exact isFalse)).1
          rw [Clause.holds, List.any_cons, List.any_cons,
            Network.holdsAssignment coherent other, Bool.true_or, Bool.or_true]
  · refine (paused.ready.settled index 0 fun atom member _ => ?_).2
    rw [paused.finished]
    exact Network.listsOfKnown coherent (total atom (shaped.parities.inside index atom member))
  · exact fun literal member _ => Network.holdsAssignment coherent member

end Decision

end Engine

end ParitySat
