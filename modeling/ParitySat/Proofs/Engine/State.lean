/-
This file defines what holds of the engine at every moment and shows that the shared operations
keep it.
-/

import ParitySat.Engine.State
import ParitySat.Proofs.Decision.Order
import ParitySat.Proofs.Engine.Analysis
import ParitySat.Proofs.Engine.Extension

namespace ParitySat

/-- Every atom without a value waits in the decision queue. -/
structure Trail.Queued (trail : Trail) (order : DecisionOrder) : Prop where
  indexed : order.queue.Indexed
  capacity : order.queue.positions.size = trail.atoms.size
  waiting : ∀ atom, atom < trail.atoms.size → trail.atomValue atom = none →
    order.contains atom = true

namespace Trail.Queued

variable {trail : Trail} {order : DecisionOrder} (queued : trail.Queued order)
include queued

/-- A trail that knows more needs no other queue. -/
theorem longer {after : Trail} (size : after.atoms.size = trail.atoms.size)
    (unknown : ∀ atom, after.atomValue atom = none → trail.atomValue atom = none) :
    after.Queued order where
  indexed := queued.indexed
  capacity := queued.capacity.trans size.symm
  waiting atom inside missing := queued.waiting atom (size ▸ inside) (unknown atom missing)

/-- An assignment takes no atom from those without a value. -/
theorem enqueue (literal : Literal) (reason : Option Reason) :
    (trail.enqueue literal reason).Queued order := by
  apply queued.longer (by simp [Trail.enqueue])
  intro atom missing
  by_cases same : literal.atom = atom
  · subst same
    by_cases inside : literal.atom < trail.atoms.size
    · simp [Trail.enqueue, Trail.atomValue, Trail.atom, Array.getD, inside,
        Array.getElem_modify] at missing
    · simp [Trail.atomValue, Trail.atom, Array.getD, inside]
  · rwa [Trail.atomValueEnqueue _ _ _ same] at missing

theorem rearranged {other : DecisionOrder}
    (rearranges : Queue.Rearranges order.queue other.queue) : trail.Queued other where
  indexed := rearranges.indexed
  capacity := rearranges.capacity.trans queued.capacity
  waiting atom inside missing := by
    rw [DecisionOrder.contains, rearranges.contains]
    exact queued.waiting atom inside missing

theorem grow : trail.grow.Queued (order.grow.insert trail.atoms.size) := by
  obtain ⟨indexed, contains⟩ := Queue.growIndexed queued.indexed
  have inserted := Queue.insertInserted (DecisionOrder.higher order.grow.activity)
    trail.atoms.size indexed (by simp [queued.capacity])
  refine ⟨inserted.indexed, ?_, fun atom inside missing => ?_⟩
  · rw [DecisionOrder.queueInsert, DecisionOrder.queueGrow, inserted.capacity]
    simp [queued.capacity, Trail.grow]
  · rw [DecisionOrder.contains, DecisionOrder.queueInsert, DecisionOrder.queueGrow,
      inserted.contains]
    by_cases last : atom = trail.atoms.size
    · simp [last]
    · rw [Trail.atomValueGrow] at missing
      have older : atom < trail.atoms.size := by
        simp only [Trail.grow, Array.size_push] at inside
        omega
      have waiting := queued.waiting atom older missing
      rw [DecisionOrder.contains] at waiting
      rw [contains, waiting, Bool.or_true]

/-- The released atoms return to the queue. -/
theorem cancelUntil (coherent : trail.Coherent) (level : Nat) :
    (trail.cancelUntil level).Queued (order.insertAll (trail.released level)) := by
  have inside : ∀ literal ∈ trail.released level,
      literal.atom < order.queue.positions.size := by
    intro literal member
    rw [queued.capacity]
    unfold Trail.released at member
    split at member
    · exact coherent.inside (Trail.aboveMember member)
    · exact absurd member List.not_mem_nil
  obtain ⟨indexed, capacity, contains⟩ :=
    DecisionOrder.insertAllInserted (trail.released level) queued.indexed inside
  refine ⟨indexed, ?_, fun atom within missing => ?_⟩
  · rw [capacity, queued.capacity, Trail.sizeCancelUntil]
  · rw [Trail.sizeCancelUntil] at within
    rw [contains]
    cases known : trail.atomValue atom with
    | none => exact Or.inl (queued.waiting atom within known)
    | some truth =>
        refine Or.inr ⟨⟨atom, !truth⟩, ?_, rfl⟩
        have member := coherent.knownMember known
        have absent : ⟨atom, !truth⟩ ∉ trail.initial (trail.boundary level) := by
          rw [← Trail.literalsCancelUntil]
          intro kept
          have still := (coherent.cancelUntil level).known kept
          rw [missing] at still
          contradiction
        by_cases open_ : level < trail.level
        · rw [Trail.released, if_pos open_]
          exact (Trail.memberAbove coherent open_ member).2 absent
        · rw [Trail.cancelUntilLow (by omega), known] at missing
          contradiction

end Trail.Queued

/-- No model of a sound network satisfies a constraint that is violated at the root level. -/
theorem Network.refutedRoot {models : (Nat → Bool) → Prop} {network : Network}
    (sound : network.Sound models) (shaped : network.Shaped) (root : network.trail.level = 0)
    {conflict : Reason} (violated : network.Violated conflict) (assignment : Nat → Bool) :
    ¬models assignment := by
  intro model
  apply violated.contradicts shaped.trail (sound.violated model violated)
  intro literal member
  have low := shaped.trail.levelLe member
  exact sound.root assignment model literal member (by omega)

theorem Network.Unmarked.enqueue {network : Network} {marks : Array Bool}
    (unmarked : network.Unmarked marks) {literal : Literal} {reason : Option Reason} :
    (network.assign literal reason).Unmarked marks :=
  ⟨unmarked.width.trans (Network.atomCountAssign reason).symm, unmarked.clear⟩

/-- The assigned atoms never become fewer during propagation. -/
theorem Network.Propagates.unknown {start network : Network}
    (propagates : start.Propagates network) (shaped : start.Shaped) {atom : Nat}
    (missing : network.trail.atomValue atom = none) : start.trail.atomValue atom = none := by
  cases known : start.trail.atomValue atom with
  | none => rfl
  | some truth =>
      obtain ⟨added, grown, -⟩ := propagates.trail shaped
      have member := shaped.trail.knownMember known
      have still : ⟨atom, !truth⟩ ∈ network.trail.literals.toList := by
        rw [grown]
        exact List.mem_append_left _ member
      have value := (propagates.shaped shaped).trail.known still
      rw [missing] at value
      contradiction

namespace Engine

/-- Nothing the engine has stored or learnt excludes a model, and nothing is lost. -/
structure Sane (models : (Nat → Bool) → Prop) (engine : Engine) : Prop where
  sound : engine.network.Sound models
  complete : engine.network.Complete models
  queued : engine.network.trail.Queued engine.order
  unmarked : engine.network.Unmarked engine.marks
  learnts : ∀ reference ∈ engine.learnts.toList,
    (engine.network.store.clause reference).learnt = true
  units : ∀ literal ∈ engine.learntUnits.toList, ∀ assignment, models assignment →
    literal.holds assignment = true
  consistent : engine.consistent = true

/-- A steady engine may go on with a propagation. -/
structure Steady (models : (Nat → Bool) → Prop) (engine : Engine) : Prop
    extends Sane models engine where
  ready : engine.network.Ready

/-- Between two calls an engine is at the root level, unless it has refuted the constraints. -/
inductive Valid (models : (Nat → Bool) → Prop) (engine : Engine) : Prop where
  | steady (steady : engine.Steady models) (root : engine.level = 0)
  | refuted (inconsistent : engine.consistent = false)
      (unsatisfiable : ∀ assignment, ¬models assignment)

theorem Valid.consistentSteady {models : (Nat → Bool) → Prop} {engine : Engine}
    (valid : engine.Valid models) (consistent : engine.consistent = true) :
    engine.Steady models ∧ engine.level = 0 := by
  cases valid with
  | steady steady root => exact ⟨steady, root⟩
  | refuted inconsistent _ =>
      rw [consistent] at inconsistent
      contradiction

/-- These parts of an engine are the business of the caller only. -/
structure Keeps (before after : Engine) : Prop where
  options : after.options = before.options
  submitted : after.submitted = before.submitted
  traversal : after.traversal = before.traversal
  atoms : after.atomCount = before.atomCount

theorem Keeps.refl (engine : Engine) : engine.Keeps engine :=
  ⟨rfl, rfl, rfl, rfl⟩

theorem Keeps.trans {first second third : Engine} (left : first.Keeps second)
    (right : second.Keeps third) : first.Keeps third where
  options := right.options.trans left.options
  submitted := right.submitted.trans left.submitted
  traversal := right.traversal.trans left.traversal
  atoms := right.atoms.trans left.atoms

/-- Only these parts of an engine matter to what it knows. -/
theorem Sane.same {models : (Nat → Bool) → Prop} {before after : Engine}
    (sane : before.Sane models) (network : after.network = before.network)
    (queue : after.order.queue = before.order.queue) (marks : after.marks = before.marks)
    (learnts : after.learnts = before.learnts) (learntUnits : after.learntUnits = before.learntUnits)
    (consistent : after.consistent = before.consistent) : after.Sane models where
  sound := by rw [network]; exact sane.sound
  complete := by rw [network]; exact sane.complete
  queued := by
    obtain ⟨indexed, capacity, waiting⟩ := sane.queued
    rw [network]
    refine ⟨by rwa [queue], by rwa [queue], fun atom inside missing => ?_⟩
    rw [DecisionOrder.contains, queue]
    exact waiting atom inside missing
  unmarked := by rw [network, marks]; exact sane.unmarked
  learnts := by rw [network, learnts]; exact sane.learnts
  units := by rw [learntUnits]; exact sane.units
  consistent := by rw [consistent]; exact sane.consistent

theorem Valid.same {models : (Nat → Bool) → Prop} {before after : Engine}
    (valid : before.Valid models) (network : after.network = before.network)
    (queue : after.order.queue = before.order.queue) (marks : after.marks = before.marks)
    (learnts : after.learnts = before.learnts) (learntUnits : after.learntUnits = before.learntUnits)
    (consistent : after.consistent = before.consistent) : after.Valid models := by
  cases valid with
  | steady steady root =>
      refine .steady ⟨steady.toSane.same network queue marks learnts learntUnits consistent, ?_⟩ ?_
      · rw [network]
        exact steady.ready
      · rw [level, network]
        exact root
  | refuted inconsistent unsatisfiable =>
      exact .refuted (consistent.trans inconsistent) unsatisfiable

/-- The models may be described in another way. -/
theorem Sane.describe {models others : (Nat → Bool) → Prop} {engine : Engine}
    (sane : engine.Sane models) (fewer : ∀ assignment, others assignment → models assignment)
    (all : ∀ assignment, engine.network.Satisfied assignment → models assignment →
      others assignment) : engine.Sane others where
  sound := sane.sound.fewer fewer
  complete assignment satisfied := all assignment satisfied (sane.complete assignment satisfied)
  queued := sane.queued
  unmarked := sane.unmarked
  learnts := sane.learnts
  units literal member assignment model :=
    sane.units literal member assignment (fewer assignment model)
  consistent := sane.consistent

section Operations

variable {models : (Nat → Bool) → Prop} {engine : Engine}

theorem Sane.propagates (sane : engine.Sane models) (shaped : engine.network.Shaped)
    {network : Network} (propagates : engine.network.Propagates network) :
    Sane models { engine with network } where
  sound := propagates.sound shaped sane.sound
  complete := propagates.complete shaped sane.complete
  queued := sane.queued.longer propagates.frame.2.2.1 fun _ => propagates.unknown shaped
  unmarked := ⟨sane.unmarked.width.trans propagates.frame.2.2.1.symm, sane.unmarked.clear⟩
  learnts reference member := by
    rw [(propagates.clauses reference).2]
    exact sane.learnts reference member
  units := sane.units
  consistent := sane.consistent

theorem keepsPropagate (shaped : engine.network.Ready) : engine.Keeps engine.propagate.2 where
  options := rfl
  submitted := rfl
  traversal := rfl
  atoms := (Network.propagateSpec shaped).1.propagates.frame.2.2.1

/-- Propagation ends at a fixpoint or with a violated constraint. -/
theorem Steady.propagate (steady : engine.Steady models) :
    Sane models engine.propagate.2 ∧ engine.propagate.2.network.Stable ∧
      (engine.propagate.1 = none → Steady models engine.propagate.2 ∧
        engine.propagate.2.network.trail.head =
          engine.propagate.2.network.trail.literals.size) ∧
      ∀ conflict, engine.propagate.1 = some conflict →
        engine.propagate.2.network.Violated conflict := by
  have shaped := steady.ready.shaped
  obtain ⟨propagated, fixpoint⟩ := Network.propagateSpec steady.ready
  have sane : Sane models engine.propagate.2 :=
    steady.toSane.propagates shaped propagated.propagates
  exact ⟨sane, propagated.stable shaped, fun none => ⟨⟨sane, (fixpoint none).1⟩, (fixpoint none).2⟩,
    propagated.violated⟩

/-- The learnt clauses stay learnt when another clause is stored. -/
theorem Sane.learntsAttach (sane : engine.Sane models) {clause : Clause} :
    ∀ reference ∈ engine.learnts.toList,
      ((engine.network.attach clause).store.clause reference).learnt = true := by
  intro reference member
  have learnt := sane.learnts reference member
  have older : reference ≠ engine.network.store.clauses.size := by
    rintro rfl
    rw [ClauseStore.clauseOutside (Nat.le_refl _)] at learnt
    contradiction
  rw [Network.attach, ClauseStore.clauseAdd, if_neg older]
  exact learnt

theorem networkEnqueue (literal : Literal) (reason : Option Reason) :
    (engine.enqueue literal reason).network = engine.network.assign literal reason := rfl

theorem keepsEnqueue (literal : Literal) (reason : Option Reason) :
    engine.Keeps (engine.enqueue literal reason) where
  options := rfl
  submitted := rfl
  traversal := rfl
  atoms := Network.atomCountAssign reason

/-- A literal of the root level has to hold in all the models. -/
theorem Sane.enqueue (sane : engine.Sane models) (coherent : engine.network.trail.Coherent)
    {literal : Literal} (reason : Option Reason) (inside : literal.atom < engine.atomCount)
    (unknown : engine.network.trail.atomValue literal.atom = none)
    (root : engine.level = 0 → ∀ assignment, models assignment →
      literal.holds assignment = true) :
    Sane models (engine.enqueue literal reason) where
  sound := sane.sound.assign reason coherent unknown inside root
  complete := sane.complete.assign reason coherent unknown
  queued := sane.queued.enqueue literal reason
  unmarked := sane.unmarked.enqueue
  learnts := sane.learnts
  units := sane.units
  consistent := sane.consistent

theorem networkCancelUntil (level : Nat) :
    (engine.cancelUntil level).network = engine.network.backtrack level := rfl

theorem keepsCancelUntil (level : Nat) : engine.Keeps (engine.cancelUntil level) where
  options := rfl
  submitted := rfl
  traversal := rfl
  atoms := Network.atomCountBacktrack

theorem Sane.cancelUntil (sane : engine.Sane models) (shaped : engine.network.Shaped)
    (level : Nat) : Sane models (engine.cancelUntil level) where
  sound := sane.sound.backtrack level
  complete := sane.complete.backtrack shaped.trail level
  queued := sane.queued.cancelUntil shaped.trail level
  unmarked := ⟨sane.unmarked.width.trans Network.atomCountBacktrack.symm, sane.unmarked.clear⟩
  learnts := sane.learnts
  units := sane.units
  consistent := sane.consistent

theorem Steady.cancelUntil (steady : engine.Steady models) (level : Nat) :
    Steady models (engine.cancelUntil level) := by
  refine ⟨steady.toSane.cancelUntil steady.ready.shaped level, ?_⟩
  rw [networkCancelUntil]
  by_cases open_ : level < engine.network.trail.level
  · exact (steady.ready.stable.backtrackReady open_).1
  · rw [Network.backtrackLow (Nat.not_lt.1 open_)]
    exact steady.ready

theorem levelCancelUntil (level : Nat) :
    (engine.cancelUntil level).level = min level engine.level :=
  Trail.levelCancelUntil

/-- A new atom waits in the queue. -/
theorem Steady.addAtom (steady : engine.Steady models) : Steady models engine.addAtom := by
  have inherits := Network.growInherits steady.ready.shaped
  exact
    { sound := inherits.sound steady.sound
      complete := inherits.complete steady.complete
      queued := steady.queued.grow
      unmarked := by
        refine ⟨?_, fun atom => ?_⟩
        · simp [Engine.addAtom, Network.grow, Network.atomCount, Trail.grow, steady.unmarked.width]
        · have clear := steady.unmarked.clear atom
          simp only [Engine.addAtom, Array.getD_eq_getD_getElem?, Array.getElem?_push] at clear ⊢
          split
          · rfl
          · exact clear
      learnts := steady.learnts
      units := steady.units
      consistent := steady.consistent
      ready := inherits.ready steady.ready }

end Operations

/-- New atoms change neither the levels nor anything the caller has submitted. -/
structure Grows (before after : Engine) : Prop where
  options : after.options = before.options
  submitted : after.submitted = before.submitted
  traversal : after.traversal = before.traversal
  consistent : after.consistent = before.consistent
  level : after.level = before.level
  atoms : before.atomCount ≤ after.atomCount

theorem Grows.refl (engine : Engine) : engine.Grows engine :=
  ⟨rfl, rfl, rfl, rfl, rfl, Nat.le_refl _⟩

theorem atomCountAddAtom (engine : Engine) : engine.addAtom.atomCount = engine.atomCount + 1 := by
  simp [atomCount, addAtom, Network.atomCount, Network.grow, Trail.grow]

theorem Grows.addAtom {before after : Engine} (grows : before.Grows after) :
    before.Grows after.addAtom where
  options := grows.options
  submitted := grows.submitted
  traversal := grows.traversal
  consistent := grows.consistent
  level := grows.level
  atoms := by
    rw [atomCountAddAtom]
    exact Nat.le_succ_of_le grows.atoms

/-- What a new atom keeps is kept by any number of new atoms. -/
theorem addAtomsInduction {motive : Engine → Prop}
    (step : ∀ engine, motive engine → motive engine.addAtom) (count : Nat) {engine : Engine}
    (start : motive engine) : motive (addAtoms count engine) := by
  induction count generalizing engine with
  | zero => exact start
  | succ count inductionHypothesis => exact inductionHypothesis (step engine start)

theorem ensureAtomsInduction {motive : Engine → Prop}
    (step : ∀ engine, motive engine → motive engine.addAtom) (atoms : List Nat) {engine : Engine}
    (start : motive engine) : motive (engine.ensureAtoms atoms) := by
  unfold ensureAtoms
  induction atoms generalizing engine with
  | nil => exact start
  | cons atom rest inductionHypothesis => exact inductionHypothesis (addAtomsInduction step _ start)

theorem addAtomsGrows (count : Nat) (engine : Engine) : engine.Grows (addAtoms count engine) :=
  addAtomsInduction (fun _ grows => grows.addAtom) count (.refl engine)

theorem atomCountAddAtoms (count : Nat) (engine : Engine) :
    (addAtoms count engine).atomCount = engine.atomCount + count := by
  induction count generalizing engine with
  | zero => rfl
  | succ count inductionHypothesis =>
      rw [addAtoms, inductionHypothesis, atomCountAddAtom]
      omega

/-- This function is the number of atoms after the listed ones have been created. -/
def grownCount (atoms : List Nat) (count : Nat) : Nat :=
  atoms.foldl (fun count atom => max count (atom + 1)) count

theorem atomCountEnsureAtoms (engine : Engine) (atoms : List Nat) :
    (engine.ensureAtoms atoms).atomCount = grownCount atoms engine.atomCount := by
  induction atoms generalizing engine with
  | nil => rfl
  | cons atom rest inductionHypothesis =>
      have single : (engine.ensureAtom atom).atomCount = max engine.atomCount (atom + 1) := by
        rw [ensureAtom, atomCountAddAtoms]
        omega
      change ((engine.ensureAtom atom).ensureAtoms rest).atomCount = _
      rw [inductionHypothesis, single]
      rfl

/-- Atoms that exist already are not created anew. -/
theorem grownCountSame {atoms : List Nat} {count : Nat} (inside : ∀ atom ∈ atoms, atom < count) :
    grownCount atoms count = count := by
  induction atoms with
  | nil => rfl
  | cons atom rest inductionHypothesis =>
      have below := inside atom List.mem_cons_self
      rw [grownCount, List.foldl_cons, Nat.max_eq_left below]
      exact inductionHypothesis fun other member => inside other (List.mem_cons_of_mem _ member)

theorem ensureAtomsGrows (engine : Engine) (atoms : List Nat) :
    engine.Grows (engine.ensureAtoms atoms) :=
  ensureAtomsInduction (fun _ grows => grows.addAtom) atoms (.refl engine)

/-- Afterwards all the listed atoms exist. -/
theorem ensureAtomsInside {engine : Engine} {atoms : List Nat} :
    ∀ atom ∈ atoms, atom < (engine.ensureAtoms atoms).atomCount := by
  induction atoms generalizing engine with
  | nil => simp
  | cons first rest inductionHypothesis =>
      intro atom member
      rcases List.mem_cons.1 member with rfl | inRest
      · have grows := ensureAtomsGrows (engine.ensureAtom atom) rest
        have enough := grows.atoms
        rw [ensureAtom, atomCountAddAtoms] at enough
        change atom < ((engine.ensureAtom atom).ensureAtoms rest).atomCount
        rw [ensureAtom]
        omega
      · exact inductionHypothesis atom inRest

theorem Steady.ensureAtoms {models : (Nat → Bool) → Prop} {engine : Engine}
    (steady : engine.Steady models) (atoms : List Nat) :
    Steady models (engine.ensureAtoms atoms) :=
  ensureAtomsInduction (fun _ steady => steady.addAtom) atoms steady

theorem Valid.ensureAtoms {models : (Nat → Bool) → Prop} {engine : Engine}
    (valid : engine.Valid models) (atoms : List Nat) :
    Valid models (engine.ensureAtoms atoms) := by
  have grows := ensureAtomsGrows engine atoms
  cases valid with
  | steady steady root => exact .steady (steady.ensureAtoms atoms) (grows.level.trans root)
  | refuted inconsistent unsatisfiable =>
      exact .refuted (grows.consistent.trans inconsistent) unsatisfiable

end Engine

end ParitySat
