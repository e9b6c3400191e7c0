/-
This file shows that every learnt clause stays listed exactly once while clauses are stored,
rearranged and deleted.
-/

import ParitySat.Engine.Search
import ParitySat.Proofs.Decision.Order
import ParitySat.Proofs.Engine.Reduction

namespace ParitySat

namespace Engine

/-- Every learnt clause is listed once, and no other clause is listed. -/
def Registered (engine : Engine) : Prop :=
  ∀ reference, engine.learnts.toList.count reference =
    (engine.network.store.clause reference).learnt.toNat

/-- Every atom has an activity. -/
def Ranked (engine : Engine) : Prop :=
  engine.order.activity.size = engine.atomCount

section Registered

variable {engine : Engine} (registered : engine.Registered)
include registered

theorem Registered.member {reference : Nat} :
    reference ∈ engine.learnts.toList ↔
      (engine.network.store.clause reference).learnt = true := by
  rw [← List.count_pos_iff, registered reference]
  cases (engine.network.store.clause reference).learnt <;> simp

theorem Registered.inside {reference : Nat} (listed : reference ∈ engine.learnts.toList) :
    reference < engine.network.store.clauses.size := by
  refine Nat.lt_of_not_le fun outside => ?_
  have learnt := registered.member.1 listed
  rw [ClauseStore.clauseOutside outside] at learnt
  contradiction

theorem Registered.distinct : engine.learnts.toList.Nodup := by
  rw [List.nodup_iff_count]
  intro reference
  rw [registered reference]
  exact Bool.toNat_le _

/-- Only the list and the flags matter. -/
theorem Registered.same {after : Engine} (learnts : after.learnts = engine.learnts)
    (flags : ∀ reference, (after.network.store.clause reference).learnt =
      (engine.network.store.clause reference).learnt) : after.Registered := by
  intro reference
  rw [learnts, flags]
  exact registered reference

/-- The next reference has not been listed before. -/
theorem Registered.attach (clause : Clause) {learnts : Array Nat}
    (listed : learnts = if clause.learnt then
      engine.learnts.push engine.network.store.clauses.size else engine.learnts) :
    Registered { engine with network := engine.network.attach clause, learnts } := by
  intro reference
  have old := registered reference
  simp only [Network.attach, ClauseStore.clauseAdd, listed]
  by_cases next : reference = engine.network.store.clauses.size
  · subst next
    rw [ClauseStore.clauseOutside (Nat.le_refl _)] at old
    have fresh : engine.learnts.toList.count engine.network.store.clauses.size = 0 := old
    rw [if_pos rfl]
    cases clause.learnt <;> simp [fresh]
  · rw [if_neg next, ← old]
    cases clause.learnt <;> simp [Ne.symm next]

end Registered

/-- A victim of a reduction is deleted. -/
theorem markAllDeleted {victims : List Nat} {clauses : Array Clause} {reference : Nat}
    (victim : reference ∈ victims) (inside : reference < clauses.size) :
    ((markAll victims clauses).getD reference default).deleted = true := by
  induction victims generalizing clauses with
  | nil => exact absurd victim List.not_mem_nil
  | cons first rest inductionHypothesis =>
      change ((markAll rest (clauses.modify first Clause.markDeleted)).getD reference
        default).deleted = true
      by_cases later : reference ∈ rest
      · exact inductionHypothesis later (by rwa [Array.size_modify])
      · obtain rfl : reference = first := by simpa [later] using victim
        rcases (markAllSpec rest (clauses.modify reference Clause.markDeleted)).2 reference with
          same | ⟨again, -⟩
        · rw [same]
          simp [Array.getElem_modify, inside, Clause.markDeleted]
        · exact absurd again later

/-- Everything that is ranked survives or becomes a victim. -/
theorem countSurvivors (engine : Engine) (reference : Nat) :
    engine.survivors.count reference + engine.victims.count reference =
      engine.learnts.toList.count reference := by
  have ranked : engine.ranking.count reference = engine.learnts.toList.count reference :=
    (rankedPermutes _ _).count_eq reference
  have cut := List.take_append_drop (engine.ranking.length / 2) engine.ranking
  rw [← ranked, ← cut, List.count_append, survivors, victims, List.count_append]
  generalize engine.ranking.take (engine.ranking.length / 2) = half
  have parted := List.countP_eq_countP_filter_add half (· == reference) (disposable engine.network)
  simp only [List.count] at parted ⊢
  omega

/-- A reduction unlists what it deletes and renames the rest. -/
theorem Registered.reduce {engine : Engine} (registered : engine.Registered)
    (shaped : engine.network.Shaped) : engine.reduce.Registered := by
  have marks := reduceMarks shaped fun reference listed => registered.member.1 listed
  intro new
  rw [networkReduce, learntsReduce]
  by_cases inside : new < engine.condemned.compact.store.clauses.size
  · obtain ⟨old, same⟩ := Network.renamedOnto inside
    obtain ⟨-, stored, oldInside⟩ := Network.renamedFound marks same
    have survives : engine.victims.count old = 0 := by
      rw [List.count_eq_zero]
      intro victim
      have dead := markAllDeleted victim oldInside
      obtain ⟨-, clause, found, live, -⟩ := slotsFound (tableFound.1 same)
      rw [Array.getElem?_toList] at found
      rw [Array.getD_eq_getD_getElem?] at dead
      change ((engine.condemned.store.clauses[old]?).getD default).deleted = true at dead
      rw [found, Option.getD_some, live] at dead
      contradiction
    have split := countSurvivors engine old
    rw [countRenamed same fun other hit => slotsInjective (tableFound.1 hit) (tableFound.1 same),
      stored, ← registered old]
    omega
  · have absent : new ∉ engine.survivors.filterMap engine.condemned.renamed := by
      intro member
      obtain ⟨old, -, same⟩ := List.mem_filterMap.1 member
      exact inside (Network.renamedFound marks same).1
    rw [List.count_eq_zero.2 absent, ClauseStore.clauseOutside (Nat.not_lt.1 inside)]
    rfl

/-- The list of the learnt clauses stays complete, and no learnt unit is forgotten. -/
structure Tends (before after : Engine) : Prop where
  registered : before.Registered → after.Registered
  activity : after.order.activity.size = before.order.activity.size
  units : before.learntUnits.toList <+: after.learntUnits.toList
  consistent : after.consistent = before.consistent

theorem Tends.refl (engine : Engine) : engine.Tends engine :=
  ⟨id, rfl, List.prefix_refl _, rfl⟩

theorem Tends.trans {first second third : Engine} (left : first.Tends second)
    (right : second.Tends third) : first.Tends third where
  registered := right.registered ∘ left.registered
  activity := right.activity.trans left.activity
  units := left.units.trans right.units
  consistent := right.consistent.trans left.consistent

section Activity

theorem activityInsertAll (order : DecisionOrder) (literals : List Literal) :
    (order.insertAll literals).activity = order.activity := by
  induction literals generalizing order with
  | nil => rfl
  | cons literal rest inductionHypothesis => exact inductionHypothesis (order.insert literal.atom)

theorem sizeBumpAll (order : DecisionOrder) (atoms : List Nat) :
    (atoms.foldl DecisionOrder.bump order).activity.size = order.activity.size := by
  induction atoms generalizing order with
  | nil => rfl
  | cons atom rest inductionHypothesis =>
      rw [List.foldl_cons, inductionHypothesis, DecisionOrder.activityBump,
        DecisionOrder.sizeCredit]

theorem activityPopUndetermined (trail : Trail) (fuel : Nat) (order : DecisionOrder) :
    (popUndetermined trail fuel order).2.activity = order.activity := by
  induction fuel generalizing order with
  | zero => rfl
  | succ fuel inductionHypothesis =>
      rw [popUndetermined]
      split
      · next popped =>
          exact congrArg (fun popped : Option Nat × DecisionOrder => popped.2.activity) popped.symm
      · next popped =>
          have kept := congrArg (fun popped : Option Nat × DecisionOrder => popped.2.activity) popped
          split
          · exact kept.symm
          · exact (inductionHypothesis _).trans kept.symm

end Activity

section Parts

variable {engine : Engine}

/-- The search may change anything else. -/
theorem Tends.same {after : Engine} (learnts : after.learnts = engine.learnts)
    (clauses : after.network.store.clauses = engine.network.store.clauses)
    (activity : after.order.activity.size = engine.order.activity.size)
    (units : after.learntUnits = engine.learntUnits)
    (consistent : after.consistent = engine.consistent) : engine.Tends after where
  registered registered := registered.same learnts fun reference => by
    rw [ClauseStore.clause, clauses, ClauseStore.clause]
  activity
  units := units ▸ List.prefix_refl _
  consistent

theorem tendsPropagate (ready : engine.network.Ready) : engine.Tends engine.propagate.2 where
  registered registered := registered.same rfl fun reference => by
    have alike := ((Network.propagateSpec ready).1.propagates.clauses reference).2
    have learnt := congrArg Clause.learnt alike
    exact learnt
  activity := rfl
  units := List.prefix_refl _
  consistent := rfl

theorem tendsCancelUntil (level : Nat) : engine.Tends (engine.cancelUntil level) :=
  .same rfl rfl (congrArg Array.size (activityInsertAll _ _)) rfl rfl

/-- A recorded clause is the next one to be listed. -/
theorem tendsRecord (analysis : Analysis) : engine.Tends (engine.record analysis) := by
  unfold record
  split
  · exact .same rfl rfl rfl rfl rfl
  · exact
      { registered := fun registered => registered.same rfl fun _ => rfl
        activity := rfl
        units := by simp [enqueue]
        consistent := rfl }
  · next first rest _ _ =>
      exact
        { registered := fun registered => (registered.attach
            { literals := first :: rest, learnt := true, glue := analysis.glue } rfl).same rfl
              fun _ => rfl
          activity := rfl
          units := List.prefix_refl _
          consistent := rfl }

theorem tendsLearn (analysis : Analysis) : engine.Tends (engine.learn analysis) := by
  have bumped : engine.Tends { engine with
      order := analysis.touched.foldl DecisionOrder.bump engine.order } :=
    .same rfl rfl (sizeBumpAll _ _) rfl rfl
  refine bumped.trans ((tendsCancelUntil analysis.returnLevel).trans ?_)
  exact (tendsRecord analysis).trans (.same rfl rfl rfl rfl rfl)

theorem tendsReduce (shaped : engine.network.Shaped) : engine.Tends engine.reduce where
  registered registered := registered.reduce shaped
  activity := rfl
  units := List.prefix_refl _
  consistent := rfl

theorem tendsPickBranch (generator : Generator) :
    engine.Tends (engine.pickBranch generator).2 := by
  have random : engine.Tends (engine.randomBranch generator).2 := by
    unfold randomBranch
    split
    · simp only
      split <;> exact .same rfl rfl rfl rfl rfl
    · exact .refl engine
  unfold pickBranch
  generalize engine.randomBranch generator = drawn at random
  obtain ⟨choice, after⟩ := drawn
  cases choice with
  | some atom => exact random
  | none =>
      exact random.trans (.same rfl rfl
        (congrArg Array.size (activityPopUndetermined _ _ _)) rfl rfl)

end Parts

end Engine

end ParitySat
