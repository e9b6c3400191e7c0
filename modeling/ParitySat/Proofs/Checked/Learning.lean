/-
This file shows that a search returns, learns and reduces its store without an index out of bounds.
-/

import ParitySat.Proofs.Checked.Analysis
import ParitySat.Proofs.Checked.Order
import ParitySat.Proofs.Engine.Learning
import ParitySat.Proofs.Engine.Registry

namespace ParitySat.Checked

open Engine

def queueAtom (order : DecisionOrder) (atom : Nat) : Except Fault DecisionOrder := do
  let queue ← insert order.activity atom order.queue
  return { order with queue }

/-- The released literals lie above a position of the trail, and their atoms are queued again. -/
def cancelUntil (engine : Engine) (level : Nat) : Except Fault Engine := do
  let trail := engine.network.trail
  if level < trail.level then
    within trail.limits level
    require (trail.levelStart level ≤ trail.literals.size) .outOfBounds
    each (fun literal => within trail.atoms literal.atom) (trail.released level)
    let order ← (trail.released level).foldlM (fun order literal => queueAtom order literal.atom)
      engine.order
    return { engine with
      network := { engine.network with trail := trail.cancelUntil level }
      order }
  else return engine

/-- Only a clause with two literals can be watched. -/
def attach (store : ClauseStore) (clause : Clause) : Except Fault ClauseStore := do
  match clause.literals with
  | first :: second :: _ =>
    within store.watches first.index
    within store.watches second.index
    return store.add clause
  | _ => .error .shortClause

/-- A learnt clause has a first literal, and that is assigned in the end. -/
def record (engine : Engine) (analysis : Analysis) : Except Fault Engine := do
  match analysis.literals with
  | [] => .error .outOfBounds
  | [literal] =>
    let _ ← enqueue engine.network.trail literal none
    return engine.record analysis
  | first :: _ :: _ =>
    let _ ← attach engine.network.store
      { literals := analysis.literals, learnt := true, glue := analysis.glue }
    let _ ← enqueue engine.network.trail first
      (some (.clause engine.network.store.clauses.size))
    return engine.record analysis

def learn (engine : Engine) (analysis : Analysis) : Except Fault Engine := do
  let order ← analysis.touched.foldlM bump engine.order
  let returned ← cancelUntil { engine with order } analysis.returnLevel
  let recorded ← record returned analysis
  return { recorded with
    order := recorded.order.decay
    bound := tickBound recorded.options recorded.bound }

/-- A clause is asked for its first literal, and the atom of that for its reason. -/
def lockable (network : Network) (reference : Nat) : Except Fault Unit := do
  within network.store.clauses reference
  match network.store.literals reference with
  | [] => .error .outOfBounds
  | first :: _ => within network.trail.atoms first.atom

/-- Every reference to a clause is looked up in the table of the new references. -/
def collectGarbage (engine : Engine) : Except Fault Engine := do
  let table := relocations engine.network.store.clauses.toList
  each (fun references => each (within table) references.toList)
    engine.network.store.watches.toList
  each (within table) engine.learnts.toList
  each (fun state =>
    match state.reason with
    | some (.clause reference) => within table reference
    | _ => .ok ()) engine.network.trail.atoms.toList
  return engine.collectGarbage

def reduce (engine : Engine) : Except Fault Engine := do
  each (within engine.network.store.clauses) engine.learnts.toList
  each (lockable engine.network) (engine.ranking.take (engine.ranking.length / 2))
  collectGarbage { engine with
    network := engine.condemned
    learnts := engine.survivors.toArray
    statistics := { engine.statistics with reductions := engine.statistics.reductions + 1 } }

/-- Every atom has a position in the queue and an activity. -/
structure Tabled (order : DecisionOrder) (count : Nat) : Prop where
  indexed : order.queue.Indexed
  capacity : order.queue.positions.size = count
  ranked : order.activity.size = count

section Tabled

variable {order : DecisionOrder} {count : Nat} (tabled : Tabled order count)
include tabled

theorem Tabled.same : order.queue.positions.size = order.activity.size :=
  tabled.capacity.trans tabled.ranked.symm

theorem queueAtomSafe {atom : Nat} (known : atom < count) :
    queueAtom order atom = .ok (order.insert atom) ∧ Tabled (order.insert atom) count := by
  have inside : atom < order.queue.positions.size := tabled.capacity ▸ known
  have inserted := Queue.insertInserted (DecisionOrder.higher order.activity) atom tabled.indexed
    inside
  refine ⟨?_, inserted.indexed, inserted.capacity.trans tabled.capacity, tabled.ranked⟩
  rw [queueAtom, insertSafe (.ofIndexed tabled.indexed tabled.same) inside]
  rfl

theorem bumpTabled {atom : Nat} (known : atom < count) :
    bump order atom = .ok (order.bump atom) ∧ Tabled (order.bump atom) count := by
  have bumped := DecisionOrder.bumpRearranges atom tabled.indexed
  exact ⟨bumpSafe tabled.indexed tabled.same (tabled.capacity ▸ known), bumped.indexed,
    bumped.capacity.trans tabled.capacity, (sizeBumpAll order [atom]).trans tabled.ranked⟩

theorem queueAllSafe {literals : List Literal}
    (known : ∀ literal ∈ literals, literal.atom < count) :
    literals.foldlM (fun order literal => queueAtom order literal.atom) order =
      .ok (order.insertAll literals) :=
  foldMet (Tabled · count) (fun _ tabled literal member =>
    queueAtomSafe tabled (known literal member)) tabled

theorem bumpAllSafe {atoms : List Nat} (known : ∀ atom ∈ atoms, atom < count) :
    atoms.foldlM bump order = .ok (atoms.foldl DecisionOrder.bump order) :=
  foldMet (Tabled · count)
    (fun _ tabled atom member => bumpTabled tabled (known atom member)) tabled

theorem Tabled.bumpAll (atoms : List Nat) :
    Tabled (atoms.foldl DecisionOrder.bump order) count := by
  have bumped := DecisionOrder.bumpAllRearranges atoms tabled.indexed
  exact ⟨bumped.indexed, bumped.capacity.trans tabled.capacity,
    (sizeBumpAll order atoms).trans tabled.ranked⟩

end Tabled

theorem cancelUntilSafe {engine : Engine} (coherent : engine.network.trail.Coherent)
    (tabled : Tabled engine.order engine.atomCount) (level : Nat) :
    cancelUntil engine level = .ok (engine.cancelUntil level) := by
  rw [cancelUntil]
  simp only
  split
  · next open_ =>
      have start : engine.network.trail.levelStart level ≤ engine.network.trail.literals.size := by
        rw [← (Trail.boundaryInside open_).1]
        exact coherent.boundaryLe level
      have known : ∀ literal ∈ engine.network.trail.released level,
          literal.atom < engine.network.trail.atoms.size := by
        intro literal member
        rw [Trail.released, if_pos open_] at member
        exact coherent.inside (Trail.aboveMember member)
      rw [withinMet open_, okBind, requireMet start, okBind,
        eachMet fun literal member => withinMet (known literal member), okBind,
        queueAllSafe tabled known, okBind, pureOk]
      rfl
  · next shut =>
      simp only [Engine.cancelUntil, Trail.released, Trail.cancelUntil, if_neg shut, List.foldl_nil,
        pureOk]

theorem attachSafe {store : ClauseStore} {clause : Clause} {first second : Literal}
    {rest : List Literal} (literals : clause.literals = first :: second :: rest)
    (firstInside : first.index < store.watches.size)
    (secondInside : second.index < store.watches.size) :
    attach store clause = .ok (store.add clause) := by
  rw [attach, literals]
  simp only
  rw [withinMet firstInside, okBind, withinMet secondInside, okBind, pureOk]

theorem recordSafe {engine : Engine}
    (width : engine.network.store.watches.size = 2 * engine.atomCount)
    {analysis : Analysis} {first : Literal} {rest : List Literal}
    (literals : analysis.literals = first :: rest)
    (inside : ∀ literal ∈ analysis.literals, literal.atom < engine.atomCount)
    (unknown : engine.network.trail.atomValue first.atom = none) :
    record engine analysis = .ok (engine.record analysis) := by
  have known := inside first (literals ▸ List.mem_cons_self)
  rw [record]
  cases rest with
  | nil =>
      rw [literals]
      simp only
      rw [enqueueSafe known unknown, okBind, pureOk]
  | cons second others =>
      have index (literal : Literal) (member : literal ∈ analysis.literals) :
          literal.index < engine.network.store.watches.size := by
        rw [width]
        exact ClauseStore.indexInside (inside literal member)
      rw [attachSafe literals (index first (by simp [literals]))
        (index second (by simp [literals]))]
      rw [literals]
      simp only [okBind]
      rw [enqueueSafe known unknown, okBind, pureOk]

theorem learnSafe {models : (Nat → Bool) → Prop} {engine : Engine} (stable : engine.network.Stable)
    (tabled : Tabled engine.order engine.atomCount) {analysis : Analysis} {point : Literal}
    {rest : List Literal}
    (asserting : Analysis.Asserting models engine.network.trail point rest analysis) :
    learn engine analysis = .ok (engine.learn analysis) := by
  have coherent := stable.shaped.trail
  have bumped := tabled.bumpAll analysis.touched
  have size : (engine.network.trail.cancelUntil analysis.returnLevel).atoms.size =
      engine.network.trail.atoms.size := Trail.sizeCancelUntil
  have inside : ∀ literal ∈ analysis.literals, literal.atom <
      (engine.network.trail.cancelUntil analysis.returnLevel).atoms.size := by
    intro literal member
    rw [size]
    rw [asserting.literals] at member
    rcases List.mem_cons.1 member with rfl | other
    · rw [Literal.atomNegate]
      exact coherent.inside asserting.member
    · exact (coherent.inside (asserting.falsified literal other).1 :
        literal.negate.atom < engine.network.trail.atoms.size)
  have unknown : (engine.network.trail.cancelUntil analysis.returnLevel).atomValue
      point.negate.atom = none := by
    apply Trail.unknownCancelUntil coherent
    rw [Literal.atomNegate, asserting.level]
    exact asserting.returns
  have width : engine.network.store.watches.size =
      2 * (engine.network.trail.cancelUntil analysis.returnLevel).atoms.size := by
    rw [size]
    exact stable.shaped.store.width
  let credited : Engine :=
    { engine with order := analysis.touched.foldl DecisionOrder.bump engine.order }
  have cancelled := @cancelUntilSafe credited coherent bumped analysis.returnLevel
  have recorded := @recordSafe (credited.cancelUntil analysis.returnLevel) width analysis _ _
    asserting.literals inside unknown
  rw [learn, bumpAllSafe tabled asserting.touched, okBind, cancelled, okBind, recorded, okBind,
    pureOk]
  rfl

theorem sizeRelocations (clauses : List Clause) : (relocations clauses).size = clauses.length := by
  have length (start : Nat) : (slots clauses start).length = clauses.length := by
    induction clauses generalizing start with
    | nil => rfl
    | cons first rest inductionHypothesis =>
        rw [slots]
        split <;> rw [List.length_cons, List.length_cons, inductionHypothesis]
  rw [← Array.length_toList, relocationsEq, length]

/-- A collection needs nothing but references to stored clauses. -/
theorem collectGarbageSafe {engine : Engine} {size : Nat}
    (stored : engine.network.store.clauses.size = size)
    (watchers : ∀ references ∈ engine.network.store.watches,
      ∀ reference ∈ references, reference < size)
    (learnts : ∀ reference ∈ engine.learnts.toList, reference < size)
    (reasons : ∀ atom reference, engine.network.trail.reason atom = some (.clause reference) →
      reference < size) :
    collectGarbage engine = .ok engine.collectGarbage := by
  have table : (relocations engine.network.store.clauses.toList).size = size := by
    rw [sizeRelocations, Array.length_toList, stored]
  rw [collectGarbage, eachMet fun references listed => eachMet fun reference member =>
      withinMet (table ▸ watchers references (Array.mem_toList_iff.1 listed) reference
        (Array.mem_toList_iff.1 member)), okBind,
    eachMet fun reference member => withinMet (table ▸ learnts reference member), okBind,
    eachMet fun state listed => ?_, okBind, pureOk]
  obtain ⟨atom, found⟩ := Array.mem_iff_getElem?.1 (Array.mem_toList_iff.1 listed)
  have same : engine.network.trail.reason atom = state.reason := by
    rw [Trail.reason, Trail.atom, Array.getD_eq_getD_getElem?, found, Option.getD_some]
  split
  · next reference known => exact withinMet (table ▸ reasons atom reference (same.trans known))
  · rfl

theorem reduceSafe {engine : Engine} (shaped : engine.network.Shaped)
    (registered : engine.Registered) : reduce engine = .ok engine.reduce := by
  have ranked (reference : Nat) (member : reference ∈ engine.ranking) :
      reference < engine.network.store.clauses.size :=
    registered.inside ((rankedPermutes _ _).mem_iff.1 member)
  have first (reference : Nat) (member : reference ∈ engine.ranking) :
      lockable engine.network reference = .ok () := by
    have inside := ranked reference member
    obtain ⟨watch, other, rest, same⟩ := shaped.store.split inside
    rw [lockable, withinMet inside, okBind, same]
    exact withinMet ((shaped.store.properOfCons same).inside watch List.mem_cons_self)
  have survivors (reference : Nat) (member : reference ∈ engine.survivors) :
      reference ∈ engine.ranking := by
    rcases List.mem_append.1 member with kept | later
    · exact List.mem_of_mem_take (List.mem_filter.1 kept).1
    · exact List.mem_of_mem_drop later
  rw [reduce, eachMet fun reference member => withinMet (registered.inside member), okBind,
    eachMet fun reference member => first reference (List.mem_of_mem_take member), okBind]
  -- A condemned clause stays in the store until the collection, so every reference still fits.
  exact collectGarbageSafe (markAllSpec engine.victims engine.network.store.clauses).1
    (fun _ listed _ member => shaped.store.stored listed member)
    (fun reference member => ranked reference (survivors reference member))
    (fun _ _ known => shaped.reasonInside known)

end ParitySat.Checked
