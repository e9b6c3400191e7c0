/-
This file shows that a run of the decision order loses no atom and duplicates none, whatever the
activities compare to, and that its loops end within the bounds of the arrays.
-/

import Mathlib.Data.Finset.Insert
import Mathlib.Data.List.Perm.Basic
import ParitySat.Proofs.Checked.Order
import ParitySat.Proofs.Decision.Ranking

namespace ParitySat

namespace Checked

/-- The loop towards the root takes as many steps as it needs, and none of them meets a fault. -/
inductive Climbs (activity : Array Float) (atom : Nat) : Nat → Queue → Queue → Prop where
  | root {queue after : Queue} (placed : place queue 0 atom = .ok after) :
      Climbs activity atom 0 queue after
  | settles {slot parent : Nat} {queue after : Queue} (inner : slot ≠ 0)
      (held : queue.entries[(slot - 1) / 2]? = some parent)
      (lower : higher activity atom parent = .ok false)
      (placed : place queue slot atom = .ok after) : Climbs activity atom slot queue after
  | moves {slot parent : Nat} {queue moved after : Queue} (inner : slot ≠ 0)
      (held : queue.entries[(slot - 1) / 2]? = some parent)
      (above : higher activity atom parent = .ok true)
      (placed : place queue slot parent = .ok moved)
      (climbs : Climbs activity atom ((slot - 1) / 2) moved after) :
      Climbs activity atom slot queue after

/-- The loop towards the leaves takes as many steps as it needs, and none of them meets a fault. -/
inductive Sinks (activity : Array Float) (atom : Nat) : Nat → Queue → Queue → Prop where
  | leaf {slot : Nat} {queue after : Queue} (childless : queue.entries.size ≤ 2 * slot + 1)
      (placed : place queue slot atom = .ok after) : Sinks activity atom slot queue after
  | settles {slot child occupant : Nat} {queue after : Queue}
      (inner : 2 * slot + 1 < queue.entries.size)
      (chosen : higherChild activity queue slot = .ok child)
      (held : queue.entries[child]? = some occupant)
      (lower : higher activity occupant atom = .ok false)
      (placed : place queue slot atom = .ok after) : Sinks activity atom slot queue after
  | moves {slot child occupant : Nat} {queue moved after : Queue}
      (inner : 2 * slot + 1 < queue.entries.size)
      (chosen : higherChild activity queue slot = .ok child)
      (held : queue.entries[child]? = some occupant)
      (above : higher activity occupant atom = .ok true)
      (placed : place queue slot occupant = .ok moved)
      (sinks : Sinks activity atom child moved after) : Sinks activity atom slot queue after

section Loops

variable {activity : Array Float} {queue : Queue}

/-- The slot is a bound on the steps towards the root. -/
theorem siftUpClimbs {fuel atom slot : Nat} (fitting : Fitting activity queue)
    (inside : slot < queue.entries.size) (known : atom < queue.positions.size)
    (enough : slot ≤ fuel) :
    Climbs activity atom slot queue
      (queue.siftUp (DecisionOrder.higher activity) atom fuel slot) := by
  induction fuel generalizing slot queue with
  | zero =>
      obtain rfl := Nat.le_zero.1 enough
      exact .root (placeSafe inside known)
  | succ fuel inductionHypothesis =>
      rw [Queue.siftUp]
      split
      · next root =>
          subst root
          exact .root (placeSafe inside known)
      · next inner =>
          have parentInside : (slot - 1) / 2 < queue.entries.size := by omega
          have parentKnown := fitting.entry parentInside
          have compared : higher activity atom (queue.entry ((slot - 1) / 2)) = _ :=
            higherSafe (fitting.capacity ▸ known) (fitting.capacity ▸ parentKnown)
          simp only
          split
          · next above =>
              rw [above] at compared
              refine .moves inner (Queue.entryEq parentInside) compared
                (placeSafe inside parentKnown) ?_
              exact inductionHypothesis (fitting.place inside parentKnown)
                (by rwa [Queue.sizePlace]) (by rwa [Queue.capacityPlace]) (by omega)
          · next lower =>
              rw [Bool.eq_false_iff.2 lower] at compared
              exact .settles inner (Queue.entryEq parentInside) compared (placeSafe inside known)

/-- The slots behind the current one are a bound on the steps towards the leaves. -/
theorem siftDownSinks {fuel atom slot : Nat} (fitting : Fitting activity queue)
    (inside : slot < queue.entries.size) (known : atom < queue.positions.size)
    (enough : queue.entries.size ≤ slot + fuel) :
    Sinks activity atom slot queue
      (queue.siftDown (DecisionOrder.higher activity) atom fuel slot) := by
  induction fuel generalizing slot queue with
  | zero => exact absurd inside (by omega)
  | succ fuel inductionHypothesis =>
      rw [Queue.siftDown]
      split
      · next inner =>
          obtain ⟨below, childInside⟩ :=
            Queue.higherChildInside (DecisionOrder.higher activity) queue slot inner
          have chosen := higherChildSafe fitting inner
          simp only
          generalize queue.higherChild (DecisionOrder.higher activity) slot = child at *
          have childKnown := fitting.entry childInside
          have compared : higher activity (queue.entry child) atom = _ :=
            higherSafe (fitting.capacity ▸ childKnown) (fitting.capacity ▸ known)
          split
          · next above =>
              rw [above] at compared
              refine .moves inner chosen (Queue.entryEq childInside) compared
                (placeSafe inside childKnown) ?_
              exact inductionHypothesis (fitting.place inside childKnown)
                (by rwa [Queue.sizePlace]) (by rwa [Queue.capacityPlace])
                (by rw [Queue.sizePlace]; omega)
          · next lower =>
              rw [Bool.eq_false_iff.2 lower] at compared
              exact .settles inner chosen (Queue.entryEq childInside) compared
                (placeSafe inside known)
      · next childless => exact .leaf (by omega) (placeSafe inside known)

end Loops

end Checked

namespace Queue

namespace Indexed

variable {queue after : Queue} (indexed : queue.Indexed)
include indexed

theorem containsIff (atom : Nat) : queue.contains atom = true ↔ atom ∈ queue.entries := by
  rw [contains, Option.isSome_iff_exists, Array.mem_iff_getElem?]
  exact exists_congr fun slot => (indexed slot atom).symm

/-- Two slots of one atom would be two positions of it. -/
theorem nodup : queue.entries.toList.Nodup := by
  rw [List.nodup_iff_getElem?_ne_getElem?]
  intro first second earlier inside same
  rw [Array.getElem?_toList, Array.getElem?_toList] at same
  have inside : second < queue.entries.size := by simpa using inside
  have held := entryEq inside
  rw [held] at same
  have position := (indexed second _).1 held
  rw [(indexed first _).1 same] at position
  exact Nat.ne_of_lt earlier (Option.some.inj position)

theorem rearranged (rearranges : Rearranges queue after) :
    after.entries.toList.Perm queue.entries.toList := by
  refine (List.perm_ext_iff_of_nodup rearranges.indexed.nodup indexed.nodup).2 fun atom => ?_
  rw [Array.mem_toList_iff, Array.mem_toList_iff, ← rearranges.indexed.containsIff,
    ← indexed.containsIff, rearranges.contains]

theorem inserted {atom : Nat} (absent : queue.contains atom = false)
    (inserted : Inserted queue atom after) :
    after.entries.toList.Perm (atom :: queue.entries.toList) := by
  have fresh : atom ∉ queue.entries.toList := by
    rw [Array.mem_toList_iff, ← indexed.containsIff, absent]
    exact Bool.false_ne_true
  refine (List.perm_ext_iff_of_nodup inserted.indexed.nodup
    (List.nodup_cons.2 ⟨fresh, indexed.nodup⟩)).2 fun other => ?_
  rw [List.mem_cons, Array.mem_toList_iff, Array.mem_toList_iff, ← inserted.indexed.containsIff,
    ← indexed.containsIff, inserted.contains, Bool.or_eq_true, beq_iff_eq]

theorem removed {top : Nat} (queued : queue.contains top = true)
    (removed : Removed queue top after) :
    queue.entries.toList.Perm (top :: after.entries.toList) := by
  have gone : top ∉ after.entries.toList := by
    rw [Array.mem_toList_iff, ← removed.indexed.containsIff, removed.contains]
    simp
  refine (List.perm_ext_iff_of_nodup indexed.nodup
    (List.nodup_cons.2 ⟨gone, removed.indexed.nodup⟩)).2 fun other => ?_
  rw [List.mem_cons, Array.mem_toList_iff, Array.mem_toList_iff, ← removed.indexed.containsIff,
    ← indexed.containsIff, removed.contains, Bool.and_eq_true, bne_iff_ne]
  by_cases same : other = top
  · simp [same, queued]
  · simp [same]

end Indexed

theorem popNone (higher : Nat → Nat → Bool) (queue : Queue) :
    (queue.pop higher).1 = none ↔ queue.entries.isEmpty = true := by
  rw [Array.isEmpty_iff_size_eq_zero, pop]
  split
  · next top last first final =>
      have filled := (Array.getElem?_eq_some_iff.1 first).1
      simp only [reduceCtorEq, false_iff]
      omega
  · next missing =>
      refine iff_of_true rfl (Nat.eq_zero_of_not_pos fun filled => ?_)
      refine missing queue.entries[0] queue.entries[queue.entries.size - 1] ?_ ?_
      · exact Array.getElem?_eq_getElem filled
      · rw [Array.back?_eq_getElem?]
        exact Array.getElem?_eq_getElem (by omega)

end Queue

namespace DecisionOrder

section Turns

/-- Between two actions the activities may turn into any values at all. -/
inductive Turn where
  | act (action : Action)
  | revalue (values : Nat → Float) (increment : Float)

def revalue (order : DecisionOrder) (values : Nat → Float) (increment : Float) : DecisionOrder :=
  { order with
    activity := Array.ofFn fun atom : Fin order.activity.size => values atom
    increment }

def Turn.perform (order : DecisionOrder) : Turn → Option DecisionOrder
  | .act action => action.perform order
  | .revalue values increment => some (order.revalue values increment)

/-- The caller enters the atoms it inserts and strikes out the atoms it is given. -/
def Turn.account (order : DecisionOrder) (queued : Finset Nat) : Turn → Finset Nat
  | .act (.insert atom) => Insert.insert atom queued
  | .act .pop => order.pop.1.elim queued queued.erase
  | .act _ | .revalue .. => queued

/-- The order takes the turns while the caller keeps its own account of the queued atoms. -/
def take (order : DecisionOrder) (queued : Finset Nat) :
    List Turn → Option (DecisionOrder × Finset Nat)
  | [] => some (order, queued)
  | turn :: rest =>
    (turn.perform order).bind fun after => take after (turn.account order queued) rest

def Turn.grown (atoms : Nat) : Turn → Nat
  | .act .grow => atoms + 1
  | _ => atoms

def Turn.Known (atoms : Nat) : Turn → Prop
  | .act (.insert atom) | .act (.bump atom) => atom < atoms
  | _ => True

/-- No turn names an atom before the order has grown to it. -/
def Scoped : Nat → List Turn → Prop
  | _, [] => True
  | atoms, turn :: rest => turn.Known atoms ∧ Scoped (turn.grown atoms) rest

/-- The queue holds exactly the atoms of the account. -/
structure Kept (order : DecisionOrder) (queued : Finset Nat) : Prop where
  indexed : order.queue.Indexed
  capacity : order.queue.positions.size = order.activity.size
  account : ∀ atom, order.contains atom = true ↔ atom ∈ queued

theorem emptyKept (decayFactor : Float) : Kept (.empty decayFactor) ∅ where
  indexed := Queue.emptyIndexed
  capacity := rfl
  account atom := by simp [contains, empty, Queue.contains, Queue.position, Queue.empty]

section Steps

variable {order : DecisionOrder} {queued : Finset Nat} (kept : Kept order queued)
include kept

theorem Kept.grow : Kept order.grow queued where
  indexed := (Queue.growIndexed kept.indexed).1
  capacity := by
    rw [queueGrow, Queue.capacityGrow, kept.capacity]
    exact (Array.size_push _).symm
  account atom := by
    rw [contains, queueGrow, (Queue.growIndexed kept.indexed).2]
    exact kept.account atom

theorem Kept.insert {atom : Nat} (known : atom < order.activity.size) :
    Kept (order.insert atom) (Insert.insert atom queued) := by
  have inserted := Queue.insertInserted (higher order.activity) atom kept.indexed
    (kept.capacity ▸ known)
  refine ⟨inserted.indexed, inserted.capacity.trans kept.capacity, fun other => ?_⟩
  rw [contains, queueInsert, inserted.contains, Bool.or_eq_true, beq_iff_eq, Finset.mem_insert]
  exact or_congr_right (kept.account other)

theorem Kept.bump (atom : Nat) : Kept (order.bump atom) queued := by
  have bumped := bumpRearranges atom kept.indexed
  refine ⟨bumped.indexed, ?_, fun other => ?_⟩
  · rw [bumped.capacity, kept.capacity, activityBump, sizeCredit]
  · rw [contains, bumped.contains]
    exact kept.account other

theorem Kept.pop : Kept order.pop.2 (order.pop.1.elim queued queued.erase) := by
  rcases Queue.popRemoved (higher order.activity) kept.indexed with
    ⟨none, -⟩ | ⟨top, after, some, -, removed⟩
  · simpa only [DecisionOrder.pop, none, Option.elim_none] using kept
  · simp only [DecisionOrder.pop, some, Option.elim_some]
    refine ⟨removed.indexed, removed.capacity.trans kept.capacity, fun other => ?_⟩
    rw [contains, removed.contains, Bool.and_eq_true, bne_iff_ne, Finset.mem_erase]
    exact and_congr_right fun _ => kept.account other

theorem Kept.revalue (values : Nat → Float) (increment : Float) :
    Kept (order.revalue values increment) queued :=
  { kept with capacity := kept.capacity.trans Array.size_ofFn.symm }

/-- The order accepts every turn about known atoms, and the account stays right. -/
theorem Kept.perform {turn : Turn} (known : turn.Known order.activity.size) :
    ∃ after, turn.perform order = some after ∧ Kept after (turn.account order queued) ∧
      after.activity.size = turn.grown order.activity.size := by
  cases turn with
  | revalue values increment => exact ⟨_, rfl, kept.revalue values increment, Array.size_ofFn⟩
  | act action =>
      cases action with
      | grow => exact ⟨_, rfl, kept.grow, Array.size_push _⟩
      | insert atom => exact ⟨_, if_pos known, kept.insert known, rfl⟩
      | bump atom =>
          refine ⟨_, if_pos known, kept.bump atom, ?_⟩
          exact (congrArg Array.size (activityBump order atom)).trans (sizeCredit order atom)
      | decay => exact ⟨_, rfl, { kept with }, rfl⟩
      | pop => exact ⟨_, rfl, kept.pop, rfl⟩

end Steps

theorem Kept.take {turns : List Turn} {order : DecisionOrder} {queued : Finset Nat}
    (kept : Kept order queued) (inScope : Scoped order.activity.size turns) :
    ∃ after account, order.take queued turns = some (after, account) ∧ Kept after account := by
  induction turns generalizing order queued with
  | nil => exact ⟨order, queued, rfl, kept⟩
  | cons turn rest inductionHypothesis =>
      obtain ⟨known, restInScope⟩ := inScope
      obtain ⟨next, performed, keptNext, size⟩ := kept.perform known
      rw [← size] at restInScope
      obtain ⟨after, account, taken, keptAfter⟩ := inductionHypothesis keptNext restInScope
      refine ⟨after, account, ?_, keptAfter⟩
      rw [DecisionOrder.take, performed, Option.bind_some, taken]

end Turns

section Effects

/-- The heap holds exactly the atoms of the account, each of them once and at its position. -/
structure Exact (order : DecisionOrder) (queued : Finset Nat) : Prop where
  once : order.queue.entries.toList.Nodup
  inverse : ∀ slot atom : Nat, order.queue.positions[atom]? = some (some slot) ↔
    order.queue.entries[slot]? = some atom
  contains : ∀ atom, order.contains atom = true ↔ atom ∈ order.queue.entries
  account : ∀ atom, atom ∈ order.queue.entries ↔ atom ∈ queued

/-- Only an insertion adds an atom to the heap, and only a pop takes one away. -/
structure Moves (order : DecisionOrder) : Prop where
  grow : order.grow.queue.entries = order.queue.entries
  again : ∀ atom, order.contains atom = true → order.insert atom = order
  insert : ∀ atom < order.activity.size, order.contains atom = false →
    (order.insert atom).queue.entries.toList.Perm (atom :: order.queue.entries.toList)
  bump : ∀ atom, (order.bump atom).queue.entries.toList.Perm order.queue.entries.toList
  decay : order.decay.queue = order.queue
  exhausted : order.pop.1 = none ↔ order.isEmpty = true
  idle : order.pop.1 = none → order.pop.2 = order
  pop : ∀ top, order.pop.1 = some top →
    order.queue.entries.toList.Perm (top :: order.pop.2.queue.entries.toList)

/-- No action meets a fault, and its loop ends without a bound on the steps. -/
structure Finishes (order : DecisionOrder) : Prop where
  insert : ∀ atom < order.activity.size,
    Checked.insert order.activity atom order.queue = .ok (order.insert atom).queue
  insertion : ∀ atom < order.activity.size, order.contains atom = false →
    Checked.Climbs order.activity atom order.queue.entries.size (order.queue.pushed atom)
      (order.insert atom).queue
  bump : ∀ atom < order.activity.size, Checked.bump order atom = .ok (order.bump atom)
  promotion : ∀ slot atom : Nat, order.queue.entries[slot]? = some atom →
    Checked.Climbs (order.credit atom).activity atom slot order.queue (order.bump atom).queue
  pop : Checked.pop order.activity order.queue = .ok (order.pop.1, order.pop.2.queue)
  removal : ∀ top last : Nat, order.queue.entries[0]? = some top →
    order.queue.entries.back? = some last → 1 < order.queue.entries.size →
    Checked.Sinks order.activity last 0 (order.queue.replaceTop top last) order.pop.2.queue

variable {order : DecisionOrder} {queued : Finset Nat} (kept : Kept order queued)
include kept

theorem Kept.exact : Exact order queued where
  once := kept.indexed.nodup
  inverse slot atom := by
    rw [kept.indexed slot atom, Queue.position, Array.getD_eq_getD_getElem?]
    cases order.queue.positions[atom]? <;> simp
  contains := kept.indexed.containsIff
  account atom := (kept.indexed.containsIff atom).symm.trans (kept.account atom)

theorem Kept.moves : Moves order where
  grow := rfl
  again atom queued := by
    have same : order.queue.insert (higher order.activity) atom = order.queue := if_pos queued
    rw [DecisionOrder.insert, same]
  insert atom known absent :=
    kept.indexed.inserted absent
      (Queue.insertInserted (higher order.activity) atom kept.indexed (kept.capacity ▸ known))
  bump atom := kept.indexed.rearranged (bumpRearranges atom kept.indexed)
  decay := rfl
  exhausted := Queue.popNone (higher order.activity) order.queue
  idle missing := by
    rcases Queue.popRemoved (higher order.activity) kept.indexed with
      ⟨none, -⟩ | ⟨top, after, some, -, -⟩
    · simp only [DecisionOrder.pop, none]
    · cases missing.symm.trans (congrArg Prod.fst some : order.pop.1 = Option.some top)
  pop top taken := by
    rcases Queue.popRemoved (higher order.activity) kept.indexed with
      ⟨none, -⟩ | ⟨other, after, some, held, removed⟩
    · cases taken.symm.trans (congrArg Prod.fst none : order.pop.1 = Option.none)
    · have first : order.pop.1 = Option.some other := congrArg Prod.fst some
      obtain rfl : other = top := Option.some.inj (first.symm.trans taken)
      have rest : order.pop.2.queue = after := congrArg Prod.snd some
      rw [rest]
      exact kept.indexed.removed held removed

theorem Kept.finishes : Finishes order := by
  have fitting : Checked.Fitting order.activity order.queue := .ofIndexed kept.indexed kept.capacity
  refine ⟨fun atom known => ?_, fun atom known absent => ?_, fun atom known => ?_,
    fun slot atom held => ?_, ?_, fun top last first final several => ?_⟩
  · exact Checked.insertSafe fitting (kept.capacity ▸ known)
  · have inside : atom < order.queue.positions.size := kept.capacity ▸ known
    have unfolded : (order.insert atom).queue = (order.queue.pushed atom).siftUp
        (higher order.activity) atom order.queue.entries.size order.queue.entries.size :=
      if_neg (Bool.eq_false_iff.1 absent)
    rw [unfolded]
    exact Checked.siftUpClimbs (fitting.pushed inside) (by simp [Queue.pushed])
      (by simpa [Queue.pushed] using inside) (Nat.le_refl _)
  · exact Checked.bumpSafe kept.indexed kept.capacity (kept.capacity ▸ known)
  · have position := (kept.indexed slot atom).1 held
    rw [queueBump, Queue.raise, position]
    exact Checked.siftUpClimbs
      (.ofIndexed kept.indexed (kept.capacity.trans (sizeCredit order atom).symm))
      (Array.getElem?_eq_some_iff.1 held).1 (Queue.Indexed.positionInside position) (Nat.le_refl _)
  · exact Checked.popSafe kept.indexed kept.capacity
  · have moved := Queue.replaceTopIndexed kept.indexed first final several
    have taken : order.pop.2.queue = order.queue.removeTop (higher order.activity) top last := by
      simp only [DecisionOrder.pop, Queue.pop, first, final]
    rw [taken, Queue.removeTopSinks _ top last several]
    refine Checked.siftDownSinks (.ofIndexed moved ?_) ?_ ?_ (by omega)
    · simpa [Queue.replaceTop] using kept.capacity
    · rw [Queue.sizeReplaceTop]
      omega
    · simpa [Queue.replaceTop] using
        Queue.Indexed.positionInside (Queue.lastPosition kept.indexed final)

end Effects

section Runs

/-- A run loses no atom and duplicates none, whatever the activities compare to.

The caller's account of the atoms is right after every turn, and the loops end within bounds. -/
theorem runsLoseNoAtom (decayFactor : Float) {turns : List Turn} (inScope : Scoped 0 turns) :
    ∃ order queued, take (.empty decayFactor) ∅ turns = some (order, queued) ∧
      order.Exact queued ∧ order.Moves ∧ order.Finishes := by
  obtain ⟨order, queued, taken, kept⟩ := (emptyKept decayFactor).take inScope
  exact ⟨order, queued, taken, kept.exact, kept.moves, kept.finishes⟩

/-- All activities are unordered when the queued atoms are bumped and popped. -/
def unorderedRun : List Turn :=
  [.act .grow, .act (.insert 0), .act .grow, .act (.insert 1), .act .grow, .act (.insert 2),
    .revalue (fun _ => 0.0 / 0.0) (0.0 / 0.0), .act (.bump 2), .act .decay, .act (.insert 1),
    .act .pop]

theorem unorderedRunLosesNoAtom : Scoped 0 unorderedRun ∧
    ∃ order, take (.empty 0.0) ∅ unorderedRun = some (order, {1, 2}) ∧
      order.Exact {1, 2} ∧ order.Moves ∧ order.Finishes := by
  have inScope : Scoped 0 unorderedRun := by
    simp [Scoped, unorderedRun, Turn.Known, Turn.grown]
  obtain ⟨order, queued, taken, exact, moves, finishes⟩ := runsLoseNoAtom 0.0 inScope
  have account : (take (.empty 0.0) ∅ unorderedRun).map Prod.snd = some {1, 2} := by
    decide +kernel
  obtain rfl : queued = {1, 2} := by
    rw [taken] at account
    exact Option.some.inj account
  exact ⟨inScope, order, taken, exact, moves, finishes⟩

end Runs

end DecisionOrder

end ParitySat
