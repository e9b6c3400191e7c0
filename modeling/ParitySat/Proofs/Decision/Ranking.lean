/-
This file shows which atom a run of the decision order gives up first.
-/

import ParitySat.Proofs.Decision.Heap
import ParitySat.Proofs.Decision.Order
import ParitySat.Proofs.Numeral.Operations

namespace ParitySat.DecisionOrder

open Double (Unsigned rank)
open Queue (Compatible Heaped)

section Order

/-- The activities are compared by their ranks. -/
def standing (activity : Array Float) (atom : Nat) : Nat :=
  rank (activity.getD atom 0.0)

/-- No activity has a sign, and in particular every activity is a number. -/
def Plain (activity : Array Float) : Prop :=
  ∀ atom, Unsigned (activity.getD atom 0.0)

variable {activity : Array Float} (plain : Plain activity)
include plain

theorem higherIff {first second : Nat} : higher activity first second = true ↔
    standing activity second < standing activity first ∨
      (standing activity first = standing activity second ∧ first < second) := by
  have greater := Double.lessIff (plain second) (plain first)
  have same := Double.sameIff (plain first) (plain second)
  simp only [higher, Bool.or_eq_true, Bool.and_eq_true, decide_eq_true_eq, standing, ← greater,
    ← same]

theorem notHigherIff {first second : Nat} : higher activity first second = false ↔
    standing activity first < standing activity second ∨
      (standing activity first = standing activity second ∧ second ≤ first) := by
  rw [← Bool.not_eq_true, higherIff plain]
  omega

/-- The comparison never contradicts the order of the activities. -/
theorem standingCompatible : Compatible (higher activity)
    (fun first second => standing activity first ≤ standing activity second) where
  refl _ := Nat.le_refl _
  trans := Nat.le_trans
  ranked better := by
    rw [higherIff plain] at better
    omega
  unranked worse := by
    rw [notHigherIff plain] at worse
    omega

/-- The comparison is a linear order of the atoms. -/
theorem higherCompatible : Compatible (higher activity)
    (fun first second => higher activity first second = false) where
  refl _ := by
    rw [notHigherIff plain]
    omega
  trans less lessEqual := by
    rw [notHigherIff plain] at less lessEqual ⊢
    omega
  ranked better := by
    rw [higherIff plain] at better
    rw [notHigherIff plain]
    omega
  unranked := id

end Order

section Credit

/-- The activities after a bump and before they are scaled down. -/
def raised (order : DecisionOrder) (atom : Nat) : Array Float :=
  order.activity.setIfInBounds atom (order.activity.getD atom 0.0 + order.increment)

/-- The activities after they are scaled down. -/
def scaled (activity : Array Float) : Array Float :=
  (activity.toList.map (· * rescaleFactor)).toArray

theorem raisedOther (order : DecisionOrder) {atom other : Nat} (different : other ≠ atom) :
    (order.raised atom).getD other 0.0 = order.activity.getD other 0.0 := by
  simp only [raised, Array.getD_eq_getD_getElem?,
    Array.getElem?_setIfInBounds_ne (Ne.symm different)]

theorem raisedOwn (order : DecisionOrder) {atom : Nat} (known : atom < order.activity.size) :
    (order.raised atom).getD atom 0.0 = order.activity.getD atom 0.0 + order.increment := by
  simp [raised, Array.getD_eq_getD_getElem?, known]

theorem nothingScaled : (0.0 : Float) * rescaleFactor = 0.0 := by
  decide +kernel

theorem scaledOwn (activity : Array Float) (atom : Nat) :
    (scaled activity).getD atom 0.0 = activity.getD atom 0.0 * rescaleFactor := by
  simp only [scaled, Array.getD_eq_getD_getElem?, List.getElem?_toArray, List.getElem?_map,
    Array.getElem?_toList]
  cases activity[atom]? with
  | none => exact nothingScaled.symm
  | some value => rfl

theorem creditActivity (order : DecisionOrder) (atom : Nat) :
    (order.credit atom).activity = order.raised atom ∨
      (order.credit atom).activity = scaled (order.raised atom) := by
  unfold credit
  simp only
  split
  · exact .inr rfl
  · exact .inl rfl

theorem incrementBump (order : DecisionOrder) (atom : Nat) :
    (order.bump atom).increment = order.increment ∨
      (order.bump atom).increment = order.increment * rescaleFactor := by
  simp only [bump, credit]
  split
  · exact .inr rfl
  · exact .inl rfl

theorem decayFactorBump (order : DecisionOrder) (atom : Nat) :
    (order.bump atom).decayFactor = order.decayFactor := by
  simp only [bump, credit]
  split <;> rfl

theorem rescaleStored : rescaleFactor.toModel.unpack =
    .finite .positive 7880401239278896 (-385) (by decide) := rfl

theorem Plain.scaled {activity : Array Float} (plain : Plain activity) :
    Plain (scaled activity) := by
  intro atom
  rw [scaledOwn]
  exact Double.unsignedProduct rescaleStored (plain atom)

/-- Activities may become equal when they are scaled down, but they never change their order. -/
theorem scaledStanding {activity : Array Float} (plain : Plain activity) {first second : Nat}
    (less : standing activity first ≤ standing activity second) :
    standing (scaled activity) first ≤ standing (scaled activity) second := by
  unfold standing
  rw [scaledOwn, scaledOwn]
  exact Double.productAtMost rescaleStored (by decide) (plain first) (plain second) less

theorem raisedSame (order : DecisionOrder) {atom other : Nat} (different : other ≠ atom) :
    standing (order.raised atom) other = standing order.activity other := by
  unfold standing
  rw [raisedOther order different]

variable {order : DecisionOrder} {atom first second : Nat} (plain : Plain order.activity)
  (increment : Unsigned order.increment) (known : atom < order.activity.size)
include plain increment known

theorem Plain.raised : Plain (order.raised atom) := by
  intro other
  by_cases same : other = atom
  · rw [same, raisedOwn order known]
    exact Double.unsignedSum (plain atom) increment
  · rw [raisedOther order same]
    exact plain other

theorem Plain.credit : Plain (order.credit atom).activity := by
  have raised := plain.raised increment known
  rcases creditActivity order atom with same | same
  · rwa [same]
  · rw [same]
    exact raised.scaled

/-- A bump lowers no activity before all are scaled down. -/
theorem raisedAtLeast (other : Nat) :
    standing order.activity other ≤ standing (order.raised atom) other := by
  by_cases same : other = atom
  · unfold standing
    rw [same, raisedOwn order known]
    exact Double.sumAtLeast (plain atom) increment
  · exact Nat.le_of_eq (raisedSame order same).symm

theorem raisedKept (different : first ≠ atom)
    (less : standing order.activity first ≤ standing order.activity second) :
    standing (order.raised atom) first ≤ standing (order.raised atom) second := by
  rw [raisedSame order different]
  exact Nat.le_trans less (raisedAtLeast plain increment known second)

theorem standingKept (different : first ≠ atom)
    (less : standing order.activity first ≤ standing order.activity second) :
    standing (order.credit atom).activity first ≤
      standing (order.credit atom).activity second := by
  have kept := raisedKept plain increment known different less
  rcases creditActivity order atom with same | same
  · rwa [same]
  · rw [same]
    exact scaledStanding (plain.raised increment known) kept

end Credit

section Actions

/-- A caller takes these actions one after the other. -/
inductive Action where
  | grow
  | insert (atom : Nat)
  | bump (atom : Nat)
  | decay
  | pop
  deriving Repr, DecidableEq

/-- No action accepts an atom that the order has not grown to. -/
def Action.perform (order : DecisionOrder) : Action → Option DecisionOrder
  | .grow => some order.grow
  | .insert atom => if atom < order.activity.size then some (order.insert atom) else none
  | .bump atom => if atom < order.activity.size then some (order.bump atom) else none
  | .decay => some order.decay
  | .pop => some order.pop.2

def run (order : DecisionOrder) (actions : List Action) : Option DecisionOrder :=
  actions.foldlM Action.perform order

/-- What every run preserves apart from the order of the queue. -/
structure Sound (order : DecisionOrder) : Prop where
  indexed : order.queue.Indexed
  capacity : order.queue.positions.size = order.activity.size
  plain : Plain order.activity
  increment : Unsigned order.increment
  positive : 0.0 < order.decayFactor
  small : order.decayFactor ≤ 1.0

theorem emptySound {decayFactor : Float} (positive : 0.0 < decayFactor)
    (small : decayFactor ≤ 1.0) : Sound (.empty decayFactor) where
  indexed := Queue.emptyIndexed
  capacity := rfl
  plain _ := by
    change rank 0.0 ≤ _
    decide +kernel
  increment := by
    change rank 1.0 ≤ _
    decide +kernel
  positive
  small

theorem activityGrown (activity : Array Float) (atom : Nat) :
    (activity.push 0.0).getD atom 0.0 = activity.getD atom 0.0 := by
  simp only [Array.getD_eq_getD_getElem?, Array.getElem?_push]
  split
  · next last => simp [last]
  · rfl

theorem Sound.grow {order : DecisionOrder} (sound : Sound order) : Sound order.grow where
  indexed := (Queue.growIndexed sound.indexed).1
  capacity := by
    rw [queueGrow, Queue.capacityGrow, sound.capacity]
    exact (Array.size_push _).symm
  plain atom := by
    change Unsigned ((order.activity.push 0.0).getD atom 0.0)
    rw [activityGrown]
    exact sound.plain atom
  increment := sound.increment
  positive := sound.positive
  small := sound.small

theorem Sound.insert {order : DecisionOrder} (sound : Sound order) {atom : Nat}
    (known : atom < order.activity.size) : Sound (order.insert atom) := by
  have inserted := Queue.insertInserted (higher order.activity) atom sound.indexed
    (sound.capacity ▸ known)
  exact { sound with
    indexed := inserted.indexed
    capacity := inserted.capacity.trans sound.capacity }

theorem Sound.bump {order : DecisionOrder} (sound : Sound order) {atom : Nat}
    (known : atom < order.activity.size) : Sound (order.bump atom) where
  indexed := (bumpRearranges atom sound.indexed).indexed
  capacity := by
    rw [activityBump, (bumpRearranges atom sound.indexed).capacity, sound.capacity, sizeCredit]
  plain := by
    rw [activityBump]
    exact sound.plain.credit sound.increment known
  increment := by
    rcases incrementBump order atom with same | same
    · rw [same]
      exact sound.increment
    · rw [same]
      exact Double.unsignedProduct rescaleStored sound.increment
  positive := by
    rw [decayFactorBump]
    exact sound.positive
  small := by
    rw [decayFactorBump]
    exact sound.small

theorem Sound.decay {order : DecisionOrder} (sound : Sound order) : Sound order.decay :=
  { sound with increment := Double.unsignedDiv sound.increment sound.positive sound.small }

theorem Sound.pop {order : DecisionOrder} (sound : Sound order) : Sound order.pop.2 := by
  rcases Queue.popRemoved (higher order.activity) sound.indexed with
    ⟨none, -⟩ | ⟨top, after, some, -, removed⟩
  · have same : order.pop.2 = order := by simp only [DecisionOrder.pop, none]
    rwa [same]
  · have taken : order.pop.2.queue = after := congrArg Prod.snd some
    exact { sound with
      indexed := taken ▸ removed.indexed
      capacity := by rw [taken, removed.capacity]; exact sound.capacity }

theorem Sound.perform {order after : DecisionOrder} (sound : Sound order) {action : Action}
    (performed : action.perform order = some after) : Sound after := by
  cases action with
  | grow =>
      cases performed
      exact sound.grow
  | insert atom =>
      obtain ⟨known, same⟩ := Option.ite_none_right_eq_some.1 performed
      cases same
      exact sound.insert known
  | bump atom =>
      obtain ⟨known, same⟩ := Option.ite_none_right_eq_some.1 performed
      exact Option.some.inj same ▸ sound.bump known
  | decay =>
      cases performed
      exact sound.decay
  | pop =>
      cases performed
      exact sound.pop

/-- Every action keeps the heap in an order that the comparison agrees with.

A bump must keep the order of the queued atoms apart from the bumped one. -/
theorem performHeaped {below : Array Float → Nat → Nat → Prop}
    (compatible : ∀ {activity}, Plain activity → Compatible (higher activity) (below activity))
    (grown : ∀ activity : Array Float, below (activity.push 0.0) = below activity)
    {order after : DecisionOrder} {action : Action} (sound : Sound order)
    (kept : ∀ atom, action = .bump atom → atom < order.activity.size → ∀ first second,
      order.contains first = true → order.contains second = true → first ≠ atom →
      below order.activity first second → below (order.credit atom).activity first second)
    (heaped : Heaped (below order.activity) order.queue)
    (performed : action.perform order = some after) :
    Heaped (below after.activity) after.queue := by
  cases action with
  | grow =>
      cases performed
      change Heaped (below (order.activity.push 0.0)) order.queue.grow
      rw [grown]
      exact heaped
  | insert atom =>
      obtain ⟨known, same⟩ := Option.ite_none_right_eq_some.1 performed
      cases same
      exact Queue.insertHeaped (compatible sound.plain) heaped atom
  | bump atom =>
      obtain ⟨known, same⟩ := Option.ite_none_right_eq_some.1 performed
      rw [← Option.some.inj same, activityBump, queueBump]
      exact Queue.raiseHeaped (compatible (sound.plain.credit sound.increment known))
        sound.indexed heaped (fun _ _ _ => (compatible sound.plain).trans) (kept atom rfl known)
  | decay =>
      cases performed
      exact heaped
  | pop =>
      cases performed
      exact Queue.popHeaped (compatible sound.plain) heaped

end Actions

section Apart

/-- No queued atom falls back to a lower one of smaller activity when all are scaled down. -/
def KeepsApart (order : DecisionOrder) (atom : Nat) : Prop :=
  ∀ first second, order.contains first = true ∧ order.contains second = true → first < second →
    (order.raised atom).getD first 0.0 < (order.raised atom).getD second 0.0 →
    (order.credit atom).activity.getD first 0.0 < (order.credit atom).activity.getD second 0.0

/-- Only queued atoms have to be compared. -/
instance (order : DecisionOrder) (atom : Nat) : Decidable (order.KeepsApart atom) :=
  decidable_of_iff
    (∀ first < order.queue.positions.size, ∀ second < order.queue.positions.size,
      order.contains first = true ∧ order.contains second = true → first < second →
      (order.raised atom).getD first 0.0 < (order.raised atom).getD second 0.0 →
      (order.credit atom).activity.getD first 0.0 < (order.credit atom).activity.getD second 0.0)
    ⟨fun apart first second queued =>
      apart first (Queue.containsInside queued.1) second (Queue.containsInside queued.2) queued,
      fun apart first _ second _ => apart first second⟩

def Action.KeepsApart (order : DecisionOrder) : Action → Prop
  | .bump atom => order.KeepsApart atom
  | _ => True

instance (order : DecisionOrder) : (action : Action) → Decidable (action.KeepsApart order)
  | .bump atom => inferInstanceAs (Decidable (order.KeepsApart atom))
  | .grow | .insert _ | .decay | .pop => .isTrue trivial

/-- No action of a run lets a queued atom fall back to a lower one. -/
def RunsApart : List Action → DecisionOrder → Prop
  | [], _ => True
  | action :: rest, order =>
    action.KeepsApart order ∧ ∀ after ∈ action.perform order, RunsApart rest after

instance decideRunsApart : (actions : List Action) → (order : DecisionOrder) →
    Decidable (RunsApart actions order)
  | [], _ => .isTrue trivial
  | action :: rest, order =>
    have := decideRunsApart rest
    inferInstanceAs
      (Decidable (action.KeepsApart order ∧ ∀ after ∈ action.perform order, RunsApart rest after))

variable {order : DecisionOrder} {atom first second : Nat} (plain : Plain order.activity)
  (increment : Unsigned order.increment) (known : atom < order.activity.size)
include plain increment known

theorem higherKept (apart : order.KeepsApart atom) (queued : order.contains first = true)
    (otherQueued : order.contains second = true) (different : first ≠ atom)
    (less : higher order.activity first second = false) :
    higher (order.credit atom).activity first second = false := by
  have raised := plain.raised increment known
  have credited := plain.credit increment known
  have ahead := raisedAtLeast plain increment known second
  have strict := apart first second ⟨queued, otherQueued⟩
  rw [Double.lessIff (raised first) (raised second),
    Double.lessIff (credited first) (credited second)] at strict
  change _ → standing _ _ < standing _ _ → standing _ _ < standing _ _ at strict
  rw [raisedSame order different] at strict
  rw [notHigherIff plain] at less
  have kept : standing (order.credit atom).activity first ≤
      standing (order.credit atom).activity second :=
    standingKept plain increment known different (by omega)
  rw [notHigherIff credited]
  omega

end Apart

section Runs

theorem standingGrown (activity : Array Float) :
    standing (activity.push 0.0) = standing activity := by
  funext atom
  rw [standing, activityGrown, standing]

theorem higherGrown (activity : Array Float) :
    higher (activity.push 0.0) = higher activity := by
  funext first second
  simp only [higher, activityGrown]

/-- No atom in the queue has a smaller activity than its children. -/
abbrev Standing (order : DecisionOrder) : Prop :=
  Heaped (fun first second => standing order.activity first ≤ standing order.activity second)
    order.queue

/-- No atom in the queue ranks below its children. -/
abbrev Ordered (order : DecisionOrder) : Prop :=
  Heaped (fun first second => higher order.activity first second = false) order.queue

variable {order after : DecisionOrder} {actions : List Action}

theorem Sound.runStanding (sound : Sound order) (standing : order.Standing)
    (performed : run order actions = some after) : Sound after ∧ after.Standing := by
  induction actions generalizing order with
  | nil =>
      cases performed
      exact ⟨sound, standing⟩
  | cons action rest inductionHypothesis =>
      obtain ⟨next, first, others⟩ := Option.bind_eq_some_iff.1 performed
      refine inductionHypothesis (sound.perform first) ?_ others
      exact performHeaped standingCompatible (fun activity => by rw [standingGrown]) sound
        (fun atom _ known _ _ _ _ => standingKept sound.plain sound.increment known) standing first

/-- The whole order is kept as long as no atom falls back to a lower one. -/
theorem Sound.runOrdered (sound : Sound order) (ordered : order.Ordered)
    (apart : RunsApart actions order) (performed : run order actions = some after) :
    after.Ordered := by
  induction actions generalizing order with
  | nil =>
      cases performed
      exact ordered
  | cons action rest inductionHypothesis =>
      obtain ⟨next, first, others⟩ := Option.bind_eq_some_iff.1 performed
      refine inductionHypothesis (sound.perform first) ?_ (apart.2 next first) others
      refine performHeaped higherCompatible (fun activity => by rw [higherGrown]) sound
        (fun atom same known _ _ => ?_) ordered first
      subst same
      exact higherKept sound.plain sound.increment known apart.1

/-- No queued atom has a greater activity. -/
def Greatest (order : DecisionOrder) (top : Nat) : Prop :=
  order.contains top = true ∧ ∀ other, order.contains other = true →
    order.activity.getD other 0.0 ≤ order.activity.getD top 0.0

/-- The atom ranks above all the other queued atoms. -/
def Highest (order : DecisionOrder) (top : Nat) : Prop :=
  order.contains top = true ∧ ∀ other, order.contains other = true → other ≠ top →
    higher order.activity top other = true

theorem Sound.popGreatest (sound : Sound order) (standing : order.Standing)
    (filled : order.isEmpty = false) :
    ∃ top, order.pop.1 = some top ∧ order.Greatest top ∧
      (order.Ordered → order.Highest top) := by
  rcases Queue.popRemoved (higher order.activity) sound.indexed with
    ⟨-, none⟩ | ⟨top, after, taken, queued, -⟩
  · have inside : 0 < order.queue.entries.size := by
      rw [isEmpty, Array.isEmpty_eq_false_iff_exists_mem] at filled
      obtain ⟨atom, member⟩ := filled
      exact Array.size_pos_of_mem member
    have root := (sound.indexed 0 _).1 (Queue.entryEq inside)
    have absent := none (order.queue.entry 0)
    rw [Queue.contains, root] at absent
    cases absent
  · refine ⟨top, congrArg Prod.fst taken, ⟨queued, fun other otherQueued => ?_⟩,
      fun ordered => ⟨queued, fun other otherQueued different => ?_⟩⟩
    · rw [Double.atMostIff (sound.plain other) (sound.plain top)]
      exact Queue.popGreatest (standingCompatible sound.plain) sound.indexed standing taken other
        otherQueued
    · have less := Queue.popGreatest (higherCompatible sound.plain) sound.indexed ordered taken
        other otherQueued
      rw [notHigherIff sound.plain] at less
      rw [higherIff sound.plain]
      omega

/-- A run gives up an atom of greatest activity, and the lowest one unless activities merge.

The parents in the heap are in the same order as their children. -/
theorem runsRank {decayFactor : Float} (positive : 0.0 < decayFactor)
    (small : decayFactor ≤ 1.0) (performed : run (.empty decayFactor) actions = some order) :
    (order.isEmpty = true → order.pop.1 = none) ∧
      (order.isEmpty = false → ∃ top, order.pop.1 = some top ∧ order.Greatest top ∧
        (RunsApart actions (.empty decayFactor) → order.Highest top)) ∧
      Heaped (fun first second =>
        order.activity.getD first 0.0 ≤ order.activity.getD second 0.0) order.queue ∧
      (RunsApart actions (.empty decayFactor) → order.Ordered) := by
  have start := emptySound positive small
  obtain ⟨sound, standing⟩ := start.runStanding (Queue.emptyHeaped _) performed
  have ordered (apart : RunsApart actions (.empty decayFactor)) : order.Ordered :=
    start.runOrdered (Queue.emptyHeaped _) apart performed
  refine ⟨fun none => ?_, fun filled => ?_, fun slot notRoot inside => ?_, ordered⟩
  · rw [isEmpty, Array.isEmpty_iff] at none
    simp [pop, Queue.pop, none]
  · obtain ⟨top, taken, greatest, highest⟩ := sound.popGreatest standing filled
    exact ⟨top, taken, greatest, fun apart => highest (ordered apart)⟩
  · exact (Double.atMostIff (sound.plain _) (sound.plain _)).2 (standing slot notRoot inside)

/-- The last bump scales all activities down, and the first one is still above zero afterwards. -/
def scalingRun : List Action :=
  [.grow, .grow, .grow, .insert 0, .insert 1, .insert 2, .bump 0, .decay, .bump 1, .decay, .bump 2]

/-- Scaling keeps the three activities apart, and the greatest one belongs to the last atom. -/
theorem runsRankApart : (0.0 : Float) < 1e-60 ∧ (1e-60 : Float) ≤ 1.0 ∧
    RunsApart scalingRun (.empty 1e-60) ∧
    ∃ order, run (.empty 1e-60) scalingRun = some order ∧
      (order.activity.getD 0 0.0 == rescaleFactor) = true ∧
      order.activity.getD 0 0.0 < order.activity.getD 1 0.0 ∧
      order.activity.getD 1 0.0 < order.activity.getD 2 0.0 ∧
      order.pop.1 = some 2 ∧ order.Highest 2 ∧ order.Ordered := by
  have performed := (@Option.some_get _ (run (.empty 1e-60) scalingRun) (by decide +kernel)).symm
  have positive : (0.0 : Float) < 1e-60 := by decide +kernel
  have small : (1e-60 : Float) ≤ 1.0 := by decide +kernel
  have apart : RunsApart scalingRun (.empty 1e-60) := by decide +kernel
  obtain ⟨-, filled, -, ordered⟩ := runsRank positive small performed
  obtain ⟨top, taken, -, highest⟩ := filled (by decide +kernel)
  have last : top = 2 := Option.some.inj (taken.symm.trans (by decide +kernel))
  subst last
  exact ⟨positive, small, apart, _, performed, by decide +kernel, by decide +kernel,
    by decide +kernel, taken, highest apart, ordered apart⟩

/-- The activity of atom 1 is scaled down four times and is zero in the end. -/
def mergingRun : List Action :=
  [.grow, .grow, .grow, .insert 0, .insert 1, .bump 1, .decay, .bump 2, .decay, .bump 2, .decay,
    .bump 2, .decay, .bump 2]

/-- An atom is given up before a lower one of the same activity after their activities merge. -/
theorem mergedRunsUnordered : (0.0 : Float) < 1e-101 ∧ (1e-101 : Float) ≤ 1.0 ∧
    ∃ order, run (.empty 1e-101) mergingRun = some order ∧
      order.pop.1 = some 1 ∧ order.contains 0 = true ∧ higher order.activity 0 1 = true ∧
      ¬order.Highest 1 ∧ ¬order.Ordered := by
  have performed := (@Option.some_get _ (run (.empty 1e-101) mergingRun)
    (by decide +kernel)).symm
  refine ⟨by decide +kernel, by decide +kernel, _, performed, by decide +kernel,
    by decide +kernel, by decide +kernel, fun highest => ?_, fun ordered => ?_⟩
  · have outranked := highest.2 0 (by decide +kernel) (by decide)
    revert outranked
    decide +kernel
  · have child := ordered 1 (by decide) (by decide +kernel)
    revert child
    decide +kernel

end Runs

end ParitySat.DecisionOrder
