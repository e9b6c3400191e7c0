/-
This file weighs a trail, so that a literal outweighs everything that may stand above its level.
-/

import Mathlib.Algebra.Order.BigOperators.Group.List
import Mathlib.Algebra.Order.Ring.Nat
import ParitySat.Proofs.Engine.Learning

namespace ParitySat

namespace Trail

/-- Beyond the assumptions every level begins with a literal of its own. -/
def Decided (assumed : Nat) (trail : Trail) : Prop :=
  (trail.limits.toList.drop assumed ++ [trail.literals.size]).Pairwise (· < ·)

/-- A literal counts as many times as all the literals of the next level could count together. -/
def worth (assumed : Nat) (trail : Trail) (level : Nat) : Nat :=
  (trail.atoms.size + 1) ^ (assumed + trail.atoms.size - level)

/-- The weight of a trail adds up what its literals are worth at their levels. -/
def weight (assumed : Nat) (trail : Trail) : Nat :=
  (trail.literals.toList.map fun literal =>
    trail.worth assumed (trail.atomLevel literal.atom)).sum

/-- No trail over so many atoms and assumptions weighs as much. -/
def heaviest (atoms assumed : Nat) : Nat :=
  (atoms + 1) ^ (assumed + atoms + 1)

section Decided

variable {assumed : Nat} {trail : Trail}

theorem decidedRoot (root : trail.level = 0) : trail.Decided assumed := by
  have none : trail.limits.toList = [] := List.eq_nil_of_length_eq_zero root
  simp [Decided, none]

/-- The levels beyond the assumptions are no more than the literals. -/
theorem Decided.levelLe (decided : trail.Decided assumed) :
    trail.level ≤ assumed + trail.literals.size := by
  have below := (List.pairwise_append.1 decided).2.2
  have distinct : (trail.limits.toList.drop assumed).Nodup :=
    (List.pairwise_append.1 decided).1.imp Nat.ne_of_lt
  have subset : trail.limits.toList.drop assumed ⊆ List.range trail.literals.size :=
    fun limit member => List.mem_range.2 (below limit member _ List.mem_cons_self)
  have few := distinct.length_le_of_subset subset
  rw [List.length_drop, List.length_range, Array.length_toList] at few
  change trail.limits.size ≤ _
  omega

/-- More literals at the same levels make no difference. -/
theorem Decided.longer (decided : trail.Decided assumed) {after : Trail}
    (limits : after.limits = trail.limits) (size : trail.literals.size ≤ after.literals.size) :
    after.Decided assumed := by
  obtain ⟨ascending, -, below⟩ := List.pairwise_append.1 decided
  rw [Decided, limits, List.pairwise_append]
  refine ⟨ascending, List.pairwise_singleton _ _, fun limit member last same => ?_⟩
  have early := below limit member _ List.mem_cons_self
  rw [List.mem_singleton.1 same]
  omega

/-- A level for an assumption needs no literal. -/
theorem decidedOpenLevel (low : trail.level < assumed) : trail.openLevel.Decided assumed := by
  have none : trail.openLevel.limits.toList.drop assumed = [] := by
    rw [List.drop_eq_nil_iff, Array.length_toList]
    change trail.openLevel.level ≤ assumed
    rw [levelOpenLevel]
    exact low
  rw [Decided, none]
  exact List.pairwise_singleton _ _

/-- A decision is the first literal of its level. -/
theorem Decided.decide (decided : trail.Decided assumed) (literal : Literal) :
    (trail.openLevel.enqueue literal none).Decided assumed := by
  have limits : ((trail.openLevel.enqueue literal none).limits.toList.drop assumed).Sublist
      (trail.limits.toList.drop assumed ++ [trail.literals.size]) := by
    change ((trail.limits.push trail.literals.size).toList.drop assumed).Sublist _
    rw [Array.toList_push, List.drop_append]
    exact (List.Sublist.refl _).append (List.drop_sublist _ _)
  rw [Decided, List.pairwise_append]
  refine ⟨decided.sublist limits, List.pairwise_singleton _ _, fun limit member last same => ?_⟩
  have listed := limits.subset member
  rw [List.mem_append, List.mem_singleton] at listed
  have size : (trail.openLevel.enqueue literal none).literals.size = trail.literals.size + 1 :=
    Array.size_push _
  rw [List.mem_singleton.1 same, size]
  rcases listed with early | rfl
  · exact Nat.lt_succ_of_lt ((List.pairwise_append.1 decided).2.2 limit early _ List.mem_cons_self)
  · exact Nat.lt_succ_self _

/-- The levels that remain have kept their literals. -/
theorem Decided.cancelUntil (coherent : trail.Coherent) (decided : trail.Decided assumed)
    (level : Nat) : (trail.cancelUntil level).Decided assumed := by
  by_cases open_ : level < trail.level
  · obtain ⟨-, found⟩ := boundaryInside open_
    obtain ⟨inside, same⟩ := List.getElem?_eq_some_iff.1 found
    have size : (trail.cancelUntil level).literals.size = trail.boundary level := by
      rw [← Array.length_toList, literalsCancelUntil, initial, List.length_take,
        Array.length_toList, Nat.min_eq_left (coherent.boundaryLe level)]
    rw [Decided, limitsCancelUntil, size]
    by_cases low : level < assumed
    · have none : (trail.limits.toList.take level).drop assumed = [] := by
        rw [List.drop_eq_nil_iff, List.length_take]
        omega
      rw [none]
      exact List.pairwise_singleton _ _
    · -- The end of the remaining trail is the beginning of the first level that has gone.
      have whole : (trail.limits.toList.take level).drop assumed ++ [trail.boundary level] =
          (trail.limits.toList.take (level + 1)).drop assumed := by
        rw [← List.take_concat_get' _ _ inside, same, List.drop_append_of_le_length]
        rw [List.length_take]
        omega
      rw [whole]
      exact (List.pairwise_append.1 decided).1.sublist
        ((List.take_sublist _ _).drop assumed)
  · rwa [cancelUntilLow (Nat.not_lt.1 open_)]

end Decided

section Weight

variable {trail after : Trail} (assumed : Nat)

theorem worthPositive (level : Nat) : 0 < trail.worth assumed level :=
  Nat.pow_pos (Nat.succ_pos _)

theorem worthMono {low high : Nat} (below : low ≤ high) :
    trail.worth assumed high ≤ trail.worth assumed low :=
  Nat.pow_le_pow_right (Nat.succ_pos _) (Nat.sub_le_sub_left below _)

theorem worthSame (atoms : after.atoms.size = trail.atoms.size) (level : Nat) :
    after.worth assumed level = trail.worth assumed level := by
  rw [worth, atoms, worth]

/-- As many literals as there are atoms do not outweigh one of the level below. -/
theorem worthNext {level count : Nat} (below : level < assumed + trail.atoms.size)
    (few : count ≤ trail.atoms.size) :
    count * trail.worth assumed (level + 1) < trail.worth assumed level := by
  have next : assumed + trail.atoms.size - level =
      assumed + trail.atoms.size - (level + 1) + 1 := by omega
  rw [worth, worth, next, Nat.pow_succ, Nat.mul_comm]
  exact Nat.mul_lt_mul_of_pos_left (Nat.lt_succ_of_le few) (Nat.pow_pos (Nat.succ_pos _))

/-- Literals of these levels weigh no more than as many of the lowest. -/
theorem worthSum {lowest : Nat} {literals : List Literal}
    (high : ∀ literal ∈ literals, lowest ≤ trail.atomLevel literal.atom) :
    (literals.map fun literal => trail.worth assumed (trail.atomLevel literal.atom)).sum ≤
      literals.length * trail.worth assumed lowest := by
  have bound := List.sum_le_card_nsmul
    (literals.map fun literal => trail.worth assumed (trail.atomLevel literal.atom))
    (trail.worth assumed lowest) fun value member => by
      obtain ⟨literal, listed, rfl⟩ := List.mem_map.1 member
      exact worthMono assumed (high literal listed)
  simpa using bound

theorem weightLt (coherent : trail.Coherent) :
    trail.weight assumed < heaviest trail.atoms.size assumed := by
  have bound : trail.weight assumed ≤ trail.literals.toList.length * trail.worth assumed 0 :=
    worthSum assumed fun literal _ => Nat.zero_le (trail.atomLevel literal.atom)
  calc trail.weight assumed ≤ trail.literals.toList.length * trail.worth assumed 0 := bound
    _ < (trail.atoms.size + 1) * trail.worth assumed 0 := by
      refine Nat.mul_lt_mul_of_pos_right ?_ (worthPositive assumed 0)
      rw [Array.length_toList]
      exact Nat.lt_succ_of_le coherent.sizeLe
    _ = heaviest trail.atoms.size assumed := by
      rw [heaviest, worth, Nat.sub_zero, Nat.mul_comm, ← Nat.pow_succ]

/-- The weight of a longer trail is that of the old literals and that of the new ones. -/
theorem weightAppend {added : List Literal} (atoms : after.atoms.size = trail.atoms.size)
    (grown : after.literals.toList = trail.literals.toList ++ added)
    (levels : ∀ literal ∈ trail.literals.toList,
      after.atomLevel literal.atom = trail.atomLevel literal.atom) :
    after.weight assumed = trail.weight assumed +
      (added.map fun literal => after.worth assumed (after.atomLevel literal.atom)).sum := by
  rw [weight, grown, List.map_append, List.sum_append]
  congr 2
  refine List.map_congr_left fun literal member => ?_
  rw [worthSame assumed atoms, levels literal member]

theorem weightEnqueue (coherent : trail.Coherent) {literal : Literal} (reason : Option Reason)
    (inside : literal.atom < trail.atoms.size)
    (unknown : trail.atomValue literal.atom = none) :
    (trail.enqueue literal reason).weight assumed =
      trail.weight assumed + trail.worth assumed trail.level := by
  rw [weightAppend assumed (sizeEnqueue _ _ _) (literalsEnqueue _ _ _) fun other member =>
    atomLevelEnqueue _ _ _ (Ne.symm (coherent.undetermined unknown member))]
  rw [List.map_singleton, List.sum_singleton, atomLevelEnqueueSame _ _ _ inside,
    worthSame assumed (sizeEnqueue _ _ _)]

/-- What is lost with the levels above the given one is less than a literal at that level. -/
theorem weightCancelUntil (coherent : trail.Coherent) (decided : trail.Decided assumed)
    {level : Nat} (open_ : level < trail.level) :
    trail.weight assumed <
      (trail.cancelUntil level).weight assumed + trail.worth assumed level := by
  have split : trail.literals.toList =
      (trail.cancelUntil level).literals.toList ++ (trail.above level).reverse := by
    rw [literalsCancelUntil, aboveDrop, (boundaryInside open_).1.symm, initial,
      List.take_append_drop]
  have high : ∀ literal ∈ (trail.above level).reverse,
      level + 1 ≤ trail.atomLevel literal.atom := by
    intro literal gone
    have dropped := List.mem_reverse.1 gone
    have member := aboveMember dropped
    have absent := (memberAbove coherent open_ member).1 dropped
    exact Nat.lt_of_not_le fun low => absent (coherent.memberBoundary.2 ⟨member, low⟩)
  have few : (trail.above level).reverse.length ≤ trail.atoms.size := by
    have lengths := congrArg List.length split
    rw [List.length_append, Array.length_toList] at lengths
    have size := coherent.sizeLe
    omega
  have below : level < assumed + trail.atoms.size := by
    have deep := decided.levelLe
    have size := coherent.sizeLe
    omega
  rw [weightAppend assumed sizeCancelUntil.symm split fun literal _ =>
    (atomLevelCancelUntil literal.atom).symm]
  exact Nat.add_lt_add_left
    (Nat.lt_of_le_of_lt (worthSum assumed high) (worthNext assumed below few)) _

end Weight

/-- The later trail is decided as well, and it has gained so much weight. -/
structure Rises (assumed gain : Nat) (before after : Trail) : Prop where
  decided : after.Decided assumed
  weight : before.weight assumed + gain ≤ after.weight assumed

theorem Rises.trans {assumed first second : Nat} {before middle after : Trail}
    (lower : Rises assumed first before middle) (upper : Rises assumed second middle after) :
    Rises assumed (first + second) before after where
  decided := upper.decided
  weight := by
    have low := lower.weight
    have high := upper.weight
    omega

theorem risesOpenLevel {assumed : Nat} {trail : Trail} (low : trail.level < assumed) :
    Rises assumed 0 trail trail.openLevel :=
  ⟨decidedOpenLevel low, Nat.le_refl _⟩

section Rises

variable {assumed : Nat} {trail : Trail} (decided : trail.Decided assumed)
include decided

/-- A trail that only differs in its reasons and phases weighs the same. -/
theorem Alike.rises {after : Trail} (alike : trail.Alike after)
    (atoms : after.atoms.size = trail.atoms.size) : Rises assumed 0 trail after where
  decided := decided.longer alike.limits (Nat.le_of_eq (congrArg Array.size alike.literals).symm)
  weight := by
    have same : after.weight assumed = trail.weight assumed := by
      simp only [weight, worth, atoms, alike.literals, alike.level]
    rw [same]
    exact Nat.le_refl _

variable (coherent : trail.Coherent) {literal : Literal} (inside : literal.atom < trail.atoms.size)
include coherent inside

/-- A decision adds its literal. -/
theorem risesDecide (finished : trail.head = trail.literals.size)
    (unknown : trail.atomValue literal.atom = none) :
    Rises assumed 1 trail (trail.openLevel.enqueue literal none) where
  decided := decided.decide literal
  weight := by
    have positive : 0 < trail.openLevel.worth assumed trail.openLevel.level :=
      worthPositive assumed _
    rw [weightEnqueue assumed (coherent.openLevel finished) none inside unknown]
    exact Nat.add_le_add_left positive _

/-- A literal at a lower level outweighs all that has to go for it. -/
theorem risesReturn {level : Nat} (open_ : level < trail.level) (reason : Option Reason)
    (high : level < trail.atomLevel literal.atom) :
    Rises assumed 1 trail ((trail.cancelUntil level).enqueue literal reason) where
  decided := (decided.cancelUntil coherent level).longer rfl (by
    rw [← Array.length_toList, ← Array.length_toList, literalsEnqueue, List.length_append]
    exact Nat.le_add_right _ _)
  weight := by
    have unknown := unknownCancelUntil coherent high
    have lost := weightCancelUntil assumed coherent decided open_
    rw [weightEnqueue assumed (coherent.cancelUntil level) reason (by rwa [sizeCancelUntil])
        unknown, worthSame assumed sizeCancelUntil, levelCancelUntil, Nat.min_eq_left (Nat.le_of_lt open_)]
    exact lost

end Rises

end Trail

/-- Propagation takes no literal away and opens no level. -/
theorem Network.Propagates.rises {start network : Network} (propagates : start.Propagates network)
    (shaped : start.Shaped) {assumed : Nat} (decided : start.trail.Decided assumed) :
    Trail.Rises assumed 0 start.trail network.trail where
  decided := decided.longer propagates.frame.1 (propagates.longer shaped)
  weight := by
    obtain ⟨added, grown, -, kept⟩ := propagates.trail shaped
    rw [Trail.weightAppend assumed propagates.frame.2.2.1 grown fun literal member =>
      congrArg AtomState.level (kept literal member)]
    exact Nat.le_add_right _ _

end ParitySat
