/-
This file states what a search gets from the analysis of a conflict: a clause that follows from
the constraints and forces its first literal once the later levels have been undone.
-/

import Mathlib.Data.Finset.Card
import ParitySat.Proofs.Engine.Fixpoint
import ParitySat.Proofs.Engine.Implication

namespace ParitySat

namespace Analysis

/-- This function collects the levels of the literals. -/
def levels (trail : Trail) (literals : List Literal) : Finset Nat :=
  (literals.map fun literal => trail.atomLevel literal.atom).toFinset

theorem eraseDupsNodup (numbers : List Nat) : numbers.eraseDups.Nodup := by
  generalize size : numbers.length = length
  induction length using Nat.strongRecOn generalizing numbers with
  | ind length inductionHypothesis =>
      cases numbers with
      | nil => simp
      | cons first rest =>
          rw [List.length_cons] at size
          have fewer : (rest.filter fun other => !other == first).length ≤ rest.length :=
            List.length_filter_le _ rest
          rw [List.eraseDups_cons, List.nodup_cons]
          refine ⟨fun member => ?_, inductionHypothesis _ (by omega) _ rfl⟩
          simp at member

/-- Every level counts once. -/
theorem distinctLevelsCard (trail : Trail) (literals : List Literal) :
    distinctLevels trail literals = (levels trail literals).card := by
  rw [distinctLevels, levels, ← List.toFinset_card_of_nodup (eraseDupsNodup _)]
  congr 1
  ext level
  simp

/-- There are no more levels than literals. -/
theorem levelsCardLe (trail : Trail) (literals : List Literal) :
    (levels trail literals).card ≤ literals.length := by
  have bound := List.toFinset_card_le (literals.map fun literal => trail.atomLevel literal.atom)
  rwa [List.length_map] at bound

end Analysis

namespace Network

/-- The assignment satisfies the live clauses, the parity constraints and the root level. -/
structure Fits (network : Network) (assignment : Nat → Bool) : Prop where
  clauses : ∀ clause ∈ network.store.clauses.toList, clause.deleted = false →
    Clause.holds assignment clause.literals = true
  parities : ∀ constraint ∈ network.parities.constraints.toList,
    constraint.holds assignment = true
  root : ∀ literal ∈ network.trail.literals.toList,
    network.trail.atomLevel literal.atom = 0 → literal.holds assignment = true

theorem Shaped.fits {network : Network} (shaped : network.Shaped) :
    network.Sound network.Fits where
  clauses assignment fits reference inside := by
    rw [ClauseStore.literalsEq]
    exact fits.clauses _ (ClauseStore.memberClause.2 ⟨reference, inside, rfl⟩)
      (shaped.store.live reference)
  parities assignment fits index inside :=
    fits.parities _ (ParityStore.memberConstraint.2 ⟨index, inside, rfl⟩)
  root assignment fits := fits.root

/-- The derived clause begins with the negation of the last implication point, and all of its other
literals became false at levels between the root and the current one.

The clause returns to the greatest of these levels, where it forces its first literal. -/
structure Derived (network : Network) (conflict : Reason) (point : Literal) (rest : List Literal)
    (analysis : Analysis) : Prop where
  literals : analysis.literals = point.negate :: rest
  last : network.LastPoint conflict network.trail.literals.size point
  way : ∃ decision others, network.Decides decision ∧ network.Leads conflict (decision :: others)
  lower : ∀ literal ∈ rest, 0 < network.trail.atomLevel literal.atom ∧
    network.trail.atomLevel literal.atom < network.trail.level
  distinct : (analysis.literals.map Literal.atom).Nodup
  falsified : ∀ literal ∈ analysis.literals, network.trail.value literal = some false
  entailed : ∀ assignment, network.Fits assignment →
    Clause.holds assignment analysis.literals = true
  unit : rest = [] → analysis.returnLevel = 0
  second : ∀ literal others, rest = literal :: others →
    network.trail.atomLevel literal.atom = analysis.returnLevel
  greatest : ∀ literal ∈ rest, network.trail.atomLevel literal.atom ≤ analysis.returnLevel
  glue : analysis.glue = (Analysis.levels network.trail analysis.literals).card
  several : rest ≠ [] → 2 ≤ analysis.glue ∧ analysis.glue ≤ analysis.literals.length
  forced : (network.trail.cancelUntil analysis.returnLevel).value point.negate = none
  kept : ∀ literal ∈ rest,
    (network.trail.cancelUntil analysis.returnLevel).value literal = some false

section Derived

variable {network : Network} {point : Literal} {rest : List Literal} {analysis : Analysis}
  (asserting : Analysis.Asserting network.Fits network.trail point rest analysis)
include asserting

/-- The point has another level than the second literal. -/
theorem assertingSeveral (more : rest ≠ []) :
    2 ≤ analysis.glue ∧ analysis.glue ≤ analysis.literals.length := by
  rw [asserting.glue, Analysis.distinctLevelsCard]
  refine ⟨?_, Analysis.levelsCardLe _ _⟩
  obtain ⟨second, others, rfl⟩ := List.exists_cons_of_ne_nil more
  have below := (asserting.falsified second List.mem_cons_self).2
  have different : network.trail.atomLevel point.atom ≠ network.trail.atomLevel second.atom := by
    have level := asserting.level
    have returns := asserting.returns
    omega
  refine Finset.one_lt_card.2 ⟨_, ?_, _, ?_, different⟩ <;>
    simp [Analysis.levels, asserting.literals]

variable (shaped : network.Shaped)
include shaped

/-- Once the later levels have been undone, the clause forces its first literal. -/
theorem assertingForced :
    (network.trail.cancelUntil analysis.returnLevel).value point.negate = none ∧
      ∀ literal ∈ rest,
        (network.trail.cancelUntil analysis.returnLevel).value literal = some false := by
  have coherent := shaped.trail
  have returned := coherent.cancelUntil analysis.returnLevel
  have returns := asserting.returns
  refine ⟨?_, fun literal member => ?_⟩
  · rw [Trail.valueNone]
    apply Trail.unknownCancelUntil coherent
    rwa [Literal.atomNegate, asserting.level]
  · obtain ⟨isFalse, low⟩ := asserting.falsified literal member
    refine (returned.falsehood literal).2 ((returned.truth literal.negate).1 ?_)
    exact (Trail.valueCancelUntil coherent literal.negate).2
      (coherent.memberBoundary.2 ⟨isFalse, low⟩)

/-- An asserting clause whose point is the last one is what the analysis has to derive. -/
theorem assertingDerived {conflict : Reason}
    (last : network.LastPoint conflict network.trail.literals.size point)
    (way : ∃ decision others, network.Decides decision ∧
      network.Leads conflict (decision :: others)) :
    network.Derived conflict point rest analysis := by
  obtain ⟨forced, kept⟩ := assertingForced asserting shaped
  refine
    { literals := asserting.literals
      last
      way
      lower := fun literal member => ⟨asserting.positive literal member, ?_⟩
      distinct := asserting.distinct
      falsified := fun literal member => (shaped.trail.falsehood literal).2 ?_
      entailed := asserting.entailed
      unit := asserting.unit
      second := fun literal others same => (asserting.second literal others same).1
      greatest := fun literal member => (asserting.falsified literal member).2
      glue := asserting.glue.trans (Analysis.distinctLevelsCard _ _)
      several := assertingSeveral asserting
      forced
      kept }
  · exact Nat.lt_of_le_of_lt (asserting.falsified literal member).2 asserting.returns
  · rw [asserting.literals] at member
    rcases List.mem_cons.1 member with rfl | lower
    · rw [Literal.negateNegate]
      exact asserting.member
    · exact (asserting.falsified literal lower).1

end Derived

/-- The analysis derives such a clause from every conflict above the root level. -/
theorem analyzeDerives {network : Network} (stable : network.Stable)
    (deep : 0 < network.trail.level) {conflict : Reason} (violated : network.Violated conflict)
    {marks : Array Bool} (unmarked : network.Unmarked marks) :
    ∃ analysis point rest, (network.analyze marks conflict).1 = some analysis ∧
      network.Derived conflict point rest analysis ∧
      network.Unmarked (network.analyze marks conflict).2 := by
  have shaped := stable.shaped
  obtain ⟨analysis, point, rest, found, asserting, cleared⟩ :=
    analyzeSpec stable shaped.fits deep violated unmarked
  exact ⟨analysis, point, rest, found, assertingDerived asserting shaped
    (Exploration.analyzePoint stable deep violated unmarked found asserting.literals)
    (conflictLeads stable deep violated), cleared⟩

end Network

namespace Engine

/-- The analysis of a conflict above the root level derives a clause that forces the negation of
the last implication point, and it leaves no marks behind. -/
theorem analysisDerives {options : Options} {requests : List Request} {engine : Engine}
    (reached : run requests (ofOptions options) = .ok engine) {moment : Engine}
    (pending : engine.Pending moment) {conflict : Reason} {refuted : Engine}
    (propagated : moment.propagate = (some conflict, refuted)) (deep : 0 < refuted.level) :
    ∃ analysis point rest,
      refuted.analyze conflict = (some analysis,
        { refuted with marks := Array.replicate refuted.atomCount false }) ∧
      refuted.network.Derived conflict point rest analysis := by
  obtain ⟨models, steady⟩ := pending.steady (reachedFaithful reached).valid
  obtain ⟨sane, stable, -, violated⟩ := steady.propagate
  rw [propagated] at sane stable violated
  obtain ⟨analysis, point, rest, found, derived, cleared⟩ :=
    Network.analyzeDerives stable deep (violated conflict rfl) sane.unmarked
  refine ⟨analysis, point, rest, ?_, derived⟩
  have marks : (refuted.network.analyze refuted.marks conflict).2 =
      Array.replicate refuted.atomCount false := by
    refine Array.ext (by rw [cleared.width, Array.size_replicate]; rfl) fun atom inside _ => ?_
    have clear := cleared.clear atom
    rw [Array.getD_eq_getD_getElem?, Array.getElem?_eq_getElem inside, Option.getD_some] at clear
    rw [clear, Array.getElem_replicate]
  rw [analyze, found, marks]

/-- These constraints refute the second atom through the third one, on which two ways to the
conflict meet. -/
def crossingRequests : List Request :=
  [.addClause [⟨1, true⟩, ⟨2, false⟩], .addClause [⟨2, true⟩, ⟨0, true⟩, ⟨3, false⟩],
    .addParity [2, 3, 4] true, .addClause [⟨3, true⟩, ⟨4, true⟩]]

/-- In this search nothing is limited. -/
def freeBudget : Budget :=
  ⟨none, none, fun _ => 0, none⟩

/-- This function takes so many steps of a search. -/
def stepMany (assumptions : List Literal) : Nat → Search → Option Search
  | 0, search => some search
  | count + 1, search =>
    match search.step splitMix freeBudget assumptions with
    | .running next => stepMany assumptions count next
    | _ => none

theorem stepManyReaches {assumptions : List Literal} {count : Nat} {search later : Search}
    (stepped : stepMany assumptions count search = some later) :
    Reaches splitMix freeBudget assumptions search later := by
  induction count generalizing search with
  | zero =>
      obtain rfl := Option.some.inj stepped
      exact .refl search
  | succ count inductionHypothesis =>
      rw [stepMany] at stepped
      split at stepped
      · next next running => exact .step running (inductionHypothesis stepped)
      · contradiction

/-- Both atoms are decided, and the clause is learnt from the literal in between. -/
theorem analysisDerivesCrossing :
    ∃ engine moment conflict refuted, run crossingRequests (ofOptions {}) = .ok engine ∧
      engine.Pending moment ∧ moment.propagate = (some conflict, refuted) ∧ 0 < refuted.level ∧
      ∃ analysis, refuted.analyze conflict = (some analysis,
          { refuted with marks := Array.replicate refuted.atomCount false }) ∧
        refuted.network.Derived conflict ⟨2, false⟩ [⟨0, true⟩] analysis := by
  let decided : List Literal := [⟨0, false⟩, ⟨1, false⟩]
  obtain ⟨engine, reached, facts⟩ := reachedObserved
    (show (run crossingRequests (ofOptions {})).toOption.map (fun engine =>
      match stepMany decided 2 (.start (engine.prepare decided)) with
      | some later => ((engine.prepare decided).consistent && 0 < later.engine.propagate.2.level,
          later.engine.propagate.1,
          (later.engine.propagate.2.analyze (.clause 2)).1.map Analysis.literals)
      | none => (false, none, none)) =
        some (true, some (.clause 2), some [⟨2, true⟩, ⟨0, true⟩]) by
      decide +kernel)
  cases stepped : stepMany decided 2 (.start (engine.prepare decided)) with
  | none => simp [stepped] at facts
  | some later =>
      simp only [stepped, Prod.mk.injEq, Bool.and_eq_true, decide_eq_true_eq] at facts
      obtain ⟨⟨consistent, deep⟩, conflict, literals⟩ := facts
      have pending : engine.Pending later.engine :=
        .step consistent (Or.inl rfl) (stepManyReaches stepped)
      have propagated : later.engine.propagate = (some (.clause 2), later.engine.propagate.2) :=
        Prod.ext conflict rfl
      obtain ⟨analysis, point, rest, analyzed, derived⟩ :=
        analysisDerives reached pending propagated deep
      rw [analyzed, Option.map_some, Option.some.injEq, derived.literals] at literals
      obtain ⟨negated, rfl⟩ := List.cons.inj literals
      have same : point = ⟨2, false⟩ := by
        rw [← Literal.negateNegate point, negated]
        rfl
      exact ⟨engine, later.engine, .clause 2, later.engine.propagate.2, reached, pending,
        propagated, deep, analysis, analyzed, same ▸ derived⟩

end Engine

end ParitySat
