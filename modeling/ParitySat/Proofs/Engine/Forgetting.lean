/-
This file shows that a reduction of the learnt clauses only deletes dispensable ones from the worse
half of their ranking, and that everything else follows the surviving clauses to their new places.
-/

import Mathlib.Data.List.Basic
import ParitySat.Proofs.Engine.Occurrences

namespace ParitySat.Engine

/-- The sorted list begins with the greatest glue, and with the greatest length among equals.
References of equal rank keep their order. -/
structure StablyRanked (clause : Nat → Clause) (references sorted : List Nat) : Prop where
  permuted : List.Perm sorted references
  descending : sorted.Pairwise fun first second =>
    (clause second).glue < (clause first).glue ∨
      (clause second).glue = (clause first).glue ∧ (clause second).length ≤ (clause first).length
  stable : ∀ glue length, (sorted.filter fun reference =>
      (clause reference).glue = glue ∧ (clause reference).length = length) =
    references.filter fun reference =>
      (clause reference).glue = glue ∧ (clause reference).length = length

section Ranking

variable {clause : Nat → Clause}

theorem ranksBeforeEq (first second : Clause) : ranksBefore first second = true ↔
    second.glue < first.glue ∨ first.glue = second.glue ∧ second.length < first.length := by
  simp [ranksBefore]

/-- An inserted reference only passes references of another rank. -/
theorem insertRankedStable (reference : Nat) (references : List Nat) (glue length : Nat) :
    ((insertRanked clause reference references).filter fun other =>
      (clause other).glue = glue ∧ (clause other).length = length) =
    (reference :: references).filter fun other =>
      (clause other).glue = glue ∧ (clause other).length = length := by
  induction references with
  | nil => rfl
  | cons first rest inductionHypothesis =>
      rw [insertRanked]
      split
      · next before =>
          rw [ranksBeforeEq] at before
          simp only [List.filter_cons, inductionHypothesis, decide_eq_true_eq]
          by_cases own : (clause reference).glue = glue ∧ (clause reference).length = length
          · have other : ¬((clause first).glue = glue ∧ (clause first).length = length) := by omega
            rw [if_neg other, if_neg other]
          · rw [if_neg own, if_neg own]
      · rfl

theorem insertRankedDescending {reference : Nat} {references : List Nat}
    (sorted : references.Pairwise fun first second =>
      ranksBefore (clause second) (clause first) = false) :
    (insertRanked clause reference references).Pairwise fun first second =>
      ranksBefore (clause second) (clause first) = false := by
  induction references with
  | nil => exact List.pairwise_singleton _ _
  | cons first rest inductionHypothesis =>
      obtain ⟨least, ordered⟩ := List.pairwise_cons.1 sorted
      simp only [← Bool.not_eq_true, ranksBeforeEq] at least
      rw [insertRanked]
      split
      · next before =>
          rw [ranksBeforeEq] at before
          refine List.pairwise_cons.2 ⟨fun other member => ?_, inductionHypothesis ordered⟩
          rw [← Bool.not_eq_true, ranksBeforeEq]
          rcases List.mem_cons.1 ((insertRankedPermutes _ _ _).mem_iff.1 member) with rfl | later
          · omega
          · exact least other later
      · next before =>
          rw [ranksBeforeEq] at before
          refine List.pairwise_cons.2 ⟨fun other member => ?_, sorted⟩
          rw [← Bool.not_eq_true, ranksBeforeEq]
          rcases List.mem_cons.1 member with rfl | later
          · exact before
          · have above := least other later
            omega

theorem rankedStably (references : List Nat) :
    StablyRanked clause references (ranked clause references) where
  permuted := rankedPermutes clause references
  descending := by
    have sorted : (ranked clause references).Pairwise fun first second =>
        ranksBefore (clause second) (clause first) = false := by
      induction references with
      | nil => exact List.Pairwise.nil
      | cons first rest inductionHypothesis => exact insertRankedDescending inductionHypothesis
    refine sorted.imp fun {first second} before => ?_
    rw [← Bool.not_eq_true, ranksBeforeEq] at before
    omega
  stable glue length := by
    induction references with
    | nil => rfl
    | cons first rest inductionHypothesis =>
        refine (insertRankedStable first (ranked clause rest) glue length).trans ?_
        simp only [List.filter_cons, inductionHypothesis]

end Ranking

/-- A learnt clause is dispensable unless its glue is two, or it is binary, or it is the reason of
an assigned atom. -/
structure Dispensable (engine : Engine) (reference : Nat) : Prop where
  learnt : (engine.network.store.clause reference).learnt = true
  glue : 2 < (engine.network.store.clause reference).glue
  length : 2 < (engine.network.store.clause reference).length
  free : ∀ atom, engine.network.trail.atomValue atom ≠ none →
    engine.network.trail.reason atom ≠ some (.clause reference)

/-- A clause that is kept moves down past the deleted ones. -/
def movedTo (deleted : List Nat) (reference : Nat) : Option Nat :=
  if reference ∈ deleted then none else some ((List.range reference).countP (· ∉ deleted))

/-- A reduction deletes the dispensable clauses in the worse half of the ranking. All the other
clauses keep their contents, and all lists and reasons follow them. -/
structure Forgets (before after : Engine) (sorted deleted : List Nat) : Prop where
  ranked : StablyRanked before.network.store.clause before.learnts.toList sorted
  few : deleted.length ≤ before.learnts.size / 2
  half : deleted.Sublist (sorted.take (before.learnts.size / 2))
  dispensable : ∀ reference, reference ∈ deleted ↔
    reference ∈ sorted.take (before.learnts.size / 2) ∧ before.Dispensable reference
  clauses : after.network.store.clauses.toList =
    ((List.range before.network.store.clauses.size).filter (· ∉ deleted)).map
      before.network.store.clause
  moved : ∀ old new, old < before.network.store.clauses.size → movedTo deleted old = some new →
    after.network.store.clauses[new]? = before.network.store.clauses[old]?
  width : after.network.store.watches.size = before.network.store.watches.size
  watches : ∀ literal, (after.network.store.watchers literal).toList =
    (before.network.store.watchers literal).toList.filterMap (movedTo deleted)
  learnts : after.learnts.toList = sorted.filterMap (movedTo deleted)
  reasons : ∀ atom old, before.network.trail.reason atom = some (.clause old) →
    old < before.network.store.clauses.size ∧ ∃ new, movedTo deleted old = some new ∧
      after.network.trail.reason atom = some (.clause new)
  others : ∀ atom, (∀ old, before.network.trail.reason atom ≠ some (.clause old)) →
    after.network.trail.reason atom = before.network.trail.reason atom
  count : after.atomCount = before.atomCount
  atoms : ∀ atom, after.network.trail.atom atom =
    { before.network.trail.atom atom with reason := after.network.trail.reason atom }
  trail : { after.network.trail with atoms := before.network.trail.atoms } = before.network.trail
  rest : { after with
    network := { after.network with
      store := before.network.store
      trail := before.network.trail }
    learnts := before.learnts
    statistics := before.statistics } = before

/-- The slot of a surviving clause is the number of surviving clauses before it. -/
theorem slotsAt (clauses : List Clause) (start index : Nat) :
    (slots clauses start)[index]? = clauses[index]?.map fun clause =>
      if clause.deleted then none
      else some (start + (clauses.take index).countP survives) := by
  induction clauses generalizing start index with
  | nil => rfl
  | cons first rest inductionHypothesis =>
      cases index with
      | zero =>
          rw [slots]
          cases deleted : first.deleted <;> simp [deleted]
      | succ index =>
          rw [slots, List.getElem?_cons_succ, List.take_succ_cons, List.countP_cons]
          cases deleted : first.deleted with
          | true =>
              rw [if_pos rfl, List.getElem?_cons_succ, inductionHypothesis]
              simp [survives, deleted]
          | false =>
              rw [if_neg Bool.false_ne_true, List.getElem?_cons_succ, inductionHypothesis]
              have later : start + 1 + (rest.take index).countP survives =
                  start + ((rest.take index).countP survives + 1) := by omega
              simp [survives, deleted, later]

theorem clausesListed (store : ClauseStore) :
    store.clauses.toList = (List.range store.clauses.size).map store.clause := by
  apply List.ext_getElem (by simp)
  intro reference inside _
  have within : reference < store.clauses.size := by simpa using inside
  simp [ClauseStore.clause, within]

/-- The test of a clause's first literal finds every atom that the clause is the reason of. -/
theorem unlockedIff {network : Network} (shaped : network.Shaped) {reference : Nat} :
    locked network reference = false ↔ ∀ atom, network.trail.atomValue atom ≠ none →
      network.trail.reason atom ≠ some (.clause reference) := by
  constructor
  · intro unlocked atom assigned known
    obtain ⟨truth, value⟩ := Option.ne_none_iff_exists'.1 assigned
    have isLocked := lockedReason shaped (shaped.trail.knownMember value) known
    rw [unlocked] at isLocked
    contradiction
  · intro free
    rw [← Bool.not_eq_true]
    intro isLocked
    unfold locked at isLocked
    split at isLocked
    · contradiction
    · next first _ _ =>
        simp only [Bool.and_eq_true, beq_iff_eq] at isLocked
        refine free first.atom (fun unknown => ?_) isLocked.2
        rw [(Trail.valueNone _ _).2 unknown] at isLocked
        exact absurd isLocked.1 (Option.some_ne_none true).symm

section Reduce

variable {engine : Engine} (tidy : engine.Tidy)
include tidy

theorem Tidy.marks : Network.Marks engine.network engine.condemned :=
  reduceMarks tidy.shaped fun _ listed => tidy.registered.member.1 listed

theorem Tidy.rankedInside {reference : Nat} (ranked : reference ∈ engine.ranking) :
    reference < engine.network.store.clauses.size :=
  tidy.registered.inside ((rankedPermutes _ _).mem_iff.1 ranked)

/-- The victims are exactly the clauses that are marked. -/
theorem Tidy.condemnedDeleted {reference : Nat}
    (inside : reference < engine.network.store.clauses.size) :
    (engine.condemned.store.clause reference).deleted = true ↔ reference ∈ engine.victims := by
  refine ⟨fun deleted => ?_, fun victim => markAllDeleted victim inside⟩
  rcases (markAllSpec engine.victims engine.network.store.clauses).2 reference with
    same | ⟨victim, -⟩
  · have live := tidy.shaped.store.live reference
    rw [ClauseStore.clause, ← same] at live
    rw [ClauseStore.clause, condemned, live] at deleted
    contradiction
  · exact victim

theorem Tidy.condemnedMoved {reference : Nat}
    (inside : reference < engine.network.store.clauses.size) :
    engine.condemned.renamed reference = movedTo engine.victims reference := by
  have size := tidy.marks.size
  have within : reference < engine.condemned.store.clauses.size := size.symm ▸ inside
  have found : engine.condemned.store.clauses.toList[reference]? =
      some (engine.condemned.store.clause reference) := by
    rw [Array.getElem?_toList]
    exact ClauseStore.clauseStored within
  have before : (engine.condemned.store.clauses.toList.take reference).countP survives =
      (List.range reference).countP (· ∉ engine.victims) := by
    rw [clausesListed, ← List.map_take, List.take_range, Nat.min_eq_left (Nat.le_of_lt within),
      List.countP_map]
    refine List.countP_congr fun other member => ?_
    have below := List.mem_range.1 member
    simp [survives, ← tidy.condemnedDeleted (Nat.lt_trans below inside)]
  rw [Network.renamed, Array.getD_eq_getD_getElem?, ← Array.getElem?_toList, relocationsEq, slotsAt,
    found, Option.map_some, Option.getD_some, before, Nat.zero_add, movedTo]
  simp only [tidy.condemnedDeleted inside]

/-- A victim is dispensable, and nothing dispensable in the worse half escapes. -/
theorem Tidy.victimsDispensable (reference : Nat) : reference ∈ engine.victims ↔
    reference ∈ engine.ranking.take (engine.ranking.length / 2) ∧
      engine.Dispensable reference := by
  rw [victims, List.mem_filter]
  refine and_congr_right fun listed => ?_
  have learnt := tidy.registered.member.1
    ((rankedPermutes _ _).mem_iff.1 (List.mem_of_mem_take listed))
  simp only [disposable, Bool.and_eq_true, decide_eq_true_eq, Bool.not_eq_true']
  constructor
  · rintro ⟨⟨glue, length⟩, unlocked⟩
    exact ⟨learnt, glue, length, (unlockedIff tidy.shaped).1 unlocked⟩
  · rintro ⟨-, glue, length, free⟩
    exact ⟨⟨glue, length⟩, (unlockedIff tidy.shaped).2 free⟩

/-- The survivors are the ranking without the victims. -/
theorem Tidy.survivorsMoved : engine.survivors.filterMap engine.condemned.renamed =
    engine.ranking.filterMap (movedTo engine.victims) := by
  have moved (reference : Nat) (listed : reference ∈ engine.ranking) :=
    tidy.condemnedMoved (tidy.rankedInside listed)
  have worse : ((engine.ranking.take (engine.ranking.length / 2)).filter
      fun reference => !disposable engine.network reference).filterMap engine.condemned.renamed =
        (engine.ranking.take (engine.ranking.length / 2)).filterMap (movedTo engine.victims) := by
    rw [List.filterMap_filter]
    refine List.filterMap_congr fun reference listed => ?_
    cases disposed : disposable engine.network reference with
    | false => exact moved reference (List.mem_of_mem_take listed)
    | true =>
        have victim : reference ∈ engine.victims := List.mem_filter.2 ⟨listed, disposed⟩
        exact (if_pos victim).symm
  have better : (engine.ranking.drop (engine.ranking.length / 2)).filterMap
      engine.condemned.renamed =
        (engine.ranking.drop (engine.ranking.length / 2)).filterMap (movedTo engine.victims) :=
    List.filterMap_congr fun reference listed => moved reference (List.mem_of_mem_drop listed)
  rw [survivors, List.filterMap_append, worse, better, ← List.filterMap_append,
    List.take_append_drop]

theorem Tidy.clausesKept : engine.reduce.network.store.clauses.toList =
    ((List.range engine.network.store.clauses.size).filter (· ∉ engine.victims)).map
      engine.network.store.clause := by
  have compacted : engine.reduce.network.store.clauses.toList =
      engine.condemned.store.clauses.toList.filter survives := rfl
  rw [compacted, clausesListed, List.filter_map, tidy.marks.size]
  have kept : (List.range engine.network.store.clauses.size).filter
      (survives ∘ engine.condemned.store.clause) =
        (List.range engine.network.store.clauses.size).filter (· ∉ engine.victims) := by
    refine List.filter_congr fun reference member => ?_
    simp [survives, ← tidy.condemnedDeleted (List.mem_range.1 member)]
  rw [kept]
  refine List.map_congr_left fun reference member => ?_
  obtain ⟨listed, survivor⟩ := List.mem_filter.1 member
  refine tidy.marks.kept reference ?_
  rw [← Bool.not_eq_true, tidy.condemnedDeleted (List.mem_range.1 listed)]
  simpa using survivor

/-- The reason of an atom is no victim. -/
theorem Tidy.reasonMoved {atom old : Nat}
    (known : engine.network.trail.reason atom = some (.clause old)) :
    old < engine.network.store.clauses.size ∧ ∃ new, movedTo engine.victims old = some new ∧
      engine.reduce.network.trail.reason atom = some (.clause new) := by
  have inside := tidy.shaped.reasonInside known
  have assigned := Option.ne_none_iff_exists'.2 (tidy.shaped.reasonAssigned known)
  have survivor : old ∉ engine.victims := fun victim =>
    ((tidy.victimsDispensable old).1 victim).2.free atom assigned known
  refine ⟨inside, _, if_neg survivor, ?_⟩
  have moved := tidy.condemnedMoved inside
  rw [movedTo, if_neg survivor, Network.renamed] at moved
  rw [networkReduce, Trail.reason, Network.atomCompact]
  simp only [tidy.marks.trail, known, relocateReason, moved, Option.map_some]

theorem Tidy.forgets : engine.Forgets engine.reduce engine.ranking engine.victims := by
  have size : engine.ranking.length = engine.learnts.size := (rankedPermutes _ _).length_eq
  have half : engine.victims.Sublist (engine.ranking.take (engine.learnts.size / 2)) :=
    size ▸ List.filter_sublist
  have atomReduced (atom : Nat) := Network.atomCompact engine.condemned atom
  refine
    { ranked := rankedStably engine.learnts.toList
      few := Nat.le_trans half.length_le (List.length_take_le _ _)
      half
      dispensable := size ▸ tidy.victimsDispensable
      clauses := tidy.clausesKept
      moved := fun old new inside moved => ?_
      width := by simp [networkReduce, Network.compact, tidy.marks.watches]
      watches := fun literal => ?_
      learnts := learntsReduce engine ▸ tidy.survivorsMoved
      reasons := fun _ _ => tidy.reasonMoved
      others := fun atom other => ?_
      count := Network.atomCountCompact tidy.marks
      atoms := fun atom => ?_
      trail := rfl
      rest := rfl }
  · rw [← tidy.condemnedMoved inside] at moved
    obtain ⟨newInside, stored, -⟩ := Network.renamedFound tidy.marks moved
    rw [ClauseStore.clauseStored inside, ← stored]
    exact ClauseStore.clauseStored newInside
  · refine (Network.watchersCompact engine.condemned literal).trans ?_
    refine List.filterMap_congr fun reference member => tidy.condemnedMoved ?_
    have watcher : reference ∈ engine.network.store.watchers literal :=
      Array.mem_toList_iff.1 member
    exact ClauseStore.insideOfMember (List.mem_of_mem_take (tidy.shaped.store.watcher watcher))
  · rw [networkReduce, Trail.reason, atomReduced]
    change relocateReason _ (engine.network.trail.reason atom) = engine.network.trail.reason atom
    cases known : engine.network.trail.reason atom with
    | none => rfl
    | some reason =>
        cases reason with
        | clause old => exact absurd known (other old)
        | parity index => rfl
  · rw [networkReduce, Trail.reason, atomReduced]
    rfl

end Reduce

/-- A reduction is safe at every moment: it deletes dispensable learnt clauses only, at most half of
them and the worst ones first, and it loses nothing else. -/
theorem reductionSafe {options : Options} {requests : List Request} {engine moment : Engine}
    (reached : run requests (ofOptions options) = .ok engine) (visits : engine.Visits moment) :
    ∃ sorted deleted, moment.Forgets moment.reduce sorted deleted :=
  ⟨_, _, (visitsTidy reached visits).forgets⟩

/-- Two calls fail under four assumptions each, and each of them learns a clause from that. -/
def forgetfulRequests : List Request :=
  ([3, 5].flatMap fun last => [false, true].map fun sign =>
    .addClause [⟨0, true⟩, ⟨1, true⟩, ⟨2, true⟩, ⟨last, true⟩, ⟨last + 1, sign⟩]) ++
    [3, 5].map fun last =>
      .solve stillEnvironment [⟨0, false⟩, ⟨1, false⟩, ⟨2, false⟩, ⟨last, false⟩]

/-- One of the two learnt clauses is forgotten, and the other one takes its place. -/
theorem reductionSafeForgetful :
    ∃ engine moment, run forgetfulRequests (ofOptions {}) = .ok engine ∧ engine.Visits moment ∧
      (∃ sorted deleted, moment.Forgets moment.reduce sorted deleted) ∧
      moment.learnts = #[4, 5] ∧ moment.reduce.learnts = #[4] := by
  obtain ⟨engine, reached, facts⟩ := reachedObserved
    (show (run forgetfulRequests (ofOptions {})).toOption.map (fun engine =>
      let moment := (Search.start (engine.prepare [])).engine.propagate.2
      ((engine.prepare []).consistent, moment.learnts, moment.reduce.learnts)) =
        some (true, #[4, 5], #[4]) by decide +kernel)
  simp only [Prod.mk.injEq] at facts
  obtain ⟨consistent, before, after⟩ := facts
  have reaches : Reaches splitMix (.ofOptions engine.options 0 (fun _ => 0) none) []
      (.start (engine.prepare [])) (.start (engine.prepare [])) := .refl _
  have visits : engine.Visits (Search.start (engine.prepare [])).engine.propagate.2 :=
    .propagated consistent (Or.inl rfl) reaches
  exact ⟨engine, _, reached, visits, reductionSafe reached visits, before, after⟩

end ParitySat.Engine
