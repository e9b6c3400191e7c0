/-
This file shows that every step of a search gains weight, restarts or ends the search.
-/

import ParitySat.Proofs.Engine.Search
import ParitySat.Proofs.Engine.Steps
import ParitySat.Proofs.Engine.Weight

namespace ParitySat

/-- A step begins the next run, or it gains weight with one conflict more at most, or it ends the
search. -/
inductive Search.Moves (assumed : Nat) (search : Search) : Progress → Prop where
  | restart {next : Search} (due : search.allowance ≤ search.runConflicts)
      (decided : next.engine.network.trail.Decided assumed)
      (restarts : next.restarts = search.restarts + 1) (conflicts : next.runConflicts = 0)
      (allowance : next.allowance = Engine.allowance next.engine.options next.restarts) :
      Moves assumed search (.running next)
  | rise {next : Search}
      (rises : Trail.Rises assumed 1 search.engine.network.trail next.engine.network.trail)
      (restarts : next.restarts = search.restarts)
      (conflicts : next.runConflicts ≤ search.runConflicts + 1)
      (allowance : next.allowance = search.allowance) : Moves assumed search (.running next)
  | finish {verdict : Verdict} {final : Search} (restarts : final.restarts = search.restarts)
      (conflicts : final.runConflicts ≤ search.runConflicts + 1) :
      Moves assumed search (.finished verdict final)

/-- What precedes a step without losing weight may be counted in. -/
theorem Search.Moves.earlier {assumed : Nat} {before after : Search} {progress : Progress}
    (moves : after.Moves assumed progress)
    (rises : Trail.Rises assumed 0 before.engine.network.trail after.engine.network.trail)
    (restarts : after.restarts = before.restarts)
    (conflicts : after.runConflicts = before.runConflicts)
    (allowance : after.allowance = before.allowance) : before.Moves assumed progress := by
  cases moves with
  | restart due decided next none own =>
      rw [conflicts, allowance] at due
      exact .restart due decided (restarts ▸ next) none own
  | rise later same few own =>
      have whole := rises.trans later
      rw [Nat.zero_add] at whole
      exact .rise whole (same.trans restarts) (conflicts ▸ few) (own.trans allowance)
  | finish same few => exact .finish (same.trans restarts) (conflicts ▸ few)

namespace Engine

/-- A learnt clause forces its first literal at the level to which the search returns. -/
theorem learnTrail (engine : Engine) {analysis : Analysis} {first : Literal} {rest : List Literal}
    (literals : analysis.literals = first :: rest) :
    ∃ reason, (engine.learn analysis).network.trail =
      (engine.network.trail.cancelUntil analysis.returnLevel).enqueue first reason := by
  unfold learn record
  rw [literals]
  match rest with
  | [] => exact ⟨none, rfl⟩
  | second :: others => exact ⟨some _, rfl⟩

/-- This function is the trail once the true assumptions have been given levels. -/
def Assumed.trail : Assumed → Trail
  | .complete trail => trail
  | .decide _ trail => trail
  | .failed trail => trail

theorem assumeRises {assumed : Nat} (rest : List Literal) {trail : Trail}
    (decided : trail.Decided assumed) (remaining : rest.length ≤ assumed - trail.level) :
    Trail.Rises assumed 0 trail (assume trail rest).trail := by
  have unchanged : Trail.Rises assumed 0 trail trail := ⟨decided, Nat.le_refl _⟩
  induction rest generalizing trail with
  | nil => exact unchanged
  | cons literal rest inductionHypothesis =>
      rw [List.length_cons] at remaining
      rw [assume]
      cases trail.value literal with
      | none => exact unchanged
      | some truth =>
          cases truth with
          | false => exact unchanged
          | true =>
              have opened : Trail.Rises assumed 0 trail trail.openLevel :=
                Trail.risesOpenLevel (by omega)
              refine opened.trans (inductionHypothesis opened.decided ?_
                ⟨opened.decided, Nat.le_refl _⟩)
              rw [Trail.levelOpenLevel]
              omega

section Step

variable {models : (Nat → Bool) → Prop} {assumptions : List Literal} {base : Engine}
  (budget : Budget) {search : Search}

/-- After a conflict the search returns to a lower level with a new literal. -/
theorem afterConflictMoves (sane : search.engine.Sane models)
    (stable : search.engine.network.Stable) {assumed : Nat}
    (decided : search.engine.network.trail.Decided assumed) {conflict : Reason}
    (violated : search.engine.network.Violated conflict) :
    search.Moves assumed (search.afterConflict budget conflict) := by
  rw [Search.afterConflictEq]
  split
  · exact .finish rfl (Nat.le_refl _)
  · next deep =>
      obtain ⟨analysis, point, rest, found, asserting, -⟩ :=
        Network.analyzeSpec stable sane.sound (Nat.pos_of_ne_zero deep) violated sane.unmarked
      have coherent := stable.shaped.trail
      have analyzed : search.clash.engine.analyze conflict =
          (some analysis, (search.clash.engine.analyze conflict).2) := Prod.ext found rfl
      rw [analyzed, Search.afterAnalysis]
      obtain ⟨reason, learnt⟩ :=
        learnTrail (search.clash.engine.analyze conflict).2 asserting.literals
      have inside : point.negate.atom < search.engine.network.trail.atoms.size := by
        rw [Literal.atomNegate]
        exact coherent.inside asserting.member
      have high : analysis.returnLevel < search.engine.network.trail.atomLevel
          point.negate.atom := by
        rw [Literal.atomNegate, asserting.level]
        exact asserting.returns
      have rises := Trail.risesReturn decided coherent inside asserting.returns reason high
      simp only
      split
      · exact .finish rfl (Nat.le_refl _)
      · refine .rise ?_ rfl (Nat.le_refl _) rfl
        rw [learnt]
        exact rises

/-- A picked atom adds the literal of a decision. -/
theorem branchMoves {assumed : Nat} {engine : Engine}
    (opened : Trail.Rises assumed 0 search.engine.network.trail engine.network.trail)
    (coherent : engine.network.trail.Coherent)
    (finished : engine.network.trail.head = engine.network.trail.literals.size)
    {picked : Option Nat × Engine} (picks : Picked engine picked) :
    search.Moves assumed (search.branch picked) := by
  obtain ⟨choice, after⟩ := picked
  obtain ⟨chosen, frame⟩ := picks
  have network : after.network = engine.network := by rw [show after = _ from frame]
  cases choice with
  | none => exact .finish rfl (Nat.le_succ _)
  | some atom =>
      have decided : Trail.Rises assumed 1 engine.network.trail
          (engine.network.trail.openLevel.enqueue (after.phaseLiteral atom) none) :=
        Trail.risesDecide opened.decided coherent chosen.inside finished chosen.unknown
      have rises := opened.trans decided
      rw [← network] at rises
      exact .rise rises rfl (Nat.le_succ _) rfl

/-- A decision gains the weight of its literal. -/
theorem decideMoves (generator : Generator)
    (paused : Paused models assumptions base search.engine)
    (inside : ∀ literal ∈ assumptions, literal.atom < base.atomCount)
    (decided : search.engine.network.trail.Decided assumptions.length) :
    search.Moves assumptions.length (search.decide generator assumptions) := by
  have meets := assumeMeets (assumptions.drop search.engine.level) paused rfl
  have opened := assumeRises (assumptions.drop search.engine.level) decided
    (Nat.le_of_eq List.length_drop)
  rw [Search.decideEq]
  generalize Engine.assume search.engine.network.trail (assumptions.drop search.engine.level) =
    assumed at meets opened ⊢
  cases assumed with
  | failed trail => exact .finish rfl (Nat.le_succ _)
  | decide literal trail =>
      obtain ⟨next, found, unknown⟩ := meets
      have existing := inside literal (List.mem_of_getElem? found)
      rw [← next.keeps.atoms] at existing
      have rises := opened.trans (Trail.risesDecide opened.decided next.ready.shaped.trail
        existing next.finished unknown)
      exact .rise rises rfl (Nat.le_succ _) rfl
  | complete trail =>
      obtain ⟨complete, -⟩ := meets
      have counted : Paused models assumptions base { search.engine.withTrail trail with
          statistics := { search.engine.statistics with
            decisions := search.engine.statistics.decisions + 1 } } :=
        ⟨complete.toSearching.same rfl rfl rfl rfl rfl rfl rfl rfl rfl, complete.finished⟩
      exact branchMoves opened counted.ready.shaped.trail counted.finished
        (pickBranchPicked generator counted.queued)

/-- A crowded store is reduced without any change to the literals of the trail. -/
theorem relievedRises (paused : Paused models assumptions base search.engine) {assumed : Nat}
    (decided : search.engine.network.trail.Decided assumed) :
    Trail.Rises assumed 0 search.engine.network.trail search.relieved.engine.network.trail := by
  unfold Search.relieved
  simp only
  split
  · obtain ⟨inherits, -⟩ := reduceInherits paused.ready.shaped paused.learnts
    apply inherits.alike.rises decided
    simp [reduce, collectGarbage]
  · exact ⟨decided, Nat.le_refl _⟩

theorem relievedPaused (paused : Paused models assumptions base search.engine) :
    Paused models assumptions base search.relieved.engine := by
  unfold Search.relieved
  simp only
  split
  · exact reducePaused paused
  · exact paused

theorem relievedFrame (search : Search) : search.relieved.restarts = search.restarts ∧
    search.relieved.runConflicts = search.runConflicts ∧
    search.relieved.allowance = search.allowance := by
  unfold Search.relieved
  simp only
  split <;> exact ⟨rfl, rfl, rfl⟩

/-- Without a conflict the search restarts, ends or decides. -/
theorem afterFixpointMoves (generator : Generator)
    (paused : Paused models assumptions base search.engine)
    (inside : ∀ literal ∈ assumptions, literal.atom < base.atomCount)
    (decided : search.engine.network.trail.Decided assumptions.length) :
    search.Moves assumptions.length (search.afterFixpoint generator budget assumptions) := by
  rw [Search.afterFixpointEq]
  split
  · next due =>
      exact .restart due (decided.cancelUntil paused.ready.shaped.trail 0) rfl rfl rfl
  · split
    · exact .finish rfl (Nat.le_succ _)
    · have rises := relievedRises paused decided
      obtain ⟨restarts, conflicts, allowance⟩ := relievedFrame search
      exact (decideMoves generator (relievedPaused paused) inside rises.decided).earlier rises
        restarts conflicts allowance

/-- Every step moves on. -/
theorem stepMoves (generator : Generator)
    (searching : Searching models assumptions base search.engine)
    (inside : ∀ literal ∈ assumptions, literal.atom < base.atomCount)
    (decided : search.engine.network.trail.Decided assumptions.length) :
    search.Moves assumptions.length (search.step generator budget assumptions) := by
  have spec := (Network.propagateSpec searching.ready).1.propagates
  obtain ⟨sane, stable, fixpoint, violated⟩ := searching.toSteady.propagate
  have rises := spec.rises searching.ready.shaped decided
  have moves : Search.Moves assumptions.length
      { search with engine := search.engine.propagate.2 }
      (Search.afterPropagation generator budget assumptions
        { search with engine := search.engine.propagate.2 } search.engine.propagate.1) := by
    cases outcome : search.engine.propagate.1 with
    | some conflict =>
        exact afterConflictMoves budget sane stable rises.decided (violated conflict outcome)
    | none =>
        obtain ⟨steady, finished⟩ := fixpoint outcome
        have paused : Paused models assumptions base search.engine.propagate.2 :=
          { toSteady := steady
            follows := spec.follows searching.ready.shaped searching.follows
            keeps := searching.keeps.trans (keepsPropagate searching.ready)
            finished }
        exact afterFixpointMoves budget generator paused inside rises.decided
  rw [Search.stepEq]
  exact moves.earlier rises rfl rfl rfl

end Step

end Engine

end ParitySat
