/-
This file shows that a search never learns what it has learnt before: no live clause is contained in
a learnt one, and no two learnt units have the same atom.
-/

import ParitySat.Proofs.Engine.Forgetting
import ParitySat.Proofs.Engine.Maintenance

namespace ParitySat

namespace Network

theorem clausesAttach (network : Network) (clause : Clause) :
    (network.attach clause).store.clauses.toList = network.store.clauses.toList ++ [clause] := by
  rw [← Array.toList_push]
  exact congrArg Array.toList (ClauseStore.clausesAdd network.store clause)

variable {network : Network} {point : Literal} {rest : List Literal} {analysis : Analysis}
  (asserting : Analysis.Asserting network.Fits network.trail point rest analysis)
include asserting

/-- At the level to which the learnt clause returns every stored clause is at rest, and the learnt
clause is not. -/
theorem Stable.notContained (stable : network.Stable) {clause : Clause}
    (member : clause ∈ network.store.clauses.toList) (live : clause.deleted = false) :
    ¬clause.literals ⊆ analysis.literals := by
  intro contained
  obtain ⟨forced, isFalse⟩ := assertingForced asserting stable.shaped
  have split {literal : Literal} (listed : literal ∈ clause.literals) :
      literal = point.negate ∨ literal ∈ rest := by
    rw [← List.mem_cons, ← asserting.literals]
    exact contained listed
  have only {literal : Literal} (listed : literal ∈ clause.literals)
      (unknown : (network.trail.cancelUntil analysis.returnLevel).value literal = none) :
      literal = point.negate := by
    refine (split listed).resolve_right fun lower => ?_
    rw [isFalse literal lower] at unknown
    cases unknown
  have rests : clause.Rests (network.trail.cancelUntil analysis.returnLevel) :=
    (stable.fixpointBelow asserting.returns).clauses clause member live
  rcases rests with
    ⟨literal, listed, isTrue⟩ | ⟨first, firstListed, second, secondListed, different, left, right⟩
  · rcases split listed with rfl | lower
    · rw [forced] at isTrue
      cases isTrue
    · rw [isFalse literal lower] at isTrue
      cases isTrue
  · exact different (by rw [only firstListed left, only secondListed right])

end Network

namespace Engine

/-- No learnt clause contains an earlier clause, and the learnt units have different atoms, all of
them assigned at the root level. -/
structure Irredundant (engine : Engine) : Prop where
  clauses : engine.network.store.clauses.toList.Pairwise fun earlier later =>
    later.learnt = true → ¬earlier.literals ⊆ later.literals
  units : (engine.learntUnits.toList.map Literal.atom).Nodup
  rooted : ∀ literal ∈ engine.learntUnits.toList, engine.network.trail.Rooted literal

theorem ofOptionsIrredundant (options : Options) : Irredundant (ofOptions options) where
  clauses := List.Pairwise.nil
  units := List.nodup_nil
  rooted _ member := absurd member List.not_mem_nil

/-- Nothing is stored, and the root level keeps its literals. -/
theorem Irredundant.fewer {before after : Engine} (irredundant : before.Irredundant)
    (clauses : after.network.store.clauses.toList.Sublist before.network.store.clauses.toList)
    (units : after.learntUnits = before.learntUnits)
    (rooted : ∀ literal, before.network.trail.Rooted literal →
      after.network.trail.Rooted literal) : after.Irredundant where
  clauses := irredundant.clauses.sublist clauses
  units := by
    rw [units]
    exact irredundant.units
  rooted literal member := by
    rw [units] at member
    exact rooted literal (irredundant.rooted literal member)

/-- A learnt unit has a new atom, and it is assigned at the root level. -/
theorem Irredundant.learnUnit {engine : Engine} (irredundant : engine.Irredundant)
    {analysis : Analysis} {point : Literal} (stable : engine.network.Stable)
    (deep : 0 < engine.level)
    (asserting : Analysis.Asserting engine.network.Fits engine.network.trail point [] analysis) :
    (engine.learn analysis).Irredundant := by
  obtain ⟨network, units⟩ := engine.learnUnit asserting.literals
  have coherent := stable.shaped.trail
  have fresh (literal : Literal) (rooted : engine.network.trail.Rooted literal) :
      literal.atom ≠ point.negate.atom := Network.assertingNotRooted asserting deep rooted
  refine ⟨?_, ?_, fun literal member => ?_⟩
  · rw [network]
    exact irredundant.clauses
  · rw [units, Array.toList_push, List.map_append, List.map_singleton, List.nodup_append]
    refine ⟨irredundant.units, List.nodup_singleton _, fun atom old other new => ?_⟩
    obtain ⟨literal, member, rfl⟩ := List.mem_map.1 old
    rw [List.mem_singleton.1 new]
    exact fresh literal (irredundant.rooted literal member)
  · rw [units, Array.toList_push, List.mem_append, List.mem_singleton] at member
    rcases member with old | rfl
    · exact rootedLearn coherent deep asserting (irredundant.rooted literal old)
    · rw [network]
      have inside : point.negate.atom <
          (engine.network.trail.cancelUntil analysis.returnLevel).atoms.size := by
        rw [Trail.sizeCancelUntil, Literal.atomNegate]
        exact coherent.inside asserting.member
      refine ⟨?_, ?_⟩
      · rw [Network.trailAssign, Trail.literalsEnqueue]
        exact List.mem_append_right _ (List.mem_singleton_self _)
      · rw [Network.trailAssign, Network.trailBacktrack, Trail.atomLevelEnqueueSame _ _ _ inside,
          Trail.levelCancelUntil, asserting.unit rfl, Nat.zero_min]

/-- A learnt clause contains none of the stored ones. -/
theorem Irredundant.learnClause {engine : Engine} (irredundant : engine.Irredundant)
    {analysis : Analysis} {point second : Literal} {rest : List Literal}
    (stable : engine.network.Stable) (deep : 0 < engine.level)
    (asserting : Analysis.Asserting engine.network.Fits engine.network.trail point (second :: rest)
      analysis) : (engine.learn analysis).Irredundant := by
  obtain ⟨network, units⟩ := engine.learnClause asserting.literals
  refine ⟨?_, ?_, fun literal member => ?_⟩
  · have stored : (engine.learn analysis).network.store.clauses.toList =
        engine.network.store.clauses.toList ++
          [{ literals := analysis.literals, learnt := true, glue := analysis.glue }] := by
      rw [network]
      exact Network.clausesAttach (engine.network.backtrack analysis.returnLevel) _
    rw [stored, List.pairwise_append]
    refine ⟨irredundant.clauses, List.pairwise_singleton _ _, fun clause member other new _ => ?_⟩
    obtain rfl := List.mem_singleton.1 new
    obtain ⟨reference, -, rfl⟩ := ClauseStore.memberClause.1 member
    exact Network.Stable.notContained asserting stable member (stable.shaped.store.live reference)
  · rw [units]
    exact irredundant.units
  · rw [units] at member
    exact rootedLearn stable.shaped.trail deep asserting (irredundant.rooted literal member)

/-- A submitted clause is not learnt. -/
theorem Irredundant.attach {engine : Engine} (irredundant : engine.Irredundant)
    (literals : List Literal) :
    Irredundant { engine with network := engine.network.attach { literals } } where
  clauses := by
    have added : { engine with network := engine.network.attach { literals } }.network =
      engine.network.attach { literals } := rfl
    rw [added, Network.clausesAttach, List.pairwise_append]
    refine ⟨irredundant.clauses, List.pairwise_singleton _ _, fun clause _ other new learnt => ?_⟩
    obtain rfl := List.mem_singleton.1 new
    cases learnt
  units := irredundant.units
  rooted := irredundant.rooted

/-- A propagation only permutes the literals of a clause. -/
theorem Irredundant.propagate {engine : Engine} (irredundant : engine.Irredundant)
    (ready : engine.network.Ready) : engine.propagate.2.Irredundant := by
  have propagates : engine.network.Propagates engine.propagate.2.network :=
    (Network.propagateSpec ready).1.propagates
  have size := propagates.frame.2.2.2
  refine ⟨?_, irredundant.units, fun literal member =>
    propagates.rooted ready.shaped (irredundant.rooted literal member)⟩
  have before := irredundant.clauses
  rw [clausesListed, List.pairwise_map] at before ⊢
  rw [size]
  refine before.imp fun {first second} apart learnt contained => ?_
  obtain ⟨firstPermuted, -⟩ := propagates.clauses first
  obtain ⟨secondPermuted, alike⟩ := propagates.clauses second
  refine apart ?_ fun literal member => ?_
  · rw [alike] at learnt
    exact learnt
  · exact secondPermuted.mem_iff.1 (contained (firstPermuted.mem_iff.2 member))

/-- A reduction keeps some of the clauses in their order. -/
theorem Irredundant.reduce {engine : Engine} (irredundant : engine.Irredundant)
    (tidy : engine.Tidy) : engine.reduce.Irredundant := by
  refine irredundant.fewer ?_ rfl fun literal rooted => rooted.alike ?_
  · rw [tidy.clausesKept, clausesListed]
    exact List.filter_sublist.map _
  · exact (reduceInherits tidy.shaped fun _ listed => tidy.registered.member.1 listed).1.alike

theorem maintainsIrredundant : Maintains Irredundant where
  same _ _ network units irredundant := irredundant.fewer (by rw [network]) units
    (by simp only [network, imp_self, implies_true])
  addAtom irredundant := irredundant.fewer (List.Sublist.refl _) rfl
    fun _ rooted => rooted.alike (Network.growAlike _)
  attach literals irredundant := irredundant.attach literals
  impose _ irredundant := irredundant.fewer (List.Sublist.refl _) rfl fun _ rooted => rooted
  flip shaped irredundant := irredundant.fewer (List.Sublist.refl _) rfl
    fun _ rooted => rooted.alike (flipInherits shaped).alike
  assign fresh irredundant := irredundant.fewer (List.Sublist.refl _) rfl
    fun _ rooted => rooted.enqueue none (fresh.absent _ rooted.1)
  deepen irredundant := irredundant.fewer (List.Sublist.refl _) rfl fun _ rooted => rooted
  undo coherent irredundant := irredundant.fewer (List.Sublist.refl _) rfl
    fun _ rooted => rooted.cancelUntil coherent 0
  propagate ready irredundant := irredundant.propagate ready
  reduce tidy irredundant := irredundant.reduce tidy
  learn {_ _ _ rest} stable deep asserting irredundant := by
    cases rest with
    | nil => exact irredundant.learnUnit stable deep asserting
    | cons second rest => exact irredundant.learnClause stable deep asserting

/-- What is learnt is new: the derived clause contains no live clause, and a derived unit has an atom
without a value at the root level.

A unit is noted as such, and any other derived clause is stored behind all the others. -/
structure Novel (before : Engine) (analysis : Analysis) (after : Engine) : Prop where
  clauses : ∀ clause ∈ before.network.store.clauses.toList, clause.deleted = false →
    ¬clause.literals ⊆ analysis.literals ∧ ¬clause.literals.Perm analysis.literals
  unit : ∀ literal, analysis.literals = [literal] →
    (∀ other, before.network.trail.Rooted other → other.atom ≠ literal.atom) ∧
      after.learntUnits = before.learntUnits.push literal ∧
      after.network.store.clauses = before.network.store.clauses
  stored : ∀ first second rest, analysis.literals = first :: second :: rest →
    after.learntUnits = before.learntUnits ∧
      after.network.store.clauses = before.network.store.clauses.push
        { literals := analysis.literals, learnt := true, glue := analysis.glue }
  some : analysis.literals ≠ []

theorem learnNovel (before conflicting : Engine)
    (network : conflicting.network = before.network)
    (units : conflicting.learntUnits = before.learntUnits) {analysis : Analysis} {point : Literal}
    {rest : List Literal} (stable : before.network.Stable) (deep : 0 < before.level)
    (asserting : Analysis.Asserting before.network.Fits before.network.trail point rest analysis) :
    before.Novel analysis (conflicting.learn analysis) where
  clauses clause member live := by
    have apart := Network.Stable.notContained asserting stable member live
    exact ⟨apart, fun same => apart same.subset⟩
  unit literal single := by
    obtain ⟨after, pushed⟩ := conflicting.learnUnit single
    have same : literal = point.negate := by
      rw [asserting.literals] at single
      exact (List.cons.inj single).1.symm
    refine ⟨fun other rooted => same ▸ Network.assertingNotRooted asserting deep rooted, ?_, ?_⟩
    · rw [pushed, units]
    · rw [after, network]
      rfl
  stored first second others several := by
    obtain ⟨after, kept⟩ := conflicting.learnClause several
    refine ⟨kept.trans units, ?_⟩
    rw [after, network]
    exact ClauseStore.clausesAdd before.network.store _
  some := by
    rw [asserting.literals]
    exact List.cons_ne_nil _ _

/-- Whatever is learnt from a conflict is new, so at every moment no learnt clause contains an
earlier clause and no two learnt units have the same atom. -/
theorem learningIrredundant {options : Options} {requests : List Request} {engine : Engine}
    (reached : run requests (ofOptions options) = .ok engine) :
    (∀ moment conflict refuted, engine.Pending moment →
      moment.propagate = (some conflict, refuted) → 0 < refuted.level →
        ∃ analysis analyzed, refuted.analyze conflict = (some analysis, analyzed) ∧
          refuted.Novel analysis (analyzed.learn analysis)) ∧
      ∀ moment, engine.Visits moment → moment.Irredundant := by
  have faithful := reachedFaithful reached
  refine ⟨fun moment conflict refuted pending propagated deep => ?_, fun moment visits => ?_⟩
  · obtain ⟨models, steady⟩ := pending.steady faithful.valid
    obtain ⟨sane, stable, -, violated⟩ := steady.propagate
    rw [propagated] at sane stable violated
    obtain ⟨analysis, point, rest, found, asserting, -⟩ :=
      Network.analyzeSpec stable stable.shaped.fits deep (violated conflict rfl) sane.unmarked
    exact ⟨analysis, _, Prod.ext found rfl,
      learnNovel refuted (refuted.analyze conflict).2 rfl rfl stable deep asserting⟩
  · have irredundant : engine.Irredundant :=
      maintainsIrredundant.requests requests (ofOptionsFaithful options) (ofOptionsResting options)
        (ofOptionsIrredundant options) reached
    exact maintainsIrredundant.visits faithful (reachedResting reached) irredundant visits

/-- The first assumption is decided, and the second one leads to a conflict. -/
theorem learningIrredundantCrossing :
    ∃ engine moment conflict refuted, run crossingRequests (ofOptions {}) = .ok engine ∧
      engine.Pending moment ∧ engine.Visits moment ∧ moment.Irredundant ∧
      moment.propagate = (some conflict, refuted) ∧ 0 < refuted.level ∧
      ∃ analysis analyzed, refuted.analyze conflict = (some analysis, analyzed) ∧
        analysis.literals = [⟨2, true⟩, ⟨0, true⟩] ∧
        refuted.Novel analysis (analyzed.learn analysis) := by
  let decided : List Literal := [⟨0, false⟩, ⟨1, false⟩]
  obtain ⟨engine, reached, facts⟩ := reachedObserved
    (show (run crossingRequests (ofOptions {})).toOption.map (fun engine =>
      match stepMany decided 2 (.start (engine.prepare decided)) with
      | some later => ((engine.prepare decided).consistent && 0 < later.engine.propagate.2.level,
          later.engine.propagate.1,
          (later.engine.propagate.2.analyze (.clause 2)).1.map Analysis.literals)
      | none => (false, none, none)) =
        some (true, some (.clause 2), some [⟨2, true⟩, ⟨0, true⟩]) by
      decide +kernel)
  cases stepped : stepMany decided 2 (.start (engine.prepare decided)) with
  | none => simp [stepped] at facts
  | some later =>
      simp only [stepped, Prod.mk.injEq, Bool.and_eq_true, decide_eq_true_eq] at facts
      obtain ⟨⟨consistent, deep⟩, conflict, literals⟩ := facts
      have reaches := stepManyReaches stepped
      have pending : engine.Pending later.engine := .step consistent (Or.inl rfl) reaches
      have visits : engine.Visits later.engine := .step consistent (Or.inl rfl) reaches
      have propagated : later.engine.propagate = (some (.clause 2), later.engine.propagate.2) :=
        Prod.ext conflict rfl
      obtain ⟨learns, moments⟩ := learningIrredundant reached
      obtain ⟨analysis, analyzed, found, novel⟩ := learns _ _ _ pending propagated deep
      rw [found, Option.map_some, Option.some.injEq] at literals
      exact ⟨engine, later.engine, .clause 2, later.engine.propagate.2, reached, pending, visits,
        moments _ visits, propagated, deep, analysis, analyzed, found, literals, novel⟩

end Engine

end ParitySat
