/-
This file shows that a search learns from every conflict above the root level.
-/

import ParitySat.Proofs.Engine.Assumptions

namespace ParitySat

namespace Trail

variable {trail : Trail} (coherent : trail.Coherent)
include coherent

/-- An atom above a level has no value when the trail has returned to that level. -/
theorem unknownCancelUntil {level atom : Nat} (high : level < trail.atomLevel atom) :
    (trail.cancelUntil level).atomValue atom = none := by
  cases known : (trail.cancelUntil level).atomValue atom with
  | none => rfl
  | some truth =>
      have kept := (coherent.cancelUntil level).knownMember known
      rw [literalsCancelUntil] at kept
      have low := (coherent.memberBoundary.1 kept).2
      change trail.atomLevel atom ≤ level at low
      omega

/-- A level with a literal does not begin at the end of the trail. -/
theorem limitBeforeEnd {literal : Literal} (member : literal ∈ trail.literals.toList)
    (last : trail.atomLevel literal.atom = trail.level) :
    trail.literals.size ∉ trail.limits.toList := by
  intro limit
  obtain ⟨position, inside, found⟩ := List.mem_iff_getElem.1 member
  have atPosition : trail.literals.toList[position]? = some literal := by
    rw [List.getElem?_eq_getElem inside, found]
  rw [coherent.levels position literal atPosition, levelAt, level, ← Array.length_toList,
    List.countP_eq_length] at last
  have early := last _ limit
  simp only [decide_eq_true_eq] at early
  rw [Array.length_toList] at inside
  omega

end Trail

namespace Engine

variable {models : (Nat → Bool) → Prop}

theorem Sane.reorder {engine : Engine} (sane : engine.Sane models) {order : DecisionOrder}
    (queued : engine.network.trail.Queued order) : Sane models { engine with order } where
  sound := sane.sound
  complete := sane.complete
  queued := queued
  unmarked := sane.unmarked
  learnts := sane.learnts
  units := sane.units
  consistent := sane.consistent

section Record

variable {engine : Engine} (steady : engine.Steady models) {first : Literal}
  (inside : first.atom < engine.atomCount)
  (unknown : engine.network.trail.atomValue first.atom = none)
include steady inside unknown

/-- A learnt unit is assigned at the root level. -/
theorem Steady.recordUnit (statistics : Statistics) (root : engine.level = 0)
    (entailed : ∀ assignment, models assignment → first.holds assignment = true) :
    Steady models ({ engine with
      statistics, learntUnits := engine.learntUnits.push first }.enqueue first none) := by
  have noted : Sane models
      { engine with statistics, learntUnits := engine.learntUnits.push first } :=
    { sound := steady.sound
      complete := steady.complete
      queued := steady.queued
      unmarked := ⟨steady.unmarked.width, steady.unmarked.clear⟩
      learnts := steady.learnts
      units := by
        intro literal member
        rw [Array.toList_push, List.mem_append, List.mem_singleton] at member
        rcases member with old | rfl
        · exact steady.units literal old
        · exact entailed
      consistent := steady.consistent }
  exact ⟨noted.enqueue steady.ready.shaped.trail none inside unknown fun _ => entailed,
    steady.ready.assignRoot root inside unknown⟩

/-- A longer learnt clause is stored, and its first literal is forced by it. -/
theorem Steady.recordClause (statistics : Statistics) {clause : Clause} {second : Literal}
    {rest : List Literal} (literals : clause.literals = first :: second :: rest)
    (learnt : clause.learnt = true) (live : clause.deleted = false)
    (distinct : (clause.literals.map Literal.atom).Nodup) (deep : 0 < engine.level)
    (others : ∀ literal ∈ second :: rest, literal.negate ∈ engine.network.trail.literals.toList)
    (last : engine.network.trail.atomLevel second.atom = engine.level)
    (entailed : ∀ assignment, models assignment →
      Clause.holds assignment clause.literals = true) :
    Steady models ({ engine with
      statistics
      network := engine.network.attach clause
      learnts := engine.learnts.push engine.network.store.clauses.size }.enqueue first
        (some (.clause engine.network.store.clauses.size))) := by
  have coherent := steady.ready.shaped.trail
  have proper : Clause.Proper engine.network.atomCount clause.literals := by
    refine ⟨by simp [literals], distinct, fun literal member => ?_⟩
    rw [literals, List.mem_cons] at member
    rcases member with rfl | other
    · exact inside
    · have inside := coherent.inside (others literal other)
      rwa [Literal.atomNegate] at inside
  have later := Trail.limitBeforeEnd coherent (others second List.mem_cons_self) last
  have stored : Sane models { engine with
      statistics
      network := engine.network.attach clause
      learnts := engine.learnts.push engine.network.store.clauses.size } :=
    { sound := steady.sound.attach entailed
      complete := fun assignment satisfied =>
        steady.complete assignment (Network.Satisfied.ofAttach satisfied).1
      queued := steady.queued
      unmarked := ⟨steady.unmarked.width, steady.unmarked.clear⟩
      learnts := by
        intro reference member
        rw [Array.toList_push, List.mem_append, List.mem_singleton] at member
        rcases member with old | rfl
        · exact steady.learntsAttach reference old
        · rw [Network.attach, ClauseStore.clauseAdd, if_pos rfl]
          exact learnt
      units := steady.units
      consistent := steady.consistent }
  refine ⟨stored.enqueue coherent _ inside unknown fun root => ?_,
    steady.ready.learn literals proper live unknown others last later⟩
  have level : engine.level = 0 := root
  omega

/-- The recorded clause forces its first literal, which is none of the assumptions. -/
theorem Searching.record {assumptions : List Literal} {base : Engine} {analysis : Analysis}
    {rest : List Literal} (follows : engine.network.trail.Follows assumptions)
    (keeps : base.Keeps engine) (literals : analysis.literals = first :: rest)
    (unit : rest = [] → engine.level = 0)
    (others : ∀ literal ∈ rest, literal.negate ∈ engine.network.trail.literals.toList)
    (last : ∀ second tail, rest = second :: tail →
      engine.network.trail.atomLevel second.atom = engine.level ∧ 0 < engine.level)
    (distinct : (analysis.literals.map Literal.atom).Nodup)
    (entailed : ∀ assignment, models assignment →
      Clause.holds assignment analysis.literals = true) :
    Searching models assumptions base (engine.record analysis) := by
  have coherent := steady.ready.shaped.trail
  unfold Engine.record
  rw [literals] at distinct entailed ⊢
  have frame (reason : Option Reason) :
      (engine.network.assign first reason).atomCount = base.atomCount :=
    (Network.atomCountAssign reason).trans keeps.atoms
  match rest, unit, others, last with
  | [], unit, _, _ =>
      refine
        { toSteady := steady.recordUnit inside unknown _ (unit rfl) fun assignment model => ?_
          follows := follows.enqueue coherent none inside unknown fun _ deep => ?_
          keeps := ⟨keeps.options, keeps.submitted, keeps.traversal, frame none⟩ }
      · have holds := entailed assignment model
        rwa [Clause.holds, List.any_cons, List.any_nil, Bool.or_false] at holds
      · have root : engine.network.trail.level = 0 := unit rfl
        omega
  | second :: tail, _, others, last =>
      obtain ⟨level, deep⟩ := last second tail rfl
      exact
        { toSteady := steady.recordClause inside unknown _ rfl rfl rfl distinct deep others level
            entailed
          follows := follows.enqueue coherent _ inside unknown fun free => by contradiction
          keeps := ⟨keeps.options, keeps.submitted, keeps.traversal, frame _⟩ }

end Record

/-- The search goes on with a literal that the learnt clause forces. -/
theorem Searching.learn {assumptions : List Literal} {base engine : Engine}
    (sane : engine.Sane models) (stable : engine.network.Stable)
    (follows : engine.network.trail.Follows assumptions) (keeps : base.Keeps engine)
    {analysis : Analysis} {point : Literal} {rest : List Literal}
    (asserting : Analysis.Asserting models engine.network.trail point rest analysis) :
    Searching models assumptions base (engine.learn analysis) := by
  have coherent := stable.shaped.trail
  have bumped : Sane models
      { engine with order := analysis.touched.foldl DecisionOrder.bump engine.order } :=
    sane.reorder (sane.queued.rearranged
      (DecisionOrder.bumpAllRearranges analysis.touched sane.queued.indexed))
  have returned : Steady models
      ({ engine with order := analysis.touched.foldl DecisionOrder.bump engine.order }.cancelUntil
        analysis.returnLevel) :=
    ⟨bumped.cancelUntil stable.shaped analysis.returnLevel,
      (stable.backtrackReady asserting.returns).1⟩
  have level : (engine.network.trail.cancelUntil analysis.returnLevel).level =
      analysis.returnLevel := by
    rw [Trail.levelCancelUntil, Nat.min_eq_left (Nat.le_of_lt asserting.returns)]
  have inside : point.negate.atom < (engine.network.backtrack analysis.returnLevel).atomCount := by
    rw [Network.atomCountBacktrack, Literal.atomNegate]
    exact coherent.inside asserting.member
  have unknown : (engine.network.trail.cancelUntil analysis.returnLevel).atomValue
      point.negate.atom = none := by
    apply Trail.unknownCancelUntil coherent
    rw [Literal.atomNegate, asserting.level]
    exact asserting.returns
  have frame : base.Keeps
      ({ engine with order := analysis.touched.foldl DecisionOrder.bump engine.order }.cancelUntil
        analysis.returnLevel) :=
    ⟨keeps.options, keeps.submitted, keeps.traversal,
      Network.atomCountBacktrack.trans keeps.atoms⟩
  have recorded := Searching.record returned inside unknown
    (follows.cancelUntil coherent analysis.returnLevel) frame asserting.literals
    (fun empty => level.trans (asserting.unit empty))
    (fun literal member => by
      obtain ⟨isFalse, low⟩ := asserting.falsified literal member
      change literal.negate ∈ (engine.network.trail.cancelUntil _).literals.toList
      rw [Trail.literalsCancelUntil]
      exact coherent.memberBoundary.2 ⟨isFalse, low⟩)
    (fun second tail same => by
      obtain ⟨last, deep⟩ := asserting.second second tail same
      change (engine.network.trail.cancelUntil _).atomLevel second.atom =
        (engine.network.trail.cancelUntil _).level ∧
          0 < (engine.network.trail.cancelUntil _).level
      rw [level, Trail.atomLevelCancelUntil]
      exact ⟨last, deep⟩)
    asserting.distinct asserting.entailed
  exact
    { toSteady := ⟨recorded.toSane.same rfl rfl rfl rfl rfl rfl, recorded.ready⟩
      follows := recorded.follows
      keeps := ⟨recorded.keeps.options, recorded.keeps.submitted, recorded.keeps.traversal,
        recorded.keeps.atoms⟩ }

end Engine

end ParitySat
