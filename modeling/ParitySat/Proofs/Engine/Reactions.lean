/-
This file says once what a step of a search does to the engine after its propagation.
-/

import ParitySat.Proofs.Engine.Derivation
import ParitySat.Proofs.Engine.Moments
import ParitySat.Proofs.Engine.Progress

namespace ParitySat.Engine

/-- Without a conflict a search may reduce the learnt clauses, open levels and decide. -/
inductive Proceeds (start : Engine) : Engine → Prop where
  | refl : Proceeds start start
  | same {engine after : Engine} (earlier : Proceeds start engine)
      (network : after.network = engine.network)
      (units : after.learntUnits = engine.learntUnits) : Proceeds start after
  | reduce {engine : Engine} (earlier : Proceeds start engine) (tidy : engine.Tidy) :
      Proceeds start engine.reduce
  | deepen {engine : Engine} (earlier : Proceeds start engine) : Proceeds start engine.openLevel
  | decide {engine : Engine} {literal : Literal} (earlier : Proceeds start engine)
      (coherent : engine.network.trail.Coherent) (inside : literal.atom < engine.atomCount)
      (unknown : engine.network.trail.atomValue literal.atom = none) :
      Proceeds start (engine.decideOn literal)

/-- What is learnt depends on the network, and the other parts of the engine do not matter. -/
theorem learnSame (first second : Engine) (network : first.network = second.network)
    (units : first.learntUnits = second.learntUnits) (analysis : Analysis) :
    (first.learn analysis).network = (second.learn analysis).network ∧
      (first.learn analysis).learntUnits = (second.learn analysis).learntUnits := by
  simp only [learn, record, cancelUntil, network, units]
  rcases analysis.literals with _ | ⟨_, _ | ⟨_, _⟩⟩
  · exact ⟨rfl, rfl⟩
  · exact ⟨rfl, rfl⟩
  · exact ⟨rfl, rfl⟩

section Learn

variable (engine : Engine) {analysis : Analysis}

theorem learnUnit {literal : Literal} (single : analysis.literals = [literal]) :
    (engine.learn analysis).network =
        (engine.network.backtrack analysis.returnLevel).assign literal none ∧
      (engine.learn analysis).learntUnits = engine.learntUnits.push literal := by
  simp only [learn, record, single]
  exact ⟨rfl, rfl⟩

theorem learnClause {first second : Literal} {rest : List Literal}
    (several : analysis.literals = first :: second :: rest) :
    (engine.learn analysis).network =
        ((engine.network.backtrack analysis.returnLevel).attach
          { literals := analysis.literals, learnt := true, glue := analysis.glue }).assign first
            (some (.clause engine.network.store.clauses.size)) ∧
      (engine.learn analysis).learntUnits = engine.learntUnits := by
  simp only [learn, record, several]
  exact ⟨rfl, rfl⟩

theorem learnParities {first : Literal} {rest : List Literal}
    (some : analysis.literals = first :: rest) :
    (engine.learn analysis).network.parities = engine.network.parities := by
  cases rest with
  | nil =>
      rw [(engine.learnUnit some).1]
      rfl
  | cons second rest =>
      rw [(engine.learnClause some).1]
      rfl

end Learn

/-- A search learns from a conflict above the root level, returns to the root level, or proceeds. -/
inductive Reacts (start : Engine) : Engine → Prop where
  | learnt {analysis : Analysis} {point : Literal} {rest : List Literal} {after : Engine}
      (stable : start.network.Stable) (deep : 0 < start.level)
      (asserting : Analysis.Asserting start.network.Fits start.network.trail point rest analysis)
      (network : after.network = (start.learn analysis).network)
      (units : after.learntUnits = (start.learn analysis).learntUnits) : Reacts start after
  | restarted {after : Engine} (network : after.network = start.network.backtrack 0)
      (units : after.learntUnits = start.learntUnits) : Reacts start after
  | proceeds {after : Engine} (proceeds : Proceeds start after) : Reacts start after

section Proceeds

variable {start : Engine}

/-- True assumptions only open levels. -/
theorem Proceeds.assume {engine : Engine} (earlier : Proceeds start engine) (rest : List Literal) :
    match Engine.assume engine.network.trail rest with
    | .complete trail => Proceeds start (engine.withTrail trail)
    | .decide _ trail => Proceeds start (engine.withTrail trail)
    | .failed trail => Proceeds start (engine.withTrail trail) := by
  induction rest generalizing engine with
  | nil => exact earlier
  | cons literal rest inductionHypothesis =>
      rw [Engine.assume]
      cases engine.network.trail.value literal with
      | none => exact earlier
      | some truth =>
          cases truth with
          | false => exact earlier
          | true => exact inductionHypothesis earlier.deepen

variable {models : (Nat → Bool) → Prop} {assumptions : List Literal} {base engine : Engine}
  {search : Search}

theorem Proceeds.branch (paused : Paused models assumptions base engine)
    (earlier : Proceeds start engine) {picked : Option Nat × Engine} (picks : Picked engine picked) :
    (search.branch picked).Leads (Proceeds start) := by
  obtain ⟨choice, after⟩ := picked
  obtain ⟨chosen, frame⟩ := picks
  have only : after = { engine with order := after.order, random := after.random } := frame
  have network : after.network = engine.network := by rw [only]
  have units : after.learntUnits = engine.learntUnits := by rw [only]
  have same : Proceeds start after := earlier.same network units
  cases choice with
  | none => exact same
  | some atom =>
      refine same.decide ?_ ?_ ?_
      · rw [network]
        exact paused.ready.shaped.trail
      · rw [atomCount, network]
        exact chosen.inside
      · rw [network]
        exact chosen.unknown

theorem Proceeds.decides (generator : Generator)
    (paused : Paused models assumptions base search.engine)
    (inside : ∀ literal ∈ assumptions, literal.atom < base.atomCount)
    (earlier : Proceeds start search.engine) :
    (search.decide generator assumptions).Leads (Proceeds start) := by
  have meets := assumeMeets (assumptions.drop search.engine.level) paused rfl
  have opened := earlier.assume (assumptions.drop search.engine.level)
  rw [Search.decideEq]
  generalize Engine.assume search.engine.network.trail (assumptions.drop search.engine.level) =
    assumed at meets opened ⊢
  cases assumed with
  | failed trail => exact opened
  | decide literal trail =>
      obtain ⟨next, found, unknown⟩ := meets
      have existing := inside literal (List.mem_of_getElem? found)
      rw [← next.keeps.atoms] at existing
      exact opened.decide next.ready.shaped.trail existing unknown
  | complete trail =>
      obtain ⟨complete, -⟩ := meets
      have counted : Paused models assumptions base { search.engine.withTrail trail with
          statistics := { search.engine.statistics with
            decisions := search.engine.statistics.decisions + 1 } } :=
        ⟨complete.toSearching.same rfl rfl rfl rfl rfl rfl rfl rfl rfl, complete.finished⟩
      exact Proceeds.branch counted (opened.same rfl rfl)
        (pickBranchPicked generator counted.queued)

end Proceeds

theorem Progress.leadsMono {first second : Engine → Prop} {progress : Progress}
    (weaker : ∀ engine, first engine → second engine) (leads : progress.Leads first) :
    progress.Leads second := by
  cases progress with
  | running next => exact weaker _ leads
  | finished verdict final => exact weaker _ leads
  | stuck => trivial

section Step

variable {models : (Nat → Bool) → Prop} {assumptions : List Literal} {base : Engine}
  (budget : Budget) {search : Search} (generator : Generator)

theorem afterAnalysisLeads {property : Engine → Prop} {analysis : Analysis} {engine : Engine}
    (learnt : property (engine.learn analysis)) :
    (search.afterAnalysis budget (some analysis, engine)).Leads property := by
  simp only [Search.afterAnalysis]
  split
  · exact learnt
  · exact learnt

theorem afterFixpointReacts (search : Search)
    (paused : Paused models assumptions base search.engine)
    (tidy : search.engine.Tidy)
    (inside : ∀ literal ∈ assumptions, literal.atom < base.atomCount) :
    (search.afterFixpoint generator budget assumptions).Leads (Reacts search.engine) := by
  rw [Search.afterFixpointEq]
  split
  · exact .restarted rfl rfl
  · split
    · exact .proceeds .refl
    · have relieved : Paused models assumptions base search.relieved.engine ∧
          Proceeds search.engine search.relieved.engine := by
        unfold Search.relieved
        simp only
        split
        · exact ⟨reducePaused paused, .reduce .refl tidy⟩
        · exact ⟨paused, .refl⟩
      exact Progress.leadsMono (fun _ => .proceeds)
        (Proceeds.decides generator relieved.1 inside relieved.2)

/-- Every step propagates and reacts in one of these ways. -/
theorem stepReacts (searching : Searching models assumptions base search.engine)
    (registered : search.engine.Registered) (ranked : search.engine.Ranked)
    (inside : ∀ literal ∈ assumptions, literal.atom < base.atomCount) :
    (search.step generator budget assumptions).Leads (Reacts search.engine.propagate.2) := by
  obtain ⟨sane, stable, fixpoint, violated⟩ := searching.toSteady.propagate
  have keeps := searching.keeps.trans (keepsPropagate searching.ready)
  have follows : search.engine.propagate.2.network.trail.Follows assumptions :=
    (Network.propagateSpec searching.ready).1.propagates.follows searching.ready.shaped
      searching.follows
  have tidy := searching.toSteady.tidyPropagate registered ranked
  rw [Search.stepEq]
  cases outcome : search.engine.propagate.1 with
  | none =>
      obtain ⟨steady, finished⟩ := fixpoint outcome
      have paused : Paused models assumptions base search.engine.propagate.2 :=
        ⟨⟨steady, follows, keeps⟩, finished⟩
      exact afterFixpointReacts budget generator
        { search with engine := search.engine.propagate.2 } paused tidy inside
  | some conflict =>
      rw [Search.afterPropagation, Search.afterConflictEq]
      split
      · exact .proceeds (.same .refl rfl rfl)
      · next deep =>
          have above : 0 < search.engine.propagate.2.level := Nat.pos_of_ne_zero deep
          obtain ⟨analysis, point, rest, found, asserting, -⟩ :=
            Network.analyzeSpec stable stable.shaped.fits above (violated conflict outcome)
              sane.unmarked
          generalize clashed : Search.clash { search with engine := search.engine.propagate.2 } = clash
          have analyzed : clash.engine.analyze conflict = (some analysis,
              { clash.engine with
                marks := (clash.engine.network.analyze clash.engine.marks conflict).2 }) := by
            subst clashed
            exact Prod.ext found rfl
          rw [analyzed]
          obtain ⟨network, units⟩ := learnSame { clash.engine with
            marks := (clash.engine.network.analyze clash.engine.marks conflict).2 }
            search.engine.propagate.2 (by rw [← clashed]; rfl) (by rw [← clashed]; rfl)
            analysis
          exact afterAnalysisLeads budget (.learnt stable above asserting network units)

end Step

end ParitySat.Engine
