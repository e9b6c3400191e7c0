/-
This file shows that a call uses its conflict limit exactly, and that the conflicts of earlier calls
make no difference to it.
-/

import ParitySat.Proofs.Engine.Exhaustion
import ParitySat.Proofs.Engine.Independence

namespace ParitySat

/-- Two budgets say the same while there are fewer conflicts than the number. -/
def Budget.AgreeBelow (top : Nat) (first second : Budget) : Prop :=
  ∀ conflicts < top, ∀ poll, second.exhausted conflicts poll = first.exhausted conflicts poll

/-- Nothing but the number of conflicts ends a search under this budget. -/
def Budget.Counts (budget : Budget) (limit : Nat) : Prop :=
  ∀ conflicts poll, budget.exhausted conflicts poll = decide (limit ≤ conflicts)

/-- This budget limits the conflicts and nothing else. -/
def Budget.ofLimit (limit : Nat) : Budget :=
  ⟨some limit, none, fun _ => 0, none⟩

theorem Budget.ofLimitCounts (limit : Nat) : (ofLimit limit).Counts limit := by
  intro conflicts poll
  simp [ofLimit, exhausted]

section Counts

variable {options : Options} {limit : Nat} (limited : options.maximumConflicts = some limit)
  (timeless : ∀ time, options.maximumTime = some time → Budget.clockRange ≤ time)
include limited timeless

/-- Without a deadline the limit counts from the conflicts of the earlier calls. -/
theorem Budget.ofOptionsCounts (used : Nat) (clock : Nat → Nat) :
    (ofOptions options used clock none).Counts (min (used + limit) counterBound) := by
  intro conflicts poll
  have endless : options.maximumTime.filter (· < clockRange) = none := by
    rw [Option.filter_eq_none_iff]
    intro time given
    simpa using timeless time given
  simp [ofOptions, exhausted, limited, endless]

/-- Below the greatest number that a counter holds, the sum is what it should be. -/
theorem Budget.ofOptionsAgree (used : Nat) (clock : Nat → Nat) :
    (ofOptions options used clock none).AgreeBelow counterBound (ofLimit (used + limit)) := by
  intro conflicts few poll
  rw [ofLimitCounts, ofOptionsCounts limited timeless, decide_eq_decide]
  omega

end Counts

/-- Another start of the count moves the limit by as much. -/
theorem Recounts.shift (earlier limit : Nat) :
    Recounts (earlier + ·) (.ofLimit limit) (.ofLimit (earlier + limit)) where
  next _ := rfl
  exhausted conflicts poll := by
    rw [Budget.ofLimitCounts, Budget.ofLimitCounts, decide_eq_decide]
    omega

def Search.conflicts (search : Search) : Nat :=
  search.engine.statistics.conflicts

/-- A step has ended with fewer conflicts than the number. -/
def Progress.Few (top : Nat) : Progress → Prop
  | .running next => next.conflicts < top
  | .finished _ final => final.conflicts < top
  | .stuck => False

namespace Engine

/-- Only a conflict changes the number of conflicts, and only an answer changes the model. -/
structure Idles (before after : Engine) : Prop where
  conflicts : after.statistics.conflicts = before.statistics.conflicts
  model : after.model = before.model

theorem Idles.refl (engine : Engine) : engine.Idles engine := ⟨rfl, rfl⟩

theorem Idles.trans {first second third : Engine} (left : first.Idles second)
    (right : second.Idles third) : first.Idles third :=
  ⟨right.conflicts.trans left.conflicts, right.model.trans left.model⟩

theorem idlesPickBranch (generator : Generator) (engine : Engine) :
    engine.Idles (engine.pickBranch generator).2 := by
  have random : engine.Idles (engine.randomBranch generator).2 := by
    unfold randomBranch
    split
    · simp only
      split <;> exact ⟨rfl, rfl⟩
    · exact .refl engine
  unfold pickBranch
  generalize engine.randomBranch generator = drawn at random
  obtain ⟨choice, after⟩ := drawn
  cases choice with
  | some atom => exact random
  | none => exact random.trans ⟨rfl, rfl⟩

theorem idlesRelieved (search : Search) : search.engine.Idles search.relieved.engine := by
  unfold Search.relieved
  simp only
  split <;> exact ⟨rfl, rfl⟩

/-- A step charges a conflict exactly if its propagation has ended with one.

The budget is looked at after every conflict that is learnt from and before every decision. -/
inductive Charges (budget : Budget) (paused : Search) : Progress → Prop where
  | refute {final : Search} (root : paused.engine.level = 0)
      (charged : final.conflicts = paused.conflicts + 1) :
      Charges budget paused (.finished .unsatisfiable final)
  | learn {next : Search} (deep : paused.engine.level ≠ 0)
      (charged : next.conflicts = paused.conflicts + 1)
      (model : next.engine.model = paused.engine.model)
      (spare : budget.exhausted next.conflicts paused.polls = false) :
      Charges budget paused (.running next)
  | interrupt {final : Search} (deep : paused.engine.level ≠ 0)
      (charged : final.conflicts = paused.conflicts + 1)
      (model : final.engine.model = paused.engine.model)
      (exhausted : budget.exhausted final.conflicts paused.polls = true) :
      Charges budget paused (.finished .unknown final)
  | restart {next : Search} (idles : paused.engine.Idles next.engine)
      (root : next.engine.level = 0) : Charges budget paused (.running next)
  | giveUp {final : Search} (idles : paused.engine.Idles final.engine)
      (exhausted : budget.exhausted paused.conflicts paused.polls = true) :
      Charges budget paused (.finished .unknown final)
  | decide {next : Search} (idles : paused.engine.Idles next.engine)
      (spare : budget.exhausted paused.conflicts paused.polls = false) :
      Charges budget paused (.running next)
  | answer {verdict : Verdict} {final : Search} (idles : paused.engine.Idles final.engine)
      (spare : budget.exhausted paused.conflicts paused.polls = false)
      (known : verdict ≠ .unknown) : Charges budget paused (.finished verdict final)
  | stuck : Charges budget paused .stuck

section Charges

variable {budget : Budget} (paused : Search)

theorem afterConflictCharges (conflict : Reason) :
    Charges budget paused (paused.afterConflict budget conflict) := by
  rw [Search.afterConflictEq]
  split
  · next root => exact .refute root rfl
  · next deep =>
      have analyzed : paused.clash.engine.Idles (paused.clash.engine.analyze conflict).2 :=
        ⟨rfl, rfl⟩
      generalize paused.clash.engine.analyze conflict = found at analyzed ⊢
      obtain ⟨outcome, engine⟩ := found
      cases outcome with
      | none => exact .stuck
      | some analysis =>
          obtain ⟨-, conflicts, model⟩ := learnStatistics engine analysis
          have charged := conflicts.trans analyzed.conflicts
          simp only [Search.afterAnalysis]
          split
          · next exhausted => exact .interrupt deep charged (model.trans analyzed.model) exhausted
          · next spare =>
              exact .learn deep charged (model.trans analyzed.model) (Bool.not_eq_true _ ▸ spare)

theorem branchCharges {search : Search} {picked : Option Nat × Engine}
    (idles : paused.engine.Idles picked.2)
    (spare : budget.exhausted paused.conflicts paused.polls = false) :
    Charges budget paused (search.branch picked) := by
  obtain ⟨choice, engine⟩ := picked
  cases choice with
  | none => exact .answer idles spare (by decide)
  | some atom => exact .decide ⟨idles.conflicts, idles.model⟩ spare

theorem decideCharges (generator : Generator) (assumptions : List Literal) {search : Search}
    (idles : paused.engine.Idles search.engine)
    (spare : budget.exhausted paused.conflicts paused.polls = false) :
    Charges budget paused (search.decide generator assumptions) := by
  rw [Search.decideEq]
  cases assume search.engine.network.trail (assumptions.drop search.engine.level) with
  | failed trail => exact .answer ⟨idles.conflicts, idles.model⟩ spare (by decide)
  | decide literal trail => exact .decide ⟨idles.conflicts, idles.model⟩ spare
  | complete trail =>
      have counted : paused.engine.Idles { search.engine.withTrail trail with
          statistics := { search.engine.statistics with
            decisions := search.engine.statistics.decisions + 1 } } :=
        ⟨idles.conflicts, idles.model⟩
      exact branchCharges paused (counted.trans (idlesPickBranch generator _)) spare

theorem afterFixpointCharges (generator : Generator) (assumptions : List Literal) :
    Charges budget paused (paused.afterFixpoint generator budget assumptions) := by
  rw [Search.afterFixpointEq]
  split
  · refine .restart ⟨rfl, rfl⟩ ?_
    change (paused.engine.cancelUntil 0).level = 0
    rw [levelCancelUntil, Nat.zero_min]
  · split
    · next exhausted => exact .giveUp (.refl _) exhausted
    · next spare =>
        exact decideCharges paused generator assumptions (idlesRelieved paused)
          (Bool.not_eq_true _ ▸ spare)

theorem stepCharges (generator : Generator) (assumptions : List Literal) (search : Search) :
    Charges budget { search with engine := search.engine.propagate.2 }
      (search.step generator budget assumptions) := by
  rw [Search.stepEq]
  cases search.engine.propagate.1 with
  | some conflict => exact afterConflictCharges _ conflict
  | none => exact afterFixpointCharges _ generator assumptions

end Charges

/-- A search that goes on has not reached the limit, unless it has had no conflict at all. -/
structure Affords (start limit : Nat) (search : Search) : Prop where
  least : start ≤ search.conflicts
  spare : search.conflicts < limit ∨ search.conflicts = start ∧ search.engine.level = 0
  model : search.engine.model = #[]

/-- A search ends at the limit at the latest, and it only gives up when it has reached it. -/
structure Bills (start limit : Nat) (verdict : Verdict) (final : Search) : Prop where
  least : start ≤ final.conflicts
  most : final.conflicts ≤ max limit (start + 1)
  exact : verdict = .unknown → final.conflicts = max start limit
  model : verdict = .unknown → final.engine.model = #[]

def StepBills (start limit : Nat) : Progress → Prop
  | .running next => Affords start limit next
  | .finished verdict final => Bills start limit verdict final
  | .stuck => True

section Bills

variable {budget : Budget} {start limit : Nat} (counts : budget.Counts limit)
include counts

theorem Charges.bills {paused : Search} {progress : Progress}
    (charges : Charges budget paused progress) (affords : Affords start limit paused) :
    StepBills start limit progress := by
  obtain ⟨least, spare, empty⟩ := affords
  cases charges with
  | refute root charged => exact ⟨by omega, by omega, nofun, nofun⟩
  | learn deep charged model open_ =>
      rw [counts, decide_eq_false_iff_not] at open_
      exact ⟨by omega, by omega, model.trans empty⟩
  | interrupt deep charged model exhausted =>
      rw [counts, decide_eq_true_iff] at exhausted
      exact ⟨by omega, by omega, fun _ => by omega, fun _ => model.trans empty⟩
  | @restart next idles root =>
      have same : next.conflicts = paused.conflicts := idles.conflicts
      exact ⟨by omega, by omega, idles.model.trans empty⟩
  | @giveUp final idles exhausted =>
      have same : final.conflicts = paused.conflicts := idles.conflicts
      rw [counts, decide_eq_true_iff] at exhausted
      exact ⟨by omega, by omega, fun _ => by omega, fun _ => idles.model.trans empty⟩
  | @decide next idles open_ =>
      have same : next.conflicts = paused.conflicts := idles.conflicts
      rw [counts, decide_eq_false_iff_not] at open_
      exact ⟨by omega, by omega, idles.model.trans empty⟩
  | @answer verdict final idles open_ known =>
      have same : final.conflicts = paused.conflicts := idles.conflicts
      exact ⟨by omega, by omega, fun unknown => absurd unknown known,
        fun unknown => absurd unknown known⟩
  | stuck => trivial

variable {models : (Nat → Bool) → Prop} {assumptions : List Literal} {base : Engine}
  {search : Search} (searching : Searching models assumptions base search.engine)
  (affords : Affords start limit search)
include searching affords

theorem stepBills (generator : Generator) :
    StepBills start limit (search.step generator budget assumptions) := by
  have limits := (Network.propagateSpec searching.ready).1.propagates.frame.1
  have level : search.engine.propagate.2.level = search.engine.level := congrArg Array.size limits
  have paused : Affords start limit { search with engine := search.engine.propagate.2 } :=
    ⟨affords.least, affords.spare.imp_right fun none => ⟨none.1, level.trans none.2⟩,
      affords.model⟩
  exact (stepCharges generator assumptions search).bills counts paused

/-- A whole search keeps to the limit. -/
theorem runBills (generator : Generator)
    (inside : ∀ literal ∈ assumptions, literal.atom < base.atomCount) (steps : Nat)
    {verdict : Verdict} {final : Search}
    (ran : Search.run generator budget assumptions steps search = .ok (verdict, final)) :
    Bills start limit verdict final := by
  induction steps generalizing search with
  | zero => contradiction
  | succ steps inductionHypothesis =>
      have meets := stepMeets budget generator searching inside
      have bills := stepBills counts searching affords generator
      rw [Search.run] at ran
      generalize search.step generator budget assumptions = progress at meets bills ran
      cases progress with
      | running next => exact inductionHypothesis meets bills ran
      | finished answer ended =>
          obtain ⟨rfl, rfl⟩ := Prod.mk.inj (Except.ok.inj ran)
          exact bills
      | stuck => contradiction

end Bills

section Spared

variable {budget other : Budget} {top : Nat}

/-- The conflicts never become fewer. -/
theorem Charges.few {paused : Search} {progress : Progress}
    (charges : Charges budget paused progress) (few : progress.Few top) :
    paused.conflicts < top := by
  cases charges with
  | refute root charged | learn deep charged | interrupt deep charged =>
      simp only [Progress.Few] at few
      omega
  | restart idles | giveUp idles | decide idles | answer idles =>
      exact Nat.lt_of_le_of_lt (Nat.le_of_eq idles.conflicts.symm) few
  | stuck => exact few.elim

variable (agree : Budget.AgreeBelow top budget other)
include agree

theorem afterAnalysisSpared {search : Search} {analyzed : Option Analysis × Engine}
    (few : (search.afterAnalysis budget analyzed).Few top) :
    search.afterAnalysis other analyzed = search.afterAnalysis budget analyzed := by
  obtain ⟨outcome, engine⟩ := analyzed
  cases outcome with
  | none => rfl
  | some analysis =>
      simp only [Search.afterAnalysis] at few ⊢
      have low : (engine.learn analysis).statistics.conflicts < top := by
        split at few <;> exact few
      have same : Search.exhausted other { search with engine := engine.learn analysis } =
          Search.exhausted budget { search with engine := engine.learn analysis } :=
        agree _ low search.polls
      rw [same]

theorem afterConflictSpared {paused : Search} {conflict : Reason}
    (few : (paused.afterConflict budget conflict).Few top) :
    paused.afterConflict other conflict = paused.afterConflict budget conflict := by
  rw [Search.afterConflictEq] at few
  rw [Search.afterConflictEq, Search.afterConflictEq]
  by_cases root : paused.engine.level = 0
  · rw [if_pos root, if_pos root]
  · rw [if_neg root] at few
    rw [if_neg root, if_neg root, afterAnalysisSpared agree few]

theorem afterFixpointSpared {generator : Generator} {assumptions : List Literal} {paused : Search}
    (few : (paused.afterFixpoint generator budget assumptions).Few top) :
    paused.afterFixpoint generator other assumptions =
      paused.afterFixpoint generator budget assumptions := by
  have low := (afterFixpointCharges paused generator assumptions).few few
  have same : paused.exhausted other = paused.exhausted budget := agree _ low paused.polls
  rw [Search.afterFixpointEq, Search.afterFixpointEq, same]

theorem stepSpared {generator : Generator} {assumptions : List Literal} {search : Search}
    (few : (search.step generator budget assumptions).Few top) :
    search.step generator other assumptions = search.step generator budget assumptions := by
  rw [Search.stepEq] at few ⊢
  rw [Search.stepEq]
  cases outcome : search.engine.propagate.1 with
  | some conflict =>
      rw [outcome] at few
      exact afterConflictSpared agree few
  | none =>
      rw [outcome] at few
      exact afterFixpointSpared agree few

/-- A search that ends with so few conflicts does the same under the other budget. -/
theorem runSpared {generator : Generator} {assumptions : List Literal} (steps : Nat)
    {search final : Search} {verdict : Verdict}
    (ran : Search.run generator budget assumptions steps search = .ok (verdict, final))
    (few : final.conflicts < top) :
    Search.run generator other assumptions steps search = .ok (verdict, final) ∧
      search.conflicts < top := by
  induction steps generalizing search with
  | zero => contradiction
  | succ steps inductionHypothesis =>
      have charges : Charges budget { search with engine := search.engine.propagate.2 }
          (search.step generator budget assumptions) := stepCharges generator assumptions search
      have spared (few : (search.step generator budget assumptions).Few top) :=
        stepSpared agree few
      rw [Search.run] at ran ⊢
      cases stepped : search.step generator budget assumptions with
      | running next =>
          rw [stepped] at ran charges spared
          obtain ⟨later, low⟩ := inductionHypothesis ran
          rw [spared low]
          exact ⟨later, charges.few low⟩
      | finished answer ended =>
          rw [stepped] at ran charges spared
          obtain ⟨rfl, rfl⟩ := Prod.mk.inj (Except.ok.inj ran)
          rw [spared few]
          exact ⟨rfl, charges.few few⟩
      | stuck =>
          rw [stepped] at ran
          contradiction

theorem searchWithSpared {environment : Environment} {assumptions : List Literal}
    {engine : Engine} {result : Verdict × Engine}
    (ended : searchWith environment budget assumptions engine = .ok result)
    (few : result.2.statistics.conflicts < top) :
    searchWith environment other assumptions engine = .ok result := by
  unfold searchWith at ended ⊢
  cases ran : Search.run environment.generator budget assumptions environment.steps
      (Search.start engine) with
  | error stuck =>
      rw [ran] at ended
      contradiction
  | ok found =>
      obtain ⟨verdict, final⟩ := found
      rw [ran] at ended
      obtain rfl := Except.ok.inj ended
      have low : final.conflicts < top := by
        cases verdict <;> exact few
      rw [(runSpared agree environment.steps ran low).1]

end Spared

/-- This function replaces the number of conflicts. -/
def withConflicts (count : Nat) (engine : Engine) : Engine :=
  { engine with statistics := { engine.statistics with conflicts := count } }

theorem prepareWithConflicts (count : Nat) (engine : Engine) (assumptions : List Literal) :
    (engine.withConflicts count).prepare assumptions =
      (engine.prepare assumptions).withConflicts count := by
  unfold prepare
  rw [← ensureAtomsCommute (withConflicts count) (fun _ => rfl) fun _ => rfl]
  rfl

/-- The preparation has no conflict and forgets the model. -/
theorem prepareIdles (engine : Engine) (assumptions : List Literal) :
    Idles { engine with model := #[] } (engine.prepare assumptions) := by
  unfold prepare
  apply ensureAtomsInduction (motive := Idles { engine with model := #[] })
  · exact fun _ idles => ⟨idles.conflicts, idles.model⟩
  · exact ⟨rfl, rfl⟩

section Call

variable {environment : Environment} {assumptions : List Literal} {engine after : Engine}
  {limit : Nat} {verdict : Verdict}

section Limited

variable (limited : engine.options.maximumConflicts = some limit)
  (timeless : ∀ time, engine.options.maximumTime = some time → Budget.clockRange ≤ time)
include limited timeless

/-- What a search does depends on the conflicts of the earlier calls only if a counter overflows. -/
theorem searchWithShift {first second used : Nat}
    (ended : searchWith environment ((engine.withConflicts first).ownBudget environment)
      assumptions (engine.withConflicts first) = .ok (verdict, after))
    (charged : after.statistics.conflicts = first + used)
    (few : first + used < Budget.counterBound) (less : second + used < Budget.counterBound) :
    searchWith environment ((engine.withConflicts second).ownBudget environment)
      assumptions (engine.withConflicts second) =
        .ok (verdict, after.withConflicts (second + used)) := by
  have shifted (count : Nat) := searchWithDisguise engine.labels environment assumptions
    (.shift count limit) (engine.withConflicts 0)
  have agree (count : Nat) :=
    Budget.ofOptionsAgree limited timeless count (environment.clock 0)
  have plain := searchWithSpared (agree first) ended (charged ▸ few)
  change searchWith _ _ _ ((engine.withConflicts 0).disguise engine.labels (first + ·)) = _ at plain
  rw [shifted first] at plain
  cases searched : searchWith environment (.ofLimit limit) assumptions
      (engine.withConflicts 0) with
  | error stuck =>
      rw [searched] at plain
      contradiction
  | ok result =>
      obtain ⟨answer, final⟩ := result
      have moved := shifted second
      rw [searched] at plain moved
      obtain ⟨rfl, rfl⟩ := Prod.mk.inj (Except.ok.inj plain)
      have same : first + final.statistics.conflicts = first + used := charged
      obtain rfl := Nat.add_left_cancel same
      exact searchWithSpared (fun conflicts low poll => (agree second conflicts low poll).symm)
        moved less

/-- A search pays for its conflicts with the limit and with nothing else. -/
theorem Steady.searchWithBills {models : (Nat → Bool) → Prop} (steady : engine.Steady models)
    (root : engine.level = 0) (empty : engine.model = #[])
    (inside : ∀ literal ∈ assumptions, literal.atom < engine.atomCount)
    (ended : searchWith environment (engine.ownBudget environment) assumptions engine =
      .ok (verdict, after)) :
    ∃ used, after.statistics.conflicts = engine.statistics.conflicts + used ∧
      (1 ≤ limit → used ≤ limit) ∧ (limit = 0 → used ≤ 1) ∧
      (verdict = .unknown → after.model = #[] ∧ after.consistent = true ∧ after.level = 0 ∧
        (after.statistics.conflicts < Budget.counterBound → used = limit)) := by
  have searching : Searching models assumptions engine (Search.start engine).engine :=
    steady.startSearching root
  have counts : (engine.ownBudget environment).Counts
      (min (engine.statistics.conflicts + limit) Budget.counterBound) :=
    Budget.ofOptionsCounts limited timeless engine.statistics.conflicts (environment.clock 0)
  have answers : Ends (fun result => Answers models assumptions (engine.ownBudget environment)
      engine result.2.engine result.1) (Search.run environment.generator
        (engine.ownBudget environment) assumptions environment.steps (Search.start engine)) :=
    runAnswers searching inside environment.steps
  have affords : Affords engine.statistics.conflicts
      (min (engine.statistics.conflicts + limit) Budget.counterBound) (Search.start engine) :=
    ⟨Nat.le_refl _, Or.inr ⟨rfl, root⟩, empty⟩
  rw [searchWith] at ended
  cases ran : Search.run environment.generator (engine.ownBudget environment) assumptions
      environment.steps (Search.start engine) with
  | error stuck =>
      rw [ran] at ended
      contradiction
  | ok found =>
      obtain ⟨answer, final⟩ := found
      have bills := runBills counts searching affords environment.generator inside _ ran
      rw [ran] at ended answers
      obtain ⟨rfl, rfl⟩ := Prod.mk.inj (Except.ok.inj ended)
      have charged : (final.engine.conclude answer).statistics.conflicts = final.conflicts := by
        cases answer <;> rfl
      obtain ⟨least, most, exact, model⟩ := bills
      refine ⟨final.conflicts - engine.statistics.conflicts, by omega, by omega, by omega, ?_⟩
      rintro rfl
      cases answers with
      | unknown ended conflicts poll exhausted =>
          have spent := exact rfl
          refine ⟨model rfl, ended.consistent, ?_, fun few => by omega⟩
          change (final.engine.cancelUntil 0).level = 0
          rw [levelCancelUntil, Nat.zero_min]

end Limited

end Call

/-- A call with a conflict limit has at most that many conflicts, or a single one at the root level
if it may have none, and it gives up only after all of them.

It would do the same if the earlier calls had used any other number of conflicts. -/
theorem conflictLimitExact {options : Options} {requests : List Request} {engine : Engine}
    (reached : run requests (ofOptions options) = .ok engine)
    (single : engine.options.threads ≤ 1) {limit : Nat}
    (limited : engine.options.maximumConflicts = some limit)
    (timeless : ∀ time, engine.options.maximumTime = some time → Budget.clockRange ≤ time)
    {environment : Environment} {assumptions : List Literal} {verdict : Verdict} {after : Engine}
    (answered : engine.solve environment assumptions = .ok (verdict, after)) :
    ∃ used, after.statistics.conflicts = engine.statistics.conflicts + used ∧
      (1 ≤ limit → used ≤ limit) ∧ (limit = 0 → used ≤ 1) ∧
      (verdict = .unknown → after.model = #[] ∧ engine.consistent = true ∧
        after.consistent = true ∧ after.level = 0 ∧
        (after.statistics.conflicts < Budget.counterBound → used = limit)) ∧
      ∀ earlier, after.statistics.conflicts < Budget.counterBound →
        earlier + used < Budget.counterBound →
          (engine.withConflicts earlier).solve environment assumptions =
            .ok (verdict, after.withConflicts (earlier + used)) := by
  have grows := prepareGrows engine assumptions
  have idles := prepareIdles engine assumptions
  cases consistent : (engine.prepare assumptions).consistent with
  | false =>
      rw [solveRefuted consistent] at answered
      obtain ⟨rfl, rfl⟩ := Prod.mk.inj (Except.ok.inj answered)
      refine ⟨0, idles.conflicts, fun _ => Nat.zero_le _, fun _ => Nat.zero_le _, nofun,
        fun earlier _ _ => ?_⟩
      have prepared := prepareWithConflicts earlier engine assumptions
      rw [solveRefuted (prepared.symm ▸ consistent), prepared]
      rfl
  | true =>
      obtain ⟨steady, root, -, inside⟩ :=
        (reachedFaithful reached).valid.employed consistent (.inl rfl)
      rw [solveSingle consistent single] at answered
      rw [← grows.options] at limited timeless
      obtain ⟨used, charged, most, least, unknown⟩ :=
        steady.searchWithBills limited timeless root idles.model inside answered
      have same : (engine.prepare assumptions).statistics.conflicts =
          engine.statistics.conflicts := idles.conflicts
      rw [same] at charged
      refine ⟨used, charged, most, least, fun given => ?_, fun earlier few less => ?_⟩
      · obtain ⟨model, kept, level, exact⟩ := unknown given
        exact ⟨model, grows.consistent.symm.trans consistent, kept, level, exact⟩
      · have prepared := prepareWithConflicts earlier engine assumptions
        have own : (engine.prepare assumptions).withConflicts engine.statistics.conflicts =
            engine.prepare assumptions := by
          rw [← same]
          rfl
        rw [← own] at answered
        rw [charged] at few
        have again : (engine.withConflicts earlier).options.threads ≤ 1 := single
        rw [solveSingle (prepared.symm ▸ consistent) again, prepared]
        exact searchWithShift limited timeless answered charged few less

/-- These clauses exclude every assignment of three atoms, and one conflict has been spent on
them. -/
def spentOnceRequests : List Request :=
  (([true, false].flatMap fun first => [true, false].flatMap fun second =>
    [true, false].map fun third =>
      .addClause [⟨0, first⟩, ⟨1, second⟩, ⟨2, third⟩]) : List Request) ++
    [.setOptions fun options => { options with maximumConflicts := some 1 },
      .solve stillEnvironment []]

theorem conflictLimitExactSpent :
    ∃ engine after, run spentOnceRequests (ofOptions {}) = .ok engine ∧
      engine.statistics.conflicts = 1 ∧
      engine.solve stillEnvironment [] = .ok (.unknown, after) ∧
      after.statistics.conflicts = 2 ∧ after.consistent = true ∧
      (engine.withConflicts 5).solve stillEnvironment [] =
        .ok (.unknown, after.withConflicts 6) := by
  obtain ⟨engine, reached, facts⟩ := reachedObserved
    (show (run spentOnceRequests (ofOptions {})).toOption.map (fun engine =>
      ((engine.statistics.conflicts, engine.options.threads),
        engine.options.maximumConflicts, engine.options.maximumTime,
        (engine.solve stillEnvironment []).toOption.map fun result =>
          (result.1, result.2.statistics.conflicts))) =
          some ((1, 1), some 1, none, some (.unknown, 2)) by decide +kernel)
  simp only [Prod.mk.injEq] at facts
  obtain ⟨⟨before, threads⟩, limited, timeless, called⟩ := facts
  cases answered : engine.solve stillEnvironment [] with
  | error stuck => simp [Except.toOption, answered] at called
  | ok result =>
      obtain ⟨verdict, after⟩ := result
      simp only [Except.toOption, answered, Option.map_some, Option.some.injEq,
        Prod.mk.injEq] at called
      obtain ⟨rfl, spent⟩ := called
      obtain ⟨used, charged, most, -, unknown, elsewhere⟩ := conflictLimitExact reached
        (Nat.le_of_eq threads) limited (by simp [timeless]) answered
      have low : after.statistics.conflicts < Budget.counterBound := by
        rw [spent]
        decide
      obtain ⟨-, -, consistent, -, exact⟩ := unknown rfl
      obtain rfl := exact low
      exact ⟨engine, after, reached, before, answered, spent, consistent,
        elsewhere 5 low (by decide)⟩

end Engine

end ParitySat
