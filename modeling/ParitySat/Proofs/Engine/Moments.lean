/-
This file lists the moments at which a caller or a search looks at the engine, and shows that the
engine is tidy at each of them.
-/

import ParitySat.Proofs.Engine.Fixpoint
import ParitySat.Proofs.Engine.Upkeep

namespace ParitySat

/-- This function is the search that goes on after a step. -/
def Progress.onward : Progress → Option Search
  | .running next => some next
  | _ => none

namespace Engine

/-- The moments of an engine: as its caller finds it between two calls, and, in a call that the
engine makes next, before and after the propagation of every step of every search. -/
inductive Visits (engine : Engine) : Engine → Prop where
  | rest : Visits engine engine
  | step {assumptions : List Literal} {worker : Engine} {generator : Generator} {budget : Budget}
      {search : Search} (consistent : (engine.prepare assumptions).consistent = true)
      (employed : engine.Employed assumptions worker)
      (reaches : Reaches generator budget assumptions (.start worker) search) :
      Visits engine search.engine
  | propagated {assumptions : List Literal} {worker : Engine} {generator : Generator}
      {budget : Budget} {search : Search}
      (consistent : (engine.prepare assumptions).consistent = true)
      (employed : engine.Employed assumptions worker)
      (reaches : Reaches generator budget assumptions (.start worker) search) :
      Visits engine search.engine.propagate.2

section Search

variable {models : (Nat → Bool) → Prop} {engine worker : Engine} {assumptions : List Literal}
  {generator : Generator} {budget : Budget} {search : Search}

/-- Whoever searches is tidy at every moment. -/
theorem Valid.tidySearch (valid : engine.Valid models) (resting : engine.Resting)
    (consistent : (engine.prepare assumptions).consistent = true)
    (employed : engine.Employed assumptions worker)
    (reaches : Reaches generator budget assumptions (.start worker) search) :
    search.engine.Tidy := by
  obtain ⟨prepared, -⟩ := (valid.prepare assumptions).consistentSteady consistent
  obtain ⟨steady, root, -, inside⟩ := valid.employed consistent employed
  have rests := (resting.prepare assumptions).resting
  have tidy : worker.Tidy := by
    rcases employed with rfl | ⟨index, rfl⟩
    · exact rests.toTidy
    · exact (prepared.tendWorker rests index).resting.toTidy
  exact reachesTidy (steady.startSearching root) tidy.registered tidy.ranked inside reaches

end Search

theorem visitsTidy {options : Options} {requests : List Request} {engine moment : Engine}
    (reached : run requests (ofOptions options) = .ok engine) (visits : engine.Visits moment) :
    moment.Tidy := by
  have valid := (reachedFaithful reached).valid
  have resting := reachedResting reached
  cases visits with
  | rest => exact resting.toTidy
  | step consistent employed reaches => exact valid.tidySearch resting consistent employed reaches
  | propagated consistent employed reaches =>
      have tidy := valid.tidySearch resting consistent employed reaches
      exact (valid.searching consistent employed reaches).toSteady.tidyPropagate tidy.registered
        tidy.ranked

/-- What is computed after the first step of a call is a fact about a moment of the engine. -/
theorem visitsObserved {Fact : Type} (options : Options) (requests : List Request)
    (assumptions : List Literal) (observe : Engine → Fact) (fact : Fact)
    (computed : ((run requests (ofOptions options)).toOption.bind fun engine =>
      if (engine.prepare assumptions).consistent then
        (engine.stepOnce assumptions).onward.map fun next => observe next.engine
      else none) = some fact) :
    ∃ engine moment, run requests (ofOptions options) = .ok engine ∧ engine.Pending moment ∧
      engine.Visits moment ∧ engine.Visits moment.propagate.2 ∧ observe moment = fact := by
  cases ran : run requests (ofOptions options) with
  | error stuck =>
      rw [ran] at computed
      contradiction
  | ok engine =>
      rw [ran] at computed
      cases consistent : (engine.prepare assumptions).consistent with
      | false => simp [Except.toOption, consistent] at computed
      | true =>
          cases stepped : engine.stepOnce assumptions with
          | running next =>
              simp only [Except.toOption, Option.bind_some, consistent, if_true, stepped,
                Progress.onward, Option.map_some, Option.some.injEq] at computed
              have reaches := Reaches.step stepped (.refl next)
              exact ⟨engine, next.engine, rfl, .step consistent (.inl rfl) reaches,
                .step consistent (.inl rfl) reaches, .propagated consistent (.inl rfl) reaches,
                computed⟩
          | finished verdict final =>
              simp [Except.toOption, consistent, stepped, Progress.onward] at computed
          | stuck => simp [Except.toOption, consistent, stepped, Progress.onward] at computed

end Engine

end ParitySat
