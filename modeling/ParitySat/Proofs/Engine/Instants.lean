/-
This file follows a search from each visit of its propagations to the next one.
-/

import ParitySat.Proofs.Engine.Reactions
import ParitySat.Proofs.Engine.Sweep

namespace ParitySat

/-- At an instant of a search the propagation of its next step is under way. -/
structure Instant where
  search : Search
  sweep : Sweep

namespace Instant

open Engine

/-- At the first instant of a step nothing has been propagated. -/
def ofSearch (search : Search) : Instant :=
  ⟨search, .start search.engine.network⟩

/-- At the last instant of a step its propagation has ended. -/
def swept (search : Search) : Instant :=
  ⟨search, search.engine.network.propagate.2, .ended search.engine.network.propagate.1⟩

section Next

variable (generator : Generator) (budget : Budget) (assumptions : List Literal)

/-- This function makes the next visit, and after the last one the rest of the step. -/
def next (instant : Instant) : Option Instant :=
  match instant.sweep.next with
  | some sweep => some { instant with sweep }
  | none => (instant.search.step generator budget assumptions).onward.map ofSearch

/-- The instants that follow an instant. -/
def Reaches : Instant → Instant → Prop :=
  Relation.ReflTransGen fun first second => first.next generator budget assumptions = some second

/-- The literal is on the trail at the next instants up to a later one. -/
def Keeps (literal : Literal) : Instant → Instant → Prop :=
  Relation.TransGen fun first second => first.next generator budget assumptions = some second ∧
    literal ∈ second.sweep.network.trail.literals.toList

end Next

/-- At every instant of a search its step and the propagation of the step are sound. -/
structure Sound (models : (Nat → Bool) → Prop) (assumptions : List Literal) (base : Engine)
    (instant : Instant) : Prop where
  searching : Searching models assumptions base instant.search.engine
  registered : instant.search.engine.Registered
  ranked : instant.search.engine.Ranked
  sweep : instant.sweep.Sound instant.search.engine.network

section Sound

variable {models : (Nat → Bool) → Prop} {assumptions : List Literal} {base : Engine}
  {generator : Generator} {budget : Budget}

theorem soundOfSearch {search : Search}
    (searching : Searching models assumptions base search.engine)
    (registered : search.engine.Registered) (ranked : search.engine.Ranked) :
    (ofSearch search).Sound models assumptions base :=
  ⟨searching, registered, ranked, .turn searching.ready rfl⟩

/-- An instant is followed by a visit, or its propagation has ended and it is followed by a step. -/
theorem nextCases {instant later : Instant}
    (next : instant.next generator budget assumptions = some later) :
    (∃ sweep, instant.sweep.next = some sweep ∧ later = { instant with sweep }) ∨
      instant.sweep.next = none ∧ ∃ search,
        instant.search.step generator budget assumptions = .running search ∧
          later = ofSearch search := by
  unfold Instant.next at next
  cases visit : instant.sweep.next with
  | some sweep =>
      rw [visit] at next
      exact .inl ⟨sweep, rfl, (Option.some.inj next).symm⟩
  | none =>
      rw [visit] at next
      refine .inr ⟨rfl, ?_⟩
      cases stepped : instant.search.step generator budget assumptions with
      | running search =>
          rw [stepped] at next
          exact ⟨search, rfl, (Option.some.inj next).symm⟩
      | finished verdict final =>
          rw [stepped] at next
          cases next
      | stuck =>
          rw [stepped] at next
          cases next

/-- Without a further visit the propagation of the step has ended. -/
theorem Sound.sweptOfNone {instant : Instant} (sound : instant.Sound models assumptions base)
    (none : instant.sweep.next = none) : instant = swept instant.search := by
  obtain ⟨search, sweep⟩ := instant
  have begun := sound.sweep
  cases begun with
  | ended shaped rest => rw [swept, rest]
  | @turn network ready rest =>
      simp only [Sweep.next] at none
      split at none <;> cases none
  | @watchers before literal pending scan =>
      cases pending <;> cases none
  | @parities before network literal pending =>
      cases pending <;> cases none

variable (inside : ∀ literal ∈ assumptions, literal.atom < base.atomCount)
include inside

theorem Sound.next {instant later : Instant} (sound : instant.Sound models assumptions base)
    (next : instant.next generator budget assumptions = some later) :
    later.Sound models assumptions base := by
  rcases nextCases next with ⟨sweep, visit, rfl⟩ | ⟨-, search, stepped, rfl⟩
  · exact ⟨sound.searching, sound.registered, sound.ranked, sound.sweep.next visit⟩
  · have meets := stepMeets budget generator sound.searching inside
    have rests : StepRests instant.search.engine
        (instant.search.step generator budget assumptions) :=
      stepRests sound.searching sound.registered sound.ranked inside
    rw [stepped] at meets rests
    exact soundOfSearch meets rests.1 rests.2.1

theorem Sound.reaches {instant later : Instant} (sound : instant.Sound models assumptions base)
    (reaches : instant.Reaches generator budget assumptions later) :
    later.Sound models assumptions base := by
  induction reaches with
  | refl => exact sound
  | tail _ next inductionHypothesis => exact inductionHypothesis.next inside next

/-- A visit continues the trail, and after the last instant of a step the search reacts. -/
theorem Sound.onward {instant later : Instant} (sound : instant.Sound models assumptions base)
    (next : instant.next generator budget assumptions = some later) :
    (instant.sweep.network.trail.Appends later.sweep.network.trail ∧
      later.sweep.network.parities = instant.sweep.network.parities) ∨
    (instant.sweep.network = instant.search.engine.propagate.2.network ∧
      later.sweep.network = later.search.engine.network ∧
      instant.search.engine.propagate.2.network.trail.Coherent ∧
      Reacts instant.search.engine.propagate.2 later.search.engine) := by
  rcases nextCases next with ⟨sweep, visit, rfl⟩ | ⟨last, search, stepped, rfl⟩
  · exact .inl (sound.sweep.appends visit)
  · have reacts : (instant.search.step generator budget assumptions).Leads
        (Reacts instant.search.engine.propagate.2) :=
      stepReacts budget generator sound.searching sound.registered sound.ranked inside
    rw [stepped] at reacts
    have ended : instant.sweep.network = instant.search.engine.propagate.2.network := by
      rw [sound.sweptOfNone last]
      rfl
    exact .inr ⟨ended, rfl, sound.searching.toSteady.propagate.2.1.shaped.trail, reacts⟩

end Sound

section Cover

variable {models : (Nat → Bool) → Prop} {assumptions : List Literal} {base : Engine}
  {generator : Generator} {budget : Budget}

/-- The visits of a propagation are instants of its step. -/
theorem reachesSweep {search : Search} {first second : Sweep} (reaches : first.Reaches second) :
    Reaches generator budget assumptions ⟨search, first⟩ ⟨search, second⟩ := by
  induction reaches with
  | refl => exact .refl
  | tail _ visit inductionHypothesis =>
      exact inductionHypothesis.tail (by simp only [next, visit])

/-- The first and the last instant of every step are among the instants of the search. -/
theorem reachesCovered {search later : Search}
    (searching : Searching models assumptions base search.engine)
    (inside : ∀ literal ∈ assumptions, literal.atom < base.atomCount)
    (reaches : Engine.Reaches generator budget assumptions search later) :
    Reaches generator budget assumptions (ofSearch search) (ofSearch later) ∧
      Reaches generator budget assumptions (ofSearch search) (swept later) := by
  induction reaches with
  | refl search => exact ⟨.refl, reachesSweep (Sweep.reachesEnd searching.ready)⟩
  | @step first second third stepped _ inductionHypothesis =>
      have meets := stepMeets budget generator searching inside
      rw [stepped] at meets
      obtain ⟨begins, ends⟩ := inductionHypothesis meets
      have swept : Reaches generator budget assumptions (ofSearch first) (swept first) :=
        reachesSweep (Sweep.reachesEnd searching.ready)
      have onward : (Instant.swept first).next generator budget assumptions =
          some (ofSearch second) := by
        simp only [next, Instant.swept, Sweep.next, stepped, Progress.onward, Option.map_some]
      exact ⟨swept.trans (.head onward begins), swept.trans (.head onward ends)⟩

end Cover

end Instant

end ParitySat
