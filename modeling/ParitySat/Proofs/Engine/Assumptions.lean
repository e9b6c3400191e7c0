/-
This file shows that the first levels of a search hold the assumptions and nothing else.
-/

import ParitySat.Engine.Search
import ParitySat.Proofs.Engine.State

namespace ParitySat

/-- The levels up to the number of assumptions decide on assumptions only, and every assumption
below the current level is true. -/
structure Trail.Follows (assumptions : List Literal) (trail : Trail) : Prop where
  chosen : ∀ literal ∈ trail.literals.toList, trail.reason literal.atom = none →
    0 < trail.atomLevel literal.atom → trail.atomLevel literal.atom ≤ assumptions.length →
    literal ∈ assumptions
  reached : ∀ index literal, assumptions[index]? = some literal → index < trail.level →
    literal ∈ trail.literals.toList ∧ trail.atomLevel literal.atom ≤ index + 1

namespace Trail.Follows

variable {assumptions : List Literal} {trail : Trail}

/-- At the root level no assumption has been decided on. -/
theorem root (coherent : trail.Coherent) (root : trail.level = 0) : trail.Follows assumptions where
  chosen literal member _ positive _ := by
    have low := coherent.levelLe member
    omega
  reached index literal _ below := by omega

variable (follows : trail.Follows assumptions)
include follows

/-- Only a decision above the root level has to be an assumption. -/
theorem enqueue (coherent : trail.Coherent) {literal : Literal} (reason : Option Reason)
    (inside : literal.atom < trail.atoms.size)
    (unknown : trail.atomValue literal.atom = none)
    (decided : reason = none → 0 < trail.level → trail.level ≤ assumptions.length →
      literal ∈ assumptions) : (trail.enqueue literal reason).Follows assumptions where
  chosen other member free positive low := by
    rw [literalsEnqueue, List.mem_append, List.mem_singleton] at member
    rcases member with old | rfl
    · have different := Ne.symm (coherent.undetermined unknown old)
      rw [reasonEnqueue _ _ _ different] at free
      rw [atomLevelEnqueue _ _ _ different] at positive low
      exact follows.chosen other old free positive low
    · rw [reasonEnqueueSame _ _ _ inside] at free
      rw [atomLevelEnqueueSame _ _ _ inside] at positive low
      exact decided free positive low
  reached index other assumed below := by
    obtain ⟨member, low⟩ := follows.reached index other assumed below
    have different := Ne.symm (coherent.undetermined unknown member)
    rw [literalsEnqueue, atomLevelEnqueue _ _ _ different]
    exact ⟨List.mem_append_left _ member, low⟩

/-- A level may be opened for an assumption that is true already. -/
theorem openLevel (coherent : trail.Coherent)
    (next : ∀ literal, assumptions[trail.level]? = some literal →
      literal ∈ trail.literals.toList) : trail.openLevel.Follows assumptions where
  chosen := follows.chosen
  reached index literal assumed below := by
    rw [levelOpenLevel] at below
    rcases Nat.lt_or_eq_of_le (Nat.le_of_lt_succ below) with earlier | rfl
    · exact follows.reached index literal assumed earlier
    · have member := next literal assumed
      exact ⟨member, Nat.le_succ_of_le (coherent.levelLe member)⟩

/-- A level may be opened by a decision on its assumption. -/
theorem decide (coherent : trail.Coherent) {literal : Literal}
    (inside : literal.atom < trail.atoms.size) (unknown : trail.atomValue literal.atom = none)
    (next : ∀ other, assumptions[trail.level]? = some other → other = literal) :
    (trail.openLevel.enqueue literal none).Follows assumptions where
  chosen other member free positive low := by
    rw [literalsEnqueue, List.mem_append, List.mem_singleton] at member
    rcases member with old | rfl
    · have different := Ne.symm (coherent.undetermined unknown old)
      rw [reasonEnqueue _ _ _ different] at free
      rw [atomLevelEnqueue _ _ _ different] at positive low
      exact follows.chosen other old free positive low
    · rw [atomLevelEnqueueSame trail.openLevel _ _ inside, levelOpenLevel] at low
      have found : trail.level < assumptions.length := low
      rw [← next _ (List.getElem?_eq_getElem found)]
      exact List.getElem_mem found
  reached index other assumed below := by
    rw [levelEnqueue, levelOpenLevel] at below
    rw [literalsEnqueue]
    rcases Nat.lt_or_eq_of_le (Nat.le_of_lt_succ below) with earlier | rfl
    · obtain ⟨member, low⟩ := follows.reached index other assumed earlier
      have different := Ne.symm (coherent.undetermined unknown member)
      rw [atomLevelEnqueue _ _ _ different]
      exact ⟨List.mem_append_left _ member, low⟩
    · obtain rfl := next other assumed
      rw [atomLevelEnqueueSame trail.openLevel _ _ inside, levelOpenLevel]
      exact ⟨List.mem_append_right _ List.mem_cons_self, Nat.le_refl _⟩

theorem cancelUntil (coherent : trail.Coherent) (level : Nat) :
    (trail.cancelUntil level).Follows assumptions where
  chosen literal member free positive low := by
    rw [literalsCancelUntil] at member
    rw [reason, atomCancelUntil coherent member] at free
    rw [atomLevelCancelUntil] at positive low
    exact follows.chosen literal (initialMember member) free positive low
  reached index literal assumed below := by
    rw [levelCancelUntil] at below
    obtain ⟨member, low⟩ := follows.reached index literal assumed (by omega)
    rw [literalsCancelUntil, atomLevelCancelUntil]
    exact ⟨coherent.memberBoundary.2 ⟨member, by omega⟩, low⟩

end Trail.Follows

namespace Network

variable {assumptions : List Literal}

/-- Propagation decides on nothing. -/
theorem Propagates.follows {start network : Network} (propagates : start.Propagates network)
    (shaped : start.Shaped) (follows : start.trail.Follows assumptions) :
    network.trail.Follows assumptions := by
  induction propagates with
  | refl => exact follows
  | rearrange _ _ _ _ inductionHypothesis => exact inductionHypothesis
  | force earlier literal reason inside unknown _ _ inductionHypothesis =>
      exact inductionHypothesis.enqueue (earlier.shaped shaped).trail (some reason) inside unknown
        fun impossible => by contradiction
  | advance _ _ _ _ _ inductionHypothesis =>
      exact ⟨inductionHypothesis.chosen, inductionHypothesis.reached⟩

theorem Inherits.follows {before after : Network} (inherits : before.Inherits after)
    (follows : before.trail.Follows assumptions) : after.trail.Follows assumptions where
  chosen literal member free positive low := by
    rw [inherits.alike.literals] at member
    rw [inherits.alike.level] at positive low
    refine follows.chosen literal member ?_ positive low
    cases known : before.trail.reason literal.atom with
    | none => rfl
    | some cause =>
        obtain ⟨reason, same, -⟩ := inherits.reasons literal member cause known
        rw [free] at same
        contradiction
  reached index literal assumed below := by
    rw [Trail.level, inherits.alike.limits] at below
    rw [inherits.alike.literals, inherits.alike.level]
    exact follows.reached index literal assumed below

/-- While the search decides on assumptions only, every model of the assumptions agrees with the
whole trail. -/
theorem assumedHolds {models : (Nat → Bool) → Prop} {network : Network} (shaped : network.Shaped)
    (sound : network.Sound models) (follows : network.trail.Follows assumptions)
    (low : network.trail.level ≤ assumptions.length) {assignment : Nat → Bool}
    (model : models assignment)
    (assumed : ∀ literal ∈ assumptions, literal.holds assignment = true) (position : Nat) :
    ∀ literal, network.trail.literals.toList[position]? = some literal →
      literal.holds assignment = true := by
  have coherent := shaped.trail
  induction position using Nat.strongRecOn with
  | ind position inductionHypothesis =>
      intro literal found
      have member := List.mem_of_getElem? found
      cases cause : network.trail.reason literal.atom with
      | none =>
          rcases Nat.eq_zero_or_pos (network.trail.atomLevel literal.atom) with root | positive
          · exact sound.root assignment model literal member root
          · have bounded := coherent.levelLe member
            exact assumed literal (follows.chosen literal member cause positive (by omega))
      | some reason =>
          obtain ⟨-, forced⟩ := (shaped.reasons position literal found).forced cause
          refine forced.holds coherent shaped.parities.distinct member
            (sound.reason model forced) fun other earlier => ?_
          obtain ⟨before, below, atBefore⟩ := Trail.memberInitial.1 earlier
          exact inductionHypothesis before below other atBefore

end Network

namespace Engine

/-- A search for a model under assumptions leaves alone what concerns the caller only. -/
structure Searching (models : (Nat → Bool) → Prop) (assumptions : List Literal)
    (base engine : Engine) : Prop extends Steady models engine where
  follows : engine.network.trail.Follows assumptions
  keeps : base.Keeps engine

/-- A paused search has no literal that waits for propagation. -/
structure Paused (models : (Nat → Bool) → Prop) (assumptions : List Literal)
    (base engine : Engine) : Prop extends Searching models assumptions base engine where
  finished : engine.network.trail.head = engine.network.trail.literals.size

variable {models : (Nat → Bool) → Prop} {assumptions : List Literal} {base engine : Engine}

theorem Steady.openLevel (steady : engine.Steady models)
    (finished : engine.network.trail.head = engine.network.trail.literals.size) :
    Steady models engine.openLevel where
  sound := steady.sound.deepen
  complete := steady.complete.deepen
  queued := steady.queued.longer rfl fun _ missing => missing
  unmarked := ⟨steady.unmarked.width, steady.unmarked.clear⟩
  learnts := steady.learnts
  units := steady.units
  consistent := steady.consistent
  ready := steady.ready.deepen finished

/-- A true assumption may be given a level. -/
theorem Paused.openLevel (paused : Paused models assumptions base engine)
    (next : ∀ literal, assumptions[engine.level]? = some literal →
      literal ∈ engine.network.trail.literals.toList) :
    Paused models assumptions base engine.openLevel where
  toSteady := paused.toSteady.openLevel paused.finished
  follows := paused.follows.openLevel paused.ready.shaped.trail next
  keeps := ⟨paused.keeps.options, paused.keeps.submitted, paused.keeps.traversal,
    paused.keeps.atoms⟩
  finished := paused.finished

/-- The next assumption is missing, undetermined or false. -/
def Assumed.Meets (models : (Nat → Bool) → Prop) (assumptions : List Literal)
    (base engine : Engine) : Assumed → Prop
  | .complete trail =>
    Paused models assumptions base (engine.withTrail trail) ∧ assumptions.length ≤ trail.level
  | .decide literal trail =>
    Paused models assumptions base (engine.withTrail trail) ∧
      assumptions[trail.level]? = some literal ∧ trail.atomValue literal.atom = none
  | .failed trail =>
    Paused models assumptions base (engine.withTrail trail) ∧
      trail.level ≤ assumptions.length ∧
      ∃ literal ∈ assumptions, literal.negate ∈ trail.literals.toList

theorem assumeMeets (rest : List Literal) (paused : Paused models assumptions base engine)
    (remaining : rest = assumptions.drop engine.level) :
    Assumed.Meets models assumptions base engine (assume engine.network.trail rest) := by
  induction rest generalizing engine with
  | nil =>
      have done := congrArg List.length remaining
      rw [List.length_nil, List.length_drop] at done
      exact ⟨paused, Nat.le_of_sub_eq_zero done.symm⟩
  | cons literal rest inductionHypothesis =>
      have coherent := paused.ready.shaped.trail
      have next : assumptions[engine.level]? = some literal := by
        rw [← List.head?_drop, ← remaining, List.head?_cons]
      have member := List.mem_of_getElem? next
      rw [assume]
      cases value : engine.network.trail.value literal with
      | none => exact ⟨paused, next, (Trail.valueNone _ _).1 value⟩
      | some truth =>
          cases truth with
          | false =>
              obtain ⟨inside, -⟩ := List.getElem?_eq_some_iff.1 next
              exact ⟨paused, Nat.le_of_lt inside, literal, member, (coherent.falsehood literal).1 value⟩
          | true =>
              have opened := paused.openLevel fun other assumed => by
                obtain rfl := Option.some.inj (next.symm.trans assumed)
                exact (coherent.truth literal).1 value
              apply inductionHypothesis opened
              have level : engine.openLevel.level = engine.level + 1 :=
                engine.network.trail.levelOpenLevel
              rw [level, ← List.tail_drop, ← remaining, List.tail_cons]

end Engine

end ParitySat
