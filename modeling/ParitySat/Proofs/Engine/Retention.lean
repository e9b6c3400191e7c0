/-
This file shows that an engine gives back the explanation with which a literal has been implied for
as long as the literal is on the trail.
-/

import ParitySat.Proofs.Engine.Explanation
import ParitySat.Proofs.Engine.Grounding
import ParitySat.Proofs.Engine.Instants

namespace ParitySat

namespace Network

/-- The literal is still explained as it was, by literals that are false and became so before it. -/
structure StillExplains (before : Network) (literal : Literal) (index : Nat) (after : Network) :
    Prop where
  reason : after.trail.reason literal.atom = some (.parity index)
  explains : after.explain (some literal.atom) (.parity index) =
    before.explain (some literal.atom) (.parity index)
  isFalse : ∀ other ∈ after.explain (some literal.atom) (.parity index),
    after.trail.value other = some false
  earlier : ∃ position, after.trail.literals.toList[position]? = some literal ∧
    ∀ other ∈ after.explain (some literal.atom) (.parity index),
      other.negate ∈ after.trail.initial position

theorem Explained.still {before after : Network} {position index : Nat} {literal : Literal}
    (explained : after.Explained position literal index
      (before.explain (some literal.atom) (.parity index)))
    (coherent : after.trail.Coherent) : before.StillExplains literal index after := by
  have explains := explained.explains coherent
  refine ⟨explained.reason, explains, fun other member => ?_, position, explained.found,
    fun other member => ?_⟩
  · rw [explains] at member
    exact explained.isFalse coherent member
  · rw [explains] at member
    exact explained.earlier other member

/-- The value of the implied literal has no part in its explanation. -/
theorem explainAssign (network : Network) (literal : Literal) (reason : Option Reason)
    (index : Nat) : (network.assign literal reason).explain (some literal.atom) (.parity index) =
      network.explain (some literal.atom) (.parity index) := by
  refine List.map_congr_left fun atom member => ?_
  have different : literal.atom ≠ atom := fun same => by
    have apart := (List.mem_filter.1 member).2
    rw [same] at apart
    simp at apart
  rw [trailAssign, Trail.atomValueEnqueue _ _ _ different]

/-- Every literal that is there because of a parity constraint has its explanation. -/
theorem Shaped.explained {network : Network} (shaped : network.Shaped) {position index : Nat}
    {literal : Literal} (found : network.trail.literals.toList[position]? = some literal)
    (reason : network.trail.reason literal.atom = some (.parity index)) :
    network.Explained position literal index
      (network.explain (some literal.atom) (.parity index)) := by
  obtain ⟨own, others, -⟩ := ((shaped.reasons position literal found).forced reason).2
  refine ⟨found, reason, own, ?_, fun other member => ?_⟩
  · rw [explain, ParityConstraint.falsified, List.map_map]
    exact List.map_id _
  · obtain ⟨inside, different, sign⟩ := memberExplain.1 member
    obtain ⟨known, initial, same⟩ := others other.atom inside fun equal =>
      different (congrArg some equal)
    have value := shaped.trail.known (Trail.initialMember initial)
    have negated : known = other.negate := by
      rw [← same, value] at sign
      obtain ⟨atom, negative⟩ := known
      obtain ⟨otherAtom, otherNegative⟩ := other
      simp only at same sign
      rw [same, sign, Literal.negate]
      cases negative <;> rfl
    rwa [← negated]

end Network

namespace Sweep

/-- The sweep visits a parity constraint that forces this literal. -/
structure Forces (sweep : Sweep) (index : Nat) (literal : Literal) : Prop where
  visited : ∃ pending, sweep.stage = .parities (index :: pending)
  forced : (sweep.network.parities.constraint index).status sweep.network.trail.atomValue =
    .forces literal

variable {begun : Network} {sweep later : Sweep} {index : Nat} {literal : Literal}

theorem Forces.next (forces : sweep.Forces index literal) : ∃ pending, sweep.next =
    some ⟨sweep.network.assign literal (some (.parity index)), .parities pending⟩ := by
  obtain ⟨⟨pending, visited⟩, forced⟩ := forces
  refine ⟨pending, ?_⟩
  simp only [Sweep.next, visited, visitParity, forced]

/-- The visit puts the literal at the end of the trail, where its explanation has been false. -/
theorem Forces.explained (forces : sweep.Forces index literal) (sound : sweep.Sound begun)
    (visit : sweep.next = some later) :
    later.network.Explained sweep.network.trail.literals.size literal index
      (sweep.network.explain (some literal.atom) (.parity index)) := by
  obtain ⟨pending, next⟩ := forces.next
  obtain ⟨⟨listed, visited⟩, forced⟩ := forces
  obtain rfl : _ = later := Option.some.inj (next.symm.trans visit)
  obtain ⟨network, stage⟩ := sweep
  simp only at visited forced
  subst visited
  rw [← network.explainAssign literal (some (.parity index)) index]
  cases sound with
  | parities ready rest found shaped early done =>
      have spec := ParityConstraint.statusSpec network.trail.atomValue
        (shaped.parities.distinct index)
      rw [forced] at spec
      have inside := shaped.parities.inside index literal.atom spec.member
      have assigned := (Network.extendsForced shaped early spec).1.propagates.shaped shaped
      refine assigned.explained ?_ (Trail.reasonEnqueueSame _ _ _ inside)
      rw [Network.trailAssign, Trail.literalsEnqueue, ← Array.length_toList,
        List.getElem?_concat_length]

/-- In one propagation a literal keeps the explanation with which it was implied. -/
theorem Forces.still (forces : sweep.Forces index literal) (sound : sweep.Sound begun)
    (visits : Relation.TransGen (fun first second => first.next = some second) sweep later) :
    sweep.network.StillExplains literal index later.network := by
  have kept : later.Sound begun ∧ later.network.Explained sweep.network.trail.literals.size
      literal index (sweep.network.explain (some literal.atom) (.parity index)) := by
    induction visits with
    | single visit => exact ⟨sound.next visit, forces.explained sound visit⟩
    | tail _ visit inductionHypothesis =>
        obtain ⟨middle, explained⟩ := inductionHypothesis
        obtain ⟨appends, parities⟩ := middle.appends visit
        exact ⟨middle.next visit, explained.appends appends (by rw [parities])⟩
  exact kept.2.still kept.1.coherent

end Sweep

theorem Trail.Rooted.appends {before after : Trail} {literal : Literal}
    (rooted : before.Rooted literal) (appends : before.Appends after) : after.Rooted literal := by
  obtain ⟨member, root⟩ := rooted
  refine ⟨appends.literals.subset member, ?_⟩
  rw [Trail.atomLevel, appends.atoms literal member]
  exact root

namespace Instant

open Engine

section Keeps

variable {models : (Nat → Bool) → Prop} {assumptions : List Literal} {base : Engine}
  {generator : Generator} {budget : Budget} {instant later : Instant} {position index : Nat}
  {literal : Literal} {explanation : List Literal}
  (sound : instant.Sound models assumptions base)
  (inside : ∀ literal ∈ assumptions, literal.atom < base.atomCount)
include sound inside

/-- From one instant to the next an explanation is kept if the literal is. -/
theorem Sound.explained (next : instant.next generator budget assumptions = some later)
    (explained : instant.sweep.network.Explained position literal index explanation)
    (present : literal ∈ later.sweep.network.trail.literals.toList) :
    later.sweep.network.Explained position literal index explanation := by
  rcases sound.onward inside next with ⟨appends, parities⟩ | ⟨begun, ended, coherent, reacts⟩
  · exact explained.appends appends (by rw [parities])
  · rw [begun] at explained
    rw [ended] at present ⊢
    exact explainedReacts coherent reacts explained present

/-- A literal keeps the explanation with which it was implied until it is taken back. -/
theorem Sound.keeps (forces : instant.sweep.Forces index literal)
    (keeps : instant.Keeps generator budget assumptions literal later) :
    later.Sound models assumptions base ∧
      later.sweep.network.Explained instant.sweep.network.trail.literals.size literal index
        (instant.sweep.network.explain (some literal.atom) (.parity index)) := by
  induction keeps with
  | single step =>
      refine ⟨sound.next inside step.1, ?_⟩
      rcases nextCases step.1 with ⟨sweep, visit, rfl⟩ | ⟨last, -⟩
      · exact forces.explained sound.sweep visit
      · obtain ⟨pending, next⟩ := forces.next
        rw [next] at last
        cases last
  | tail _ step inductionHypothesis =>
      obtain ⟨middle, still⟩ := inductionHypothesis
      exact ⟨middle.next inside step.1, middle.explained inside step.1 still step.2⟩

/-- A literal of the root level is never taken back. -/
theorem Sound.rooted (next : instant.next generator budget assumptions = some later)
    (explained : instant.sweep.network.Explained position literal index explanation)
    (rooted : instant.sweep.network.trail.Rooted literal) :
    later.sweep.network.Explained position literal index explanation ∧
      later.sweep.network.trail.Rooted literal := by
  rcases sound.onward inside next with ⟨appends, parities⟩ | ⟨begun, ended, coherent, reacts⟩
  · exact ⟨explained.appends appends (by rw [parities]), rooted.appends appends⟩
  · rw [begun] at explained rooted
    rw [ended]
    exact maintainsExplained.reacts coherent reacts ⟨explained, rooted⟩

end Keeps

end Instant

namespace Engine

/-- The instants of the searches that the engine may make in its next call. -/
inductive Passes (engine : Engine) (generator : Generator) (budget : Budget)
    (assumptions : List Literal) : Instant → Prop where
  | intro {worker : Engine} {instant : Instant}
      (consistent : (engine.prepare assumptions).consistent = true)
      (employed : engine.Employed assumptions worker)
      (reaches : Instant.Reaches generator budget assumptions (.ofSearch (.start worker)) instant) :
      Passes engine generator budget assumptions instant

section Passes

variable {models : (Nat → Bool) → Prop} {engine : Engine} {generator : Generator}
  {budget : Budget} {assumptions : List Literal} {instant : Instant}

/-- Every instant is reached from the beginning of the search of a sound engine. -/
theorem Passes.begins (passes : engine.Passes generator budget assumptions instant)
    (valid : engine.Valid models) (resting : engine.Resting) :
    ∃ worker : Engine, engine.Visits (Search.start worker).engine ∧
      (∀ literal ∈ assumptions, literal.atom < worker.atomCount) ∧
      (Instant.ofSearch (.start worker)).Sound models assumptions worker ∧
      Instant.Reaches generator budget assumptions (.ofSearch (.start worker)) instant := by
  cases passes with
  | @intro worker _ consistent employed reaches =>
      obtain ⟨steady, root, -, inside⟩ := valid.employed consistent employed
      have begun : Reaches generator budget assumptions (.start worker) (.start worker) := .refl _
      have tidy := valid.tidySearch resting consistent employed begun
      exact ⟨worker, .step consistent employed begun, inside,
        Instant.soundOfSearch (steady.startSearching root) tidy.registered tidy.ranked, reaches⟩

/-- The instants include the beginning of every step and the end of its propagation. -/
theorem Valid.passes {worker : Engine} {search : Search} (valid : engine.Valid models)
    (consistent : (engine.prepare assumptions).consistent = true)
    (employed : engine.Employed assumptions worker)
    (reaches : Reaches generator budget assumptions (.start worker) search) :
    engine.Passes generator budget assumptions (.ofSearch search) ∧
      engine.Passes generator budget assumptions (.swept search) := by
  obtain ⟨steady, root, -, inside⟩ := valid.employed consistent employed
  obtain ⟨begins, ends⟩ :=
    Instant.reachesCovered (steady.startSearching root) inside reaches
  exact ⟨.intro consistent employed begins, .intro consistent employed ends⟩

/-- What the root level explains before a call, it explains at all instants of the call. -/
theorem Passes.rooted {position index : Nat} {literal : Literal} {explanation : List Literal}
    {constraints : List Constraint} (faithful : Faithful constraints engine)
    (resting : engine.Resting)
    (explained : engine.network.Explained position literal index explanation)
    (rooted : engine.network.trail.Rooted literal)
    (passes : engine.Passes generator budget assumptions instant) :
    instant.sweep.network.Explained position literal index explanation ∧
      instant.sweep.network.trail.Coherent := by
  obtain ⟨worker, visits, inside, sound, reaches⟩ := passes.begins faithful.valid resting
  have first := maintainsExplained.visits faithful resting ⟨explained, rooted⟩ visits
  clear passes
  have kept : instant.Sound (Constraint.Models constraints) assumptions worker ∧
      instant.sweep.network.Explained position literal index explanation ∧
      instant.sweep.network.trail.Rooted literal := by
    induction reaches with
    | refl => exact ⟨sound, first⟩
    | tail _ next inductionHypothesis =>
        obtain ⟨middle, still, kept⟩ := inductionHypothesis
        exact ⟨middle.next inside next, middle.rooted inside next still kept⟩
  exact ⟨kept.2.1, kept.1.sweep.coherent⟩

end Passes

/-- Parity propagation and its explanations are exact, and an explanation lasts for as long as the
literal that it explains is on the trail: in one propagation, in one search, and at the root level
in all later searches. -/
theorem explanationLasts {options : Options} {requests : List Request} {engine : Engine}
    (reached : run requests (ofOptions options) = .ok engine) :
    (∀ (constraint : ParityConstraint) (value : Nat → Truth), constraint.atoms.Nodup →
      constraint.StatusExact value) ∧
    (∀ (network : Network) (index : Nat), (network.parities.constraint index).atoms.Nodup →
      network.ExplanationExact index) ∧
    (∀ (begun : Network), begun.Ready → ∀ before, (Sweep.start begun).Reaches before →
      ∀ index literal, before.Forces index literal → ∀ after,
        Relation.TransGen (fun first second => first.next = some second) before after →
        before.network.StillExplains literal index after.network) ∧
    (∀ generator budget assumptions before, engine.Passes generator budget assumptions before →
      (∀ index, (before.sweep.network.parities.constraint index).atoms.Nodup) ∧
        ∀ index literal, before.sweep.Forces index literal → ∀ after,
          before.Keeps generator budget assumptions literal after →
          before.sweep.network.StillExplains literal index after.sweep.network) ∧
    ∀ literal ∈ engine.network.trail.literals.toList, ∀ index,
      engine.network.trail.reason literal.atom = some (.parity index) →
      ∀ more later, run more engine = .ok later → ∀ generator budget assumptions instant,
        later.Passes generator budget assumptions instant →
        engine.network.StillExplains literal index instant.sweep.network := by
  have faithful := reachedFaithful reached
  have resting := reachedResting reached
  refine ⟨fun constraint value distinct => ParityConstraint.statusExact distinct,
    fun network index => Network.explanationExact, fun begun ready before reaches index literal
      forces after => ?_, fun generator budget assumptions before passes => ?_,
    fun literal member index reason more later ran generator budget assumptions instant passes => ?_⟩
  · exact forces.still (Sweep.Sound.reaches (.turn ready rfl) reaches)
  · obtain ⟨worker, -, inside, sound, reaches⟩ := passes.begins faithful.valid resting
    have here := sound.reaches inside reaches
    refine ⟨fun index => here.sweep.distinct index, fun index literal forces after keeps => ?_⟩
    obtain ⟨there, explained⟩ := here.keeps inside forces keeps
    exact explained.still there.sweep.coherent
  · have shaped := resting.shaped
    obtain ⟨position, found⟩ := List.mem_iff_getElem?.1 member
    have rooted : engine.network.trail.Rooted literal :=
      ⟨member, Nat.le_zero.1 (resting.root ▸ shaped.trail.levelLe member)⟩
    obtain ⟨explained, kept⟩ := maintainsExplained.requests more faithful resting
      ⟨shaped.explained found reason, rooted⟩ ran
    have whole := (runAppend reached).trans ran
    obtain ⟨still, coherent⟩ :=
      passes.rooted (reachedFaithful whole) (reachedResting whole) explained kept
    exact still.still coherent

/-- This function follows so many instants that pass a test. -/
def follow (assumptions : List Literal) (test : Instant → Bool) : Nat → Instant → Option Instant
  | 0, instant => some instant
  | count + 1, instant =>
    match instant.next splitMix freeBudget assumptions with
    | some later => if test later then follow assumptions test count later else none
    | none => none

theorem followSteps {assumptions : List Literal} {test : Instant → Bool} {count : Nat}
    {first last : Instant} (followed : follow assumptions test count first = some last) :
    Relation.ReflTransGen (fun instant later =>
      instant.next splitMix freeBudget assumptions = some later ∧ test later = true) first last := by
  induction count generalizing first with
  | zero =>
      obtain rfl := Option.some.inj followed
      exact .refl
  | succ count inductionHypothesis =>
      rw [follow] at followed
      split at followed
      · next later next =>
          split at followed
          · next passed => exact .head ⟨next, passed⟩ (inductionHypothesis followed)
          · cases followed
      · cases followed

/-- The clause implies the second atom, the parity constraint the third, and the last is free. -/
def spacedRequests : List Request :=
  chainedRequests ++ [.addAtoms 1]

/-- The third atom is implied, and its explanation is the same after the decision on the last. -/
theorem explanationLastsSpaced :
    ∃ engine before after, run spacedRequests (ofOptions {}) = .ok engine ∧
      engine.Passes splitMix freeBudget [⟨0, true⟩] before ∧ before.sweep.Forces 0 ⟨2, true⟩ ∧
      before.Keeps splitMix freeBudget [⟨0, true⟩] ⟨2, true⟩ after ∧
      before.sweep.network.trail.level < after.sweep.network.trail.level ∧
      before.sweep.network.StillExplains ⟨2, true⟩ 0 after.sweep.network ∧
      after.sweep.network.explain (some 2) (.parity 0) = [⟨0, false⟩, ⟨1, true⟩] := by
  let decided : List Literal := [⟨0, true⟩]
  let onTrail (instant : Instant) : Bool :=
    decide (⟨2, true⟩ ∈ instant.sweep.network.trail.literals.toList)
  let early (engine : Engine) : Option Instant :=
    follow decided (fun _ => true) 5 (.ofSearch (.start (engine.prepare decided)))
  let forcing (instant : Instant) : Bool :=
    instant.sweep.stage = .parities [0] && (instant.sweep.network.parities.constraint 0).status
      instant.sweep.network.trail.atomValue = .forces ⟨2, true⟩
  let observed (before after : Instant) : Bool :=
    before.sweep.network.trail.level < after.sweep.network.trail.level &&
      after.sweep.network.explain (some 2) (.parity 0) = [⟨0, false⟩, ⟨1, true⟩]
  obtain ⟨engine, reached, facts⟩ := reachedObserved
    (show (run spacedRequests (ofOptions {})).toOption.map (fun engine =>
      (engine.prepare decided).consistent && (early engine).any fun before =>
        forcing before && (follow decided onTrail 12 before).any (observed before)) =
        some true by
      decide +kernel)
  simp only [Bool.and_eq_true, Option.any_eq_true, decide_eq_true_eq, observed, forcing] at facts
  obtain ⟨consistent, before, begun, ⟨visited, forced⟩, after, kept, deeper, explained⟩ := facts
  have passes : engine.Passes splitMix freeBudget decided before :=
    .intro consistent (Or.inl rfl)
      (Relation.ReflTransGen.mono (fun _ _ step => step.1) _ _ (followSteps begun))
  have keeps : before.Keeps splitMix freeBudget decided ⟨2, true⟩ after := by
    rcases Relation.reflTransGen_iff_eq_or_transGen.1 (followSteps kept) with same | steps
    · exact absurd deeper (same ▸ Nat.lt_irrefl _)
    · exact Relation.TransGen.mono (fun _ _ step => ⟨step.1, of_decide_eq_true step.2⟩) _ _ steps
  have forces : before.sweep.Forces 0 ⟨2, true⟩ := ⟨⟨[], visited⟩, forced⟩
  obtain ⟨-, -, -, lasts, -⟩ := explanationLasts reached
  exact ⟨engine, before, after, reached, passes, forces, keeps, deeper,
    (lasts _ _ _ before passes).2 0 ⟨2, true⟩ forces after keeps, explained⟩

end Engine

end ParitySat
