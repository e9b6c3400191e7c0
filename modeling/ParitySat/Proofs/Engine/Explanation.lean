/-
This file shows that the explanation of an implied literal follows from its parity constraint, and
that whatever an engine does keeps the explanations of the literals that stay on the trail.
-/

import ParitySat.Proofs.Engine.Maintenance
import ParitySat.Proofs.Engine.Sweep
import ParitySat.Proofs.Parity.Status

namespace ParitySat

namespace Network

section Consequence

variable (network : Network) (index : Nat)

/-- An explanation is false, and with what it explains it follows from the constraint. -/
def Explains (implied : Option Nat) (literals : List Literal) : Prop :=
  (∀ assignment, (network.parities.constraint index).holds assignment = true →
    Clause.holds assignment (literals ++ network.explain implied (.parity index)) = true) ∧
    ∀ other ∈ network.explain implied (.parity index), network.trail.value other = some false

/-- What a constraint forces or violates is explained exactly. -/
structure ExplanationExact : Prop where
  forces : ∀ literal,
    (network.parities.constraint index).status network.trail.atomValue = .forces literal →
      network.Explains index (some literal.atom) [literal]
  violated : (network.parities.constraint index).status network.trail.atomValue = .violated →
    network.Explains index none []

variable {network index}

/-- An explanation speaks of the atoms of the constraint but the implied one. -/
theorem memberExplain {implied : Option Nat} {other : Literal} :
    other ∈ network.explain implied (.parity index) ↔
      other.atom ∈ (network.parities.constraint index).atoms ∧ some other.atom ≠ implied ∧
        other.negated = (network.trail.atomValue other.atom == some true) := by
  simp only [explain, ParityConstraint.falsified, List.mem_map, List.mem_filter, bne_iff_ne]
  constructor
  · rintro ⟨atom, ⟨member, different⟩, rfl⟩
    exact ⟨member, different, rfl⟩
  · rintro ⟨member, different, sign⟩
    exact ⟨other.atom, ⟨member, different⟩, by rw [← sign]⟩

/-- The literals of an explanation are false if their atoms have values. -/
theorem explainFalse {implied : Option Nat}
    (known : ∀ atom ∈ (network.parities.constraint index).atoms, some atom ≠ implied →
      network.trail.atomValue atom ≠ none) {other : Literal}
    (member : other ∈ network.explain implied (.parity index)) :
    network.trail.value other = some false := by
  obtain ⟨inside, different, sign⟩ := memberExplain.1 member
  obtain ⟨truth, value⟩ := Option.ne_none_iff_exists'.1 (known other.atom inside different)
  rw [Trail.valueEqAtomValue, value, sign, value]
  cases truth <;> rfl

/-- An assignment that contradicts an explanation agrees with the values of its atoms. -/
theorem completesExplain {implied : Option Nat} {assignment : Nat → Bool}
    (unknown : ∀ atom, some atom = implied → network.trail.atomValue atom = none)
    (contradicts : ∀ other ∈ network.explain implied (.parity index),
      other.holds assignment = false) :
    ParityConstraint.Completes network.trail.atomValue (network.parities.constraint index)
      assignment := by
  intro atom member truth value
  have different : some atom ≠ implied := fun same => by
    rw [unknown atom same] at value
    cases value
  have wrong := contradicts ⟨atom, network.trail.atomValue atom == some true⟩
    (memberExplain.2 ⟨member, different, rfl⟩)
  rw [Literal.holds, value] at wrong
  revert wrong
  cases assignment atom <;> cases truth <;> simp

/-- Every clause follows that holds wherever its explanation is contradicted. -/
theorem explainFollows {implied : Option Nat} {literals : List Literal} {assignment : Nat → Bool}
    (otherwise : (∀ other ∈ network.explain implied (.parity index),
      other.holds assignment = false) → Clause.holds assignment literals = true) :
    Clause.holds assignment (literals ++ network.explain implied (.parity index)) = true := by
  rw [Clause.holds, List.any_append, Bool.or_eq_true]
  cases explained : (network.explain implied (.parity index)).any (·.holds assignment) with
  | true => exact .inr rfl
  | false =>
      refine .inl (otherwise fun other member => ?_)
      simpa using List.any_eq_false.1 explained other member

/-- Explanations are exact for constraints over distinct atoms. -/
theorem explanationExact (distinct : (network.parities.constraint index).atoms.Nodup) :
    network.ExplanationExact index where
  forces literal forced := by
    have spec := ParityConstraint.statusSpec network.trail.atomValue distinct
    rw [forced] at spec
    simp only at spec
    refine ⟨fun assignment holds => explainFollows fun contradicts => ?_, fun other =>
      explainFalse fun atom member different => spec.others atom member fun same =>
        different (congrArg some same)⟩
    have completes := completesExplain (fun atom same => by
      rw [Option.some.inj same]
      exact spec.unknown) contradicts
    rw [Clause.holds, List.any_cons, spec.implied distinct completes holds, Bool.true_or]
  violated conflict := by
    have spec := ParityConstraint.statusSpec network.trail.atomValue distinct
    rw [conflict] at spec
    obtain ⟨all, wrong⟩ := spec
    refine ⟨fun assignment holds => explainFollows fun contradicts => ?_, fun other =>
      explainFalse fun atom member _ => all atom member⟩
    have completes := completesExplain (fun atom same => by cases same) contradicts
    -- The values are those of the assignment, so the constraint would not be violated.
    have same : (network.parities.constraint index).holds (Truth.total network.trail.atomValue) =
        (network.parities.constraint index).holds assignment := by
      refine ParityConstraint.holdsCongr fun atom member => ?_
      obtain ⟨truth, value⟩ := Option.ne_none_iff_exists'.1 (all atom member)
      rw [completes atom member truth value, Truth.total, value]
      cases truth <;> rfl
    rw [same, holds] at wrong
    cases wrong

end Consequence

/-- The literal stands at this position of the trail because of a parity constraint, and the
literals that explain it have become false before. -/
structure Explained (network : Network) (position : Nat) (literal : Literal) (index : Nat)
    (explanation : List Literal) : Prop where
  found : network.trail.literals.toList[position]? = some literal
  reason : network.trail.reason literal.atom = some (.parity index)
  own : literal.atom ∈ (network.parities.constraint index).atoms
  atoms : explanation.map Literal.atom = (network.parities.constraint index).atoms.filter
    fun atom => some atom != some literal.atom
  earlier : ∀ other ∈ explanation, other.negate ∈ network.trail.initial position

section Explained

variable {network after : Network} {position index : Nat} {literal : Literal}
  {explanation : List Literal}
  (explained : network.Explained position literal index explanation)
include explained

theorem Explained.member : literal ∈ network.trail.literals.toList :=
  List.mem_of_getElem? explained.found

theorem Explained.isFalse (coherent : network.trail.Coherent) {other : Literal}
    (member : other ∈ explanation) : network.trail.value other = some false :=
  (coherent.falsehood other).2 (Trail.initialMember (explained.earlier other member))

/-- The values of the trail give the explanation back. -/
theorem Explained.explains (coherent : network.trail.Coherent) :
    network.explain (some literal.atom) (.parity index) = explanation := by
  rw [explain, ← explained.atoms, ParityConstraint.falsified, List.map_map]
  refine (List.map_congr_left fun other member => ?_).trans (List.map_id _)
  have value := (Trail.valueEqAtomValue _ _ _).1 (explained.isFalse coherent member)
  rw [Function.comp_apply, value]
  obtain ⟨atom, negated⟩ := other
  cases negated <;> rfl

/-- The explanation only depends on the trail up to the literal. -/
theorem Explained.carry (found : after.trail.literals.toList[position]? = some literal)
    (initial : ∀ other ∈ network.trail.initial position, other ∈ after.trail.initial position)
    (reason : after.trail.reason literal.atom = network.trail.reason literal.atom)
    (constraint : after.parities.constraint index = network.parities.constraint index) :
    after.Explained position literal index explanation where
  found := found
  reason := reason.trans explained.reason
  own := by
    rw [constraint]
    exact explained.own
  atoms := by
    rw [constraint]
    exact explained.atoms
  earlier other member := initial _ (explained.earlier other member)

theorem Explained.appends (appends : network.trail.Appends after.trail)
    (constraint : after.parities.constraint index = network.parities.constraint index) :
    after.Explained position literal index explanation := by
  obtain ⟨added, grown⟩ := appends.literals
  have kept {place : Nat} {other : Literal}
      (found : network.trail.literals.toList[place]? = some other) :
      after.trail.literals.toList[place]? = some other := by
    rw [← grown, List.getElem?_append_left (List.getElem?_eq_some_iff.1 found).1]
    exact found
  refine explained.carry (kept explained.found) (fun other member => ?_) ?_ constraint
  · obtain ⟨place, below, found⟩ := Trail.memberInitial.1 member
    exact Trail.memberInitial.2 ⟨place, below, kept found⟩
  · rw [Trail.reason, appends.atoms literal explained.member, Trail.reason]

theorem Explained.alike (alike : network.trail.Alike after.trail)
    (reason : after.trail.reason literal.atom = network.trail.reason literal.atom)
    (constraint : after.parities.constraint index = network.parities.constraint index) :
    after.Explained position literal index explanation := by
  refine explained.carry ?_ (fun other member => ?_) reason constraint
  · rw [alike.literals]
    exact explained.found
  · rwa [alike.initial]

/-- Undoing levels leaves the explanations of the literals that stay. -/
theorem Explained.backtrack (coherent : network.trail.Coherent) {level : Nat}
    (kept : literal ∈ (network.trail.cancelUntil level).literals.toList) :
    (network.backtrack level).Explained position literal index explanation := by
  rw [Trail.literalsCancelUntil] at kept
  have size : position < network.trail.literals.size := by
    simpa using (List.getElem?_eq_some_iff.1 explained.found).1
  have below : position < network.trail.boundary level := by
    rw [← coherent.levelAtLeIff size, ← coherent.levels position literal explained.found]
    exact (coherent.memberBoundary.1 kept).2
  refine explained.carry ?_ (fun other member => ?_) ?_ rfl
  · rw [trailBacktrack, Trail.literalsCancelUntil, Trail.initial, List.getElem?_take_of_lt below]
    exact explained.found
  · rwa [trailBacktrack, Trail.initialCancelUntil (Nat.le_of_lt below)]
  · rw [trailBacktrack, Trail.reason, Trail.atomCancelUntil coherent kept, Trail.reason]

end Explained

end Network

namespace Engine

open Network

section Explained

variable {position index : Nat} {literal : Literal} {explanation : List Literal}

/-- A reduction renames the clauses among the reasons. -/
theorem explainedReduce {engine : Engine} (tidy : engine.Tidy)
    (explained : engine.network.Explained position literal index explanation) :
    engine.reduce.network.Explained position literal index explanation := by
  have inherits := (reduceInherits tidy.shaped fun _ listed => tidy.registered.member.1 listed).1
  have known : engine.condemned.trail.reason literal.atom = some (.parity index) :=
    explained.reason
  refine explained.alike inherits.alike ?_ (inherits.constraint index)
  rw [networkReduce, Trail.reason, atomCompact, known, explained.reason]
  rfl

/-- Without a conflict the trail only grows. -/
theorem explainedProceeds {start engine : Engine} (proceeds : Proceeds start engine)
    (explained : start.network.Explained position literal index explanation) :
    engine.network.Explained position literal index explanation := by
  induction proceeds with
  | refl => exact explained
  | same _ network _ inductionHypothesis =>
      rw [network]
      exact inductionHypothesis
  | reduce _ tidy inductionHypothesis => exact explainedReduce tidy inductionHypothesis
  | deepen _ inductionHypothesis => exact inductionHypothesis.appends (.ofSame rfl rfl) rfl
  | @decide engine decision earlier coherent inside unknown inductionHypothesis =>
      have opened : engine.openLevel.network.Explained position literal index explanation :=
        inductionHypothesis.appends (.ofSame rfl rfl) rfl
      exact opened.appends (Trail.appendsEnqueue none fun other member =>
        coherent.undetermined unknown member) rfl

/-- Whatever a search does after a propagation, the explanation of a literal that stays is kept. -/
theorem explainedReacts {start after : Engine} (coherent : start.network.trail.Coherent)
    (reacts : Reacts start after)
    (explained : start.network.Explained position literal index explanation)
    (kept : literal ∈ after.network.trail.literals.toList) :
    after.network.Explained position literal index explanation := by
  cases reacts with
  | @learnt analysis point rest _ stable deep asserting network units =>
      obtain ⟨reason, trail⟩ := start.learnTrail asserting.literals
      have parities := start.learnParities asserting.literals
      rw [network] at kept ⊢
      rw [trail, Trail.literalsEnqueue, List.mem_append, List.mem_singleton] at kept
      have stays := kept.resolve_right fun same =>
        coherent.consistent asserting.member (same ▸ explained.member)
      have unknown := (Trail.valueNone _ _).1 (assertingForced asserting stable.shaped).1
      refine (explained.backtrack coherent stays).appends ?_ (by rw [parities]; rfl)
      rw [trail]
      exact (coherent.cancelUntil analysis.returnLevel).appends reason unknown
  | restarted network units =>
      rw [network] at kept ⊢
      exact explained.backtrack coherent kept
  | proceeds proceeds => exact explainedProceeds proceeds explained

/-- A stored constraint stays where it is. -/
theorem imposeKept {network : Network} (constraint : ParityConstraint)
    (inside : index < network.parities.constraints.size) :
    (network.impose constraint).parities.constraint index = network.parities.constraint index := by
  simp only [impose, ParityStore.constraint, ParityStore.add, Array.getD_eq_getD_getElem?,
    Array.getElem?_push]
  rw [if_neg (Nat.ne_of_lt inside)]

theorem reasonFlip (trail : Trail) (atom : Nat) :
    (flipPhases trail).reason atom = trail.reason atom := by
  by_cases inside : atom < trail.atoms.size
  · simp [flipPhases, Trail.reason, Trail.atom, Array.getD, inside]
  · simp [flipPhases, Trail.reason, Trail.atom, Array.getD, inside]

/-- The root level keeps its explanations in the whole life of an engine. -/
theorem maintainsExplained : Maintains fun engine =>
    engine.network.Explained position literal index explanation ∧
      engine.network.trail.Rooted literal where
  same _ _ network _ holds := by
    rw [network]
    exact holds
  addAtom := by
    rintro engine ⟨explained, rooted⟩
    have alike := growAlike engine.network
    refine ⟨explained.alike alike ?_ rfl, rooted.alike alike⟩
    exact congrArg AtomState.reason (Trail.atomGrow engine.network.trail literal.atom)
  attach := by
    rintro engine literals ⟨explained, rooted⟩
    exact ⟨explained.appends (.ofSame rfl rfl) rfl, rooted⟩
  impose := by
    rintro engine constraint ⟨explained, rooted⟩
    exact ⟨explained.appends (.ofSame rfl rfl)
      (imposeKept constraint (ParityStore.insideOfMember explained.own)), rooted⟩
  flip := by
    rintro engine shaped ⟨explained, rooted⟩
    have alike := (flipInherits shaped).alike
    exact ⟨explained.alike alike (reasonFlip engine.network.trail literal.atom) rfl,
      rooted.alike alike⟩
  assign := by
    rintro engine fresh absent ⟨explained, rooted⟩
    exact ⟨explained.appends (Trail.appendsEnqueue none absent.absent) rfl,
      rooted.enqueue none (absent.absent _ rooted.1)⟩
  deepen := by
    rintro engine ⟨explained, rooted⟩
    exact ⟨explained.appends (.ofSame rfl rfl) rfl, rooted⟩
  undo := by
    rintro engine coherent ⟨explained, rooted⟩
    have kept := rooted.cancelUntil coherent 0
    exact ⟨explained.backtrack coherent kept.1, kept⟩
  propagate := by
    rintro engine ready ⟨explained, rooted⟩
    have propagates : engine.network.Propagates engine.propagate.2.network :=
      (Network.propagateSpec ready).1.propagates
    exact ⟨explained.appends (propagates.appends ready.shaped) (by rw [propagates.frame.2.1]),
      propagates.rooted ready.shaped rooted⟩
  reduce := by
    rintro engine tidy ⟨explained, rooted⟩
    have inherits := (reduceInherits tidy.shaped fun _ listed => tidy.registered.member.1 listed).1
    exact ⟨explainedReduce tidy explained, rooted.alike inherits.alike⟩
  learn := by
    rintro engine analysis point rest stable deep asserting ⟨explained, rooted⟩
    have coherent := stable.shaped.trail
    have kept := rootedLearn coherent deep asserting rooted
    exact ⟨explainedReacts coherent (.learnt stable deep asserting rfl rfl) explained kept.1, kept⟩

end Explained

end Engine

end ParitySat
