/-
This file shows how the network takes in new atoms, clauses and parity constraints.
-/

import ParitySat.Proofs.Engine.Inheritance

namespace ParitySat.Network

/-- An empty network waits for nothing. -/
theorem emptyReady : Network.empty.Ready where
  shaped :=
    { trail := Trail.emptyCoherent
      store := ClauseStore.emptyWatching
      parities := ParityStore.emptyListing
      reasons := by
        intro position literal found
        contradiction
      settled := by
        intro limit member
        exact absurd member List.not_mem_nil }
  quiet reference first second rest same := by
    rw [ClauseStore.literalsEq, ClauseStore.clauseOutside (Nat.zero_le _)] at same
    contradiction
  settled index spare others := by
    have none : Network.empty.parities.constraint index = default :=
      ParityStore.constraintOutside (Nat.zero_le _)
    rw [none]
    exact ⟨fun atom member => absurd member List.not_mem_nil, rfl⟩

theorem growAlike (network : Network) : network.trail.Alike network.grow.trail where
  literals := rfl
  limits := rfl
  head := rfl
  value atom := congrArg AtomState.value (Trail.atomGrow network.trail atom)
  level atom := congrArg AtomState.level (Trail.atomGrow network.trail atom)

/-- A new atom changes nothing for the old ones. -/
theorem growInherits {network : Network} (shaped : network.Shaped) :
    network.Inherits network.grow where
  alike := growAlike network
  atoms := by simp [atomCount, grow, Trail.grow]
  watching := by
    have watching := shaped.store.grow
    simpa [atomCount, grow, Trail.grow] using watching
  listing := by
    have listing := shaped.parities.grow
    simpa [atomCount, grow, Trail.grow] using listing
  constraints := rfl
  clauses reference inside := ⟨reference, inside, rfl⟩
  originals old inside _ := ⟨old, inside, rfl⟩
  free atom unset := by
    rw [← unset]
    exact congrArg AtomState.reason (Trail.atomGrow network.trail atom)
  reasons literal _ cause known := by
    refine ⟨cause, ?_, fun position forced => ?_⟩
    · rw [← known]
      exact congrArg AtomState.reason (Trail.atomGrow network.trail literal.atom)
    · cases cause with
      | clause reference => exact forcesClauseAlike (growAlike network) rfl forced
      | parity index => exact forcesParityAlike (growAlike network) rfl forced

/-- This function stores another clause. -/
def attach (network : Network) (clause : Clause) : Network :=
  { network with store := network.store.add clause }

section Attach

variable {network : Network} {clause : Clause}

@[simp] theorem trailAttach : (network.attach clause).trail = network.trail := rfl

theorem literalsAttach {reference : Nat} (older : reference ≠ network.store.clauses.size) :
    (network.attach clause).store.literals reference = network.store.literals reference := by
  rw [ClauseStore.literalsEq, attach, ClauseStore.clauseAdd, if_neg older]
  rfl

theorem literalsAttachLast :
    (network.attach clause).store.literals network.store.clauses.size = clause.literals := by
  rw [ClauseStore.literalsEq, attach, ClauseStore.clauseAdd, if_pos rfl]

theorem Shaped.attach (shaped : network.Shaped)
    (proper : Clause.Proper network.atomCount clause.literals) (live : clause.deleted = false) :
    (network.attach clause).Shaped where
  trail := shaped.trail
  store := shaped.store.add proper live
  parities := shaped.parities
  reasons position literal found := by
    have old := shaped.reasons position literal found
    refine old.keep rfl Iff.rfl rfl fun reason forced => ?_
    cases reason with
    | parity index => exact forced
    | clause reference =>
        obtain ⟨rest, same, others⟩ := forced
        have inside := ClauseStore.insideOfCons same
        exact ⟨rest, (literalsAttach (Nat.ne_of_lt inside)).trans same, others⟩
  settled := shaped.settled

theorem quietAttach {bound reference : Nat} (older : reference ≠ network.store.clauses.size)
    (quiet : network.Quiet bound reference) : (network.attach clause).Quiet bound reference := by
  intro first second rest same
  rw [literalsAttach older] at same
  exact quiet first second rest same

/-- A clause whose watches have not been visited as false ones does not wait for anything. -/
theorem Ready.attach (ready : network.Ready)
    (proper : Clause.Proper network.atomCount clause.literals) (live : clause.deleted = false)
    (unvisited : ∀ literal ∈ clause.literals,
      literal.negate ∉ network.trail.initial network.trail.head) :
    (network.attach clause).Ready where
  shaped := ready.shaped.attach proper live
  quiet reference := by
    by_cases last : reference = network.store.clauses.size
    · subst last
      intro first second rest same
      rw [literalsAttachLast] at same
      have absent (literal : Literal) (member : literal ∈ [first, second]) :
          literal.negate ∉ network.trail.initial network.trail.head := by
        apply unvisited literal
        rw [same]
        exact List.mem_append_left rest member
      exact ⟨fun member => absurd member (absent first (by simp)),
        fun member => absurd member (absent second (by simp))⟩
    · exact quietAttach last (ready.quiet reference)
  settled := ready.settled

/-- A learnt clause forces its first literal right away. -/
theorem Ready.learn (ready : network.Ready) {first second : Literal} {rest : List Literal}
    (literals : clause.literals = first :: second :: rest)
    (proper : Clause.Proper network.atomCount clause.literals) (live : clause.deleted = false)
    (unknown : network.trail.atomValue first.atom = none)
    (others : ∀ literal ∈ second :: rest, literal.negate ∈ network.trail.literals.toList)
    (level : network.trail.atomLevel second.atom = network.trail.level)
    (later : network.trail.literals.size ∉ network.trail.limits.toList) :
    ((network.attach clause).assign first
      (some (.clause network.store.clauses.size))).Ready := by
  have shaped := ready.shaped.attach proper live
  have coherent := shaped.trail
  have inside : first.atom < network.atomCount := proper.inside first (by simp [literals])
  have own : (network.attach clause).store.literals network.store.clauses.size =
      first :: second :: rest := literalsAttachLast.trans literals
  refine ⟨shaped.assign _ coherent unknown inside ?_, fun reference => ?_, fun index => ?_⟩
  · refine justifiedForced (Trail.reasonEnqueueSame (network.attach clause).trail _ _ inside) later
      ⟨second :: rest, own, fun other member => ?_⟩
    rw [trailAssign, trailAttach, Trail.initialEnqueue _ _ _ (Nat.le_refl _),
      Trail.initialAll _ (Nat.le_refl _)]
    exact others other member
  · by_cases last : reference = network.store.clauses.size
    · subst last
      refine quietOfPair own ?_ ?_
      · intro member
        have listed := Trail.initialMember member
        rw [trailAssign, Trail.literalsEnqueue, List.mem_append, List.mem_singleton] at listed
        rcases listed with old | same
        · have different : first.negate.atom ≠ first.atom := coherent.undetermined unknown old
          exact absurd rfl different
        · have flipped := congrArg Literal.negated same
          simp at flipped
      · intro _
        refine ⟨?_, ?_⟩
        · rw [trailAssign, Trail.literalsEnqueue]
          exact List.mem_append_right _ List.mem_cons_self
        · have listed := others second List.mem_cons_self
          have different : second.negate.atom ≠ first.atom := coherent.undetermined unknown listed
          rw [Literal.atomNegate] at different
          rw [trailAssign, trailAttach, Trail.atomLevelEnqueueSame _ _ _ inside,
            Trail.atomLevelEnqueue _ _ _ (Ne.symm different)]
          exact Nat.le_of_eq level.symm
    · exact quietAssign _ coherent unknown ready.shaped.trail.bounded
        (quietAttach last (ready.quiet reference))
  · refine settledMono ?_ (settledAssign _ coherent unknown ready.shaped.trail.bounded
      (Nat.le_refl _) (ready.settled index))
    simp [Trail.enqueue]

theorem Sound.attach {models : (Nat → Bool) → Prop} (sound : network.Sound models)
    (entailed : ∀ assignment, models assignment → Clause.holds assignment clause.literals = true) :
    (network.attach clause).Sound models where
  clauses assignment model reference inside := by
    by_cases last : reference = network.store.clauses.size
    · rw [last, literalsAttachLast]
      exact entailed assignment model
    · rw [literalsAttach last]
      rw [Network.attach, ClauseStore.clausesAdd, Array.size_push] at inside
      exact sound.clauses assignment model reference (by omega)
  parities := sound.parities
  root := sound.root

/-- What satisfies a network with another clause satisfies the network and the clause. -/
theorem Satisfied.ofAttach {assignment : Nat → Bool}
    (satisfied : (network.attach clause).Satisfied assignment) :
    network.Satisfied assignment ∧
      (clause.learnt = false → Clause.holds assignment clause.literals = true) := by
  have size : (network.attach clause).store.clauses.size = network.store.clauses.size + 1 := by
    rw [attach, ClauseStore.clausesAdd, Array.size_push]
  refine ⟨⟨fun reference inside original => ?_, satisfied.parities, satisfied.root⟩,
    fun original => ?_⟩
  · have older := Nat.ne_of_lt inside
    have holds := satisfied.clauses reference (by omega) (by
      rw [attach, ClauseStore.clauseAdd, if_neg older]
      exact original)
    rwa [literalsAttach older] at holds
  · have holds := satisfied.clauses network.store.clauses.size (by omega) (by
      rw [attach, ClauseStore.clauseAdd, if_pos rfl]
      exact original)
    rwa [literalsAttachLast] at holds

end Attach

/-- This function stores another parity constraint. -/
def impose (network : Network) (constraint : ParityConstraint) : Network :=
  { network with parities := network.parities.add constraint }

/-- A parity constraint is open if two of its atoms have no value. -/
structure Undecided (network : Network) (constraint : ParityConstraint) : Prop where
  long : 2 ≤ constraint.atoms.length
  distinct : constraint.atoms.Nodup
  inside : ∀ atom ∈ constraint.atoms, atom < network.atomCount
  unknown : ∀ atom ∈ constraint.atoms, network.trail.atomValue atom = none

section Impose

variable {network : Network} {constraint : ParityConstraint} (shaped : network.Shaped)
  (undecided : network.Undecided constraint)
include shaped undecided

theorem constraintImpose (index : Nat) : (network.impose constraint).parities.constraint index =
    if index = network.parities.constraints.size then constraint
      else network.parities.constraint index :=
  (shaped.parities.add undecided.long undecided.distinct undecided.inside).2 index

theorem settledImpose {low high index : Nat} (settled : network.Settled low high index) :
    (network.impose constraint).Settled low high index := by
  unfold Settled
  rw [constraintImpose shaped undecided]
  by_cases last : index = network.parities.constraints.size
  · rw [if_pos last]
    intro spare others
    -- One of the two atoms without a value is not the spare one.
    have absent {atom : Nat} (member : atom ∈ constraint.atoms) (different : atom ≠ spare) :
        False := by
      have known := listsKnown shaped.trail (others atom member different)
      rw [undecided.unknown atom member] at known
      contradiction
    match constraint.atoms, undecided.long, undecided.distinct, @absent with
    | first :: second :: rest, _, distinct, absent =>
        by_cases same : first = spare
        · refine (@absent second (by simp) fun equal => ?_).elim
          simp [same, equal] at distinct
        · exact (absent (by simp) same).elim
  · rw [if_neg last]
    exact settled

theorem Shaped.impose : (network.impose constraint).Shaped where
  trail := shaped.trail
  store := shaped.store
  parities := (shaped.parities.add undecided.long undecided.distinct undecided.inside).1
  reasons position literal found := by
    have old := shaped.reasons position literal found
    refine old.keep rfl Iff.rfl rfl fun reason forced => ?_
    cases reason with
    | clause reference => exact forced
    | parity index =>
        have inside := ParityStore.insideOfMember forced.1
        have same : (network.impose constraint).parities.constraint index =
            network.parities.constraint index := by
          rw [constraintImpose shaped undecided, if_neg (Nat.ne_of_lt inside)]
        have alike : network.trail.Alike (network.impose constraint).trail := .refl _
        exact forcesParityAlike alike same forced
  settled limit member index := settledImpose shaped undecided (shaped.settled limit member index)

end Impose

theorem Ready.impose {network : Network} {constraint : ParityConstraint} (ready : network.Ready)
    (undecided : network.Undecided constraint) : (network.impose constraint).Ready where
  shaped := ready.shaped.impose undecided
  quiet := ready.quiet
  settled index := settledImpose ready.shaped undecided (ready.settled index)

section Impose

variable {network : Network} {constraint : ParityConstraint} (shaped : network.Shaped)
  (undecided : network.Undecided constraint)
include shaped undecided

theorem Sound.impose {models : (Nat → Bool) → Prop} (sound : network.Sound models)
    (entailed : ∀ assignment, models assignment → constraint.holds assignment = true) :
    (network.impose constraint).Sound models where
  clauses := sound.clauses
  parities assignment model index inside := by
    rw [constraintImpose shaped undecided]
    split
    · exact entailed assignment model
    · next older =>
        change index < (network.parities.constraints.push constraint).size at inside
        rw [Array.size_push] at inside
        exact sound.parities assignment model index (by omega)
  root := sound.root

/-- What satisfies a network with another constraint satisfies the network and the constraint. -/
theorem Satisfied.ofImpose {assignment : Nat → Bool}
    (satisfied : (network.impose constraint).Satisfied assignment) :
    network.Satisfied assignment ∧ constraint.holds assignment = true := by
  have size : (network.impose constraint).parities.constraints.size =
      network.parities.constraints.size + 1 := Array.size_push _
  refine ⟨⟨satisfied.clauses, fun index inside => ?_, satisfied.root⟩, ?_⟩
  · have holds := satisfied.parities index (by omega)
    rwa [constraintImpose shaped undecided, if_neg (Nat.ne_of_lt inside)] at holds
  · have holds := satisfied.parities network.parities.constraints.size (by omega)
    rwa [constraintImpose shaped undecided, if_pos rfl] at holds

end Impose

end ParitySat.Network
