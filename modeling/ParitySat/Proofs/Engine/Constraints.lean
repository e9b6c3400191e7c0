/-
This file shows that a new clause or parity constraint excludes exactly the assignments that
violate it.
-/

import ParitySat.Engine.Constraints
import ParitySat.Proofs.Clause
import ParitySat.Proofs.Engine.State

namespace ParitySat

/-- The assignment agrees with the whole trail. -/
def Trail.Holds (trail : Trail) (assignment : Nat → Bool) : Prop :=
  ∀ literal ∈ trail.literals.toList, literal.holds assignment = true

namespace Engine

/-- A dropped clause holds already. -/
theorem reducedNone {trail : Trail} (coherent : trail.Coherent) {literals : List Literal}
    (dropped : reduced? trail literals = none) {assignment : Nat → Bool}
    (holds : trail.Holds assignment) : Clause.holds assignment literals = true := by
  rw [← Clause.holdsSorted]
  simp only [reduced?] at dropped
  split at dropped
  · next tautology => exact Clause.holdsTautological assignment tautology
  · split at dropped
    · next satisfied =>
        obtain ⟨literal, member, isTrue⟩ := List.any_eq_true.1 satisfied
        rw [Clause.holds, List.any_eq_true]
        refine ⟨literal, member, holds literal ((coherent.truth literal).1 ?_)⟩
        simpa using isTrue
    · contradiction

/-- A reduced clause has distinct atoms without values, and it means the same as before. -/
structure Reduced (trail : Trail) (literals reduced : List Literal) : Prop where
  distinct : (reduced.map Literal.atom).Nodup
  member : ∀ literal ∈ reduced, literal ∈ literals
  unknown : ∀ literal ∈ reduced, trail.atomValue literal.atom = none
  same : ∀ assignment, trail.Holds assignment →
    Clause.holds assignment reduced = Clause.holds assignment literals

theorem reducedSome {trail : Trail} (coherent : trail.Coherent) {literals reduced : List Literal}
    (kept : reduced? trail literals = some reduced) : Reduced trail literals reduced := by
  simp only [reduced?] at kept
  split at kept
  · contradiction
  · next plain =>
      split at kept
      · contradiction
      · next unsatisfied =>
          obtain rfl := Option.some.inj kept
          have distinct := Clause.distinctAtoms (Clause.sortedIncreasing literals)
            (by simpa using plain)
          refine ⟨distinct.sublist (List.filter_sublist.map _), ?_, ?_, ?_⟩
          · intro literal member
            exact Clause.memberSorted.1 (List.mem_filter.1 member).1
          · intro literal member
            obtain ⟨listed, notFalse⟩ := List.mem_filter.1 member
            have notTrue : trail.value literal ≠ some true := by
              intro isTrue
              refine unsatisfied (List.any_eq_true.2 ⟨literal, listed, ?_⟩)
              simp [isTrue]
            rw [← Trail.valueNone]
            cases known : trail.value literal with
            | none => rfl
            | some truth =>
                cases truth
                · simp [known] at notFalse
                · exact absurd known notTrue
          · intro assignment holds
            rw [← Clause.holdsSorted assignment literals, Clause.holds, Clause.holds,
              List.any_filter]
            apply List.any_congr rfl
            intro literal
            by_cases isFalse : trail.value literal = some false
            · have negated := holds _ ((coherent.falsehood literal).1 isFalse)
              simpa [isFalse] using negated
            · simp [isFalse]

/-- A clause that is reduced to a unit means the unit. -/
theorem Reduced.unit {trail : Trail} {literals : List Literal} {literal : Literal}
    (kept : Reduced trail literals [literal]) {assignment : Nat → Bool}
    (holds : trail.Holds assignment) :
    literal.holds assignment = true ↔ Clause.holds assignment literals = true := by
  rw [← kept.same assignment holds, Clause.holds, List.any_cons, List.any_nil, Bool.or_false]

/-- What has been substituted has the same parity, and the remaining atoms have no value. -/
structure Substituted (trail : Trail) (parity : Bool) (atoms : List Nat)
    (constraint : ParityConstraint) : Prop where
  kept : constraint.atoms.Sublist atoms
  unknown : ∀ atom ∈ constraint.atoms, trail.atomValue atom = none
  same : ∀ assignment, trail.Holds assignment →
    constraint.holds assignment = (ParityConstraint.oddness assignment atoms == parity)

theorem substituteSpec {trail : Trail} (coherent : trail.Coherent) (parity : Bool)
    (atoms : List Nat) : Substituted trail parity atoms (substitute trail parity atoms) := by
  induction atoms generalizing parity with
  | nil => exact ⟨List.Sublist.refl _, by simp [substitute], fun _ _ => rfl⟩
  | cons atom rest inductionHypothesis =>
      rw [substitute]
      cases known : trail.atomValue atom with
      | none =>
          obtain ⟨kept, unknown, same⟩ := inductionHypothesis parity
          refine ⟨kept.cons_cons atom, ?_, fun assignment holds => ?_⟩
          · intro other member
            rcases List.mem_cons.1 member with rfl | inRest
            · exact known
            · exact unknown other inRest
          · have tail := same assignment holds
            simp only [ParityConstraint.holds, ParityConstraint.oddness] at tail ⊢
            revert tail
            generalize ParityConstraint.oddness assignment rest = odd
            generalize ParityConstraint.oddness assignment (substitute trail parity rest).atoms = own
            generalize (substitute trail parity rest).parity = sign
            cases assignment atom <;> cases odd <;> cases own <;> cases sign <;> cases parity <;> simp
      | some truth =>
          obtain ⟨kept, unknown, same⟩ := inductionHypothesis (parity != truth)
          refine ⟨kept.cons atom, unknown, fun assignment holds => ?_⟩
          have value : assignment atom = truth := by
            simpa [Literal.holds] using holds _ (coherent.knownMember known)
          rw [same assignment holds, ParityConstraint.oddness, value]
          cases ParityConstraint.oddness assignment rest <;> cases parity <;> cases truth <;> rfl

/-- A parity constraint that is left with one atom means a unit. -/
theorem Substituted.unit {trail : Trail} {parity sign : Bool} {atoms : List Nat} {atom : Nat}
    (substituted : Substituted trail parity atoms ⟨[atom], sign⟩) {assignment : Nat → Bool}
    (holds : trail.Holds assignment) :
    Literal.holds assignment ⟨atom, !sign⟩ = true ↔
      (ParityConstraint.oddness assignment atoms == parity) = true := by
  rw [← substituted.same assignment holds, ParityConstraint.holds, Literal.holds]
  cases value : assignment atom <;> cases sign <;> simp [ParityConstraint.oddness, value]

section Root

variable {models : (Nat → Bool) → Prop} {engine : Engine} (steady : engine.Steady models)
  (root : engine.level = 0)
include steady root

/-- At the root level all the models agree with the trail. -/
theorem Steady.rootHolds {assignment : Nat → Bool} (model : models assignment) :
    engine.network.trail.Holds assignment := by
  intro literal member
  have low := steady.ready.shaped.trail.levelLe member
  change _ ≤ engine.level at low
  exact steady.sound.root assignment model literal member (by omega)

theorem Steady.propagateRoot : Valid models engine.propagateRoot := by
  obtain ⟨sane, stable, fixpoint, violated⟩ := steady.propagate
  have level : engine.propagate.2.level = 0 := by
    have limits := (Network.propagateSpec steady.ready).1.propagates.frame.1
    change engine.propagate.2.network.trail.limits.size = 0
    rw [← root, level, Trail.level, ← limits]
    rfl
  unfold Engine.propagateRoot
  generalize engine.propagate = propagated at *
  obtain ⟨outcome, after⟩ := propagated
  cases outcome with
  | none => exact .steady (fixpoint rfl).1 level
  | some conflict =>
      exact .refuted rfl
        (Network.refutedRoot sane.sound stable.shaped level (violated conflict rfl))

/-- A literal that is assigned at the root level excludes exactly the assignments that violate
it. -/
theorem Steady.enqueueRoot {extra : (Nat → Bool) → Prop} {literal : Literal}
    (inside : literal.atom < engine.atomCount)
    (unknown : engine.network.trail.atomValue literal.atom = none)
    (same : ∀ assignment, engine.network.trail.Holds assignment →
      (literal.holds assignment = true ↔ extra assignment)) :
    Steady (fun assignment => models assignment ∧ extra assignment)
      (engine.enqueue literal none) := by
  have coherent := steady.ready.shaped.trail
  have rootHolds (assignment : Nat → Bool) (model : models assignment) :=
    same assignment (steady.rootHolds root model)
  refine ⟨⟨?_, ?_, ?_, ?_, ?_, ?_, ?_⟩, ?_⟩
  · exact (steady.sound.fewer fun _ both => both.1).assign none coherent unknown inside
      fun _ assignment both => (rootHolds assignment both.1).2 both.2
  · intro assignment satisfied
    have model := steady.complete.assign none coherent unknown assignment satisfied
    refine ⟨model, (rootHolds assignment model).1 (satisfied.root literal ?_ ?_)⟩
    · rw [networkEnqueue, Network.trailAssign, Trail.literalsEnqueue]
      exact List.mem_append_right _ List.mem_cons_self
    · rw [networkEnqueue, Network.trailAssign, Trail.atomLevelEnqueueSame _ _ _ inside]
      exact root
  · exact steady.queued.enqueue literal none
  · exact steady.unmarked.enqueue
  · exact steady.learnts
  · exact fun unit member assignment both => steady.units unit member assignment both.1
  · exact steady.consistent
  · exact steady.ready.assignRoot root inside unknown

/-- A clause that is reduced at the root level is added as a whole. -/
theorem Steady.addReduced {literals reduced : List Literal}
    (kept : Reduced engine.network.trail literals reduced)
    (inside : ∀ literal ∈ literals, literal.atom < engine.atomCount) :
    Valid (fun assignment => models assignment ∧ Clause.holds assignment literals = true)
      (engine.addReduced reduced) := by
  match reduced, kept with
  | [], kept =>
      refine .refuted rfl fun assignment other => ?_
      have empty := kept.same assignment (steady.rootHolds root other.1)
      rw [other.2] at empty
      contradiction
  | [literal], kept =>
      have listed := kept.member literal List.mem_cons_self
      exact (steady.enqueueRoot root (inside literal listed)
        (kept.unknown literal List.mem_cons_self) fun _ holds => kept.unit holds).propagateRoot root
  | first :: second :: rest, kept =>
      have proper : Clause.Proper engine.network.atomCount (first :: second :: rest) :=
        ⟨by simp, kept.distinct, fun literal member => inside literal (kept.member literal member)⟩
      have same (assignment : Nat → Bool) (model : models assignment) :=
        kept.same assignment (steady.rootHolds root model)
      refine .steady ⟨⟨?_, ?_, ?_, ?_, ?_, ?_, ?_⟩, ?_⟩ root
      · apply (steady.sound.fewer fun _ other => other.1).attach
        intro assignment other
        exact (same assignment other.1).trans other.2
      · intro assignment satisfied
        obtain ⟨old, new⟩ := Network.Satisfied.ofAttach satisfied
        have model := steady.complete assignment old
        exact ⟨model, (same assignment model).symm.trans (new rfl)⟩
      · exact steady.queued
      · exact ⟨steady.unmarked.width, steady.unmarked.clear⟩
      · exact steady.learntsAttach
      · exact fun literal member assignment other =>
          steady.units literal member assignment other.1
      · exact steady.consistent
      · apply steady.ready.attach proper rfl
        intro literal member visited
        have unknown := kept.unknown literal member
        exact steady.ready.shaped.trail.undetermined unknown (Trail.initialMember visited) rfl

/-- A parity constraint whose known atoms are substituted at the root level is added as a
whole. -/
theorem Steady.addSubstituted {parity : Bool} {atoms : List Nat} {constraint : ParityConstraint}
    (substituted : Substituted engine.network.trail parity atoms constraint)
    (distinct : atoms.Nodup) (inside : ∀ atom ∈ atoms, atom < engine.atomCount) :
    Valid (fun assignment => models assignment ∧
        (ParityConstraint.oddness assignment atoms == parity) = true)
      (engine.addSubstituted constraint) := by
  have same (assignment : Nat → Bool) (model : models assignment) :=
    substituted.same assignment (steady.rootHolds root model)
  obtain ⟨free, sign⟩ := constraint
  match free, substituted with
  | [], substituted =>
      cases sign with
      | true =>
          refine .refuted rfl fun assignment other => ?_
          have empty := same assignment other.1
          rw [other.2] at empty
          contradiction
      | false =>
          refine .steady ⟨steady.toSane.describe (fun _ other => other.1) ?_, steady.ready⟩ root
          intro assignment _ model
          exact ⟨model, (same assignment model).symm⟩
  | [atom], substituted =>
      have member := substituted.kept.subset List.mem_cons_self
      exact (steady.enqueueRoot root (inside atom member)
        (substituted.unknown atom List.mem_cons_self) fun _ holds =>
          substituted.unit holds).propagateRoot root
  | first :: second :: rest, substituted =>
      have undecided : engine.network.Undecided ⟨first :: second :: rest, sign⟩ :=
        ⟨by simp, distinct.sublist substituted.kept,
          fun atom member => inside atom (substituted.kept.subset member), substituted.unknown⟩
      have shaped := steady.ready.shaped
      refine .steady ⟨⟨?_, ?_, ?_, ?_, ?_, ?_, ?_⟩, ?_⟩ root
      · refine (steady.sound.fewer fun _ other => other.1).impose shaped undecided
          fun assignment other => ?_
        exact (same assignment other.1).trans other.2
      · intro assignment satisfied
        obtain ⟨old, new⟩ := Network.Satisfied.ofImpose shaped undecided satisfied
        have model := steady.complete assignment old
        exact ⟨model, (same assignment model).symm.trans new⟩
      · exact steady.queued
      · exact ⟨steady.unmarked.width, steady.unmarked.clear⟩
      · exact steady.learnts
      · exact fun literal member assignment other =>
          steady.units literal member assignment other.1
      · exact steady.consistent
      · exact steady.ready.impose undecided

end Root

/-- A submission is counted, and it leaves alone what concerns the caller only. -/
structure Submits (before after : Engine) : Prop where
  options : after.options = before.options
  submitted : after.submitted = before.submitted + 1
  traversal : after.traversal = before.traversal
  atoms : before.atomCount ≤ after.atomCount
  refuted : before.consistent = false → after.consistent = false

section Submission

variable {models : (Nat → Bool) → Prop} {engine : Engine}

theorem Valid.refutedOnly (valid : engine.Valid models) (inconsistent : engine.consistent = false)
    (assignment : Nat → Bool) : ¬models assignment := by
  cases valid with
  | steady steady _ =>
      have consistent := steady.consistent
      rw [inconsistent] at consistent
      contradiction
  | refuted _ unsatisfiable => exact unsatisfiable assignment

theorem keepsPropagateRoot (ready : engine.network.Ready) : engine.Keeps engine.propagateRoot := by
  have keeps := keepsPropagate ready
  unfold propagateRoot
  generalize engine.propagate = propagated at *
  obtain ⟨outcome, after⟩ := propagated
  cases outcome with
  | none => exact keeps
  | some conflict => exact ⟨keeps.options, keeps.submitted, keeps.traversal, keeps.atoms⟩

theorem Steady.keepsAssignRoot (steady : engine.Steady models) (root : engine.level = 0)
    {literal : Literal} (inside : literal.atom < engine.atomCount)
    (unknown : engine.network.trail.atomValue literal.atom = none) :
    engine.Keeps (engine.enqueue literal none).propagateRoot :=
  (keepsEnqueue literal none).trans
    (keepsPropagateRoot (steady.ready.assignRoot root inside unknown))

theorem Steady.keepsAddReduced (steady : engine.Steady models) (root : engine.level = 0)
    {literals reduced : List Literal} (kept : Reduced engine.network.trail literals reduced)
    (inside : ∀ literal ∈ literals, literal.atom < engine.atomCount) :
    engine.Keeps (engine.addReduced reduced) := by
  match reduced, kept with
  | [], _ => exact ⟨rfl, rfl, rfl, rfl⟩
  | [literal], kept =>
      exact steady.keepsAssignRoot root (inside literal (kept.member literal List.mem_cons_self))
        (kept.unknown literal List.mem_cons_self)
  | _ :: _ :: _, _ => exact ⟨rfl, rfl, rfl, rfl⟩

theorem Steady.keepsAddSubstituted (steady : engine.Steady models) (root : engine.level = 0)
    {parity : Bool} {atoms : List Nat} {constraint : ParityConstraint}
    (substituted : Substituted engine.network.trail parity atoms constraint)
    (inside : ∀ atom ∈ atoms, atom < engine.atomCount) :
    engine.Keeps (engine.addSubstituted constraint) := by
  obtain ⟨free, sign⟩ := constraint
  match free, substituted with
  | [], _ => cases sign <;> exact ⟨rfl, rfl, rfl, rfl⟩
  | [atom], substituted =>
      exact steady.keepsAssignRoot root (inside atom (substituted.kept.subset List.mem_cons_self))
        (substituted.unknown atom List.mem_cons_self)
  | _ :: _ :: _, _ => exact ⟨rfl, rfl, rfl, rfl⟩

/-- This function counts a submission. -/
def counted (engine : Engine) : Engine :=
  { engine with submitted := engine.submitted + 1 }

theorem Steady.counted (steady : engine.Steady models) : Steady models engine.counted :=
  ⟨steady.toSane.same rfl rfl rfl rfl rfl rfl, steady.ready⟩

/-- This function creates the atoms and absorbs a constraint unless the engine is refuted. -/
def submit (engine : Engine) (atoms : List Nat) (absorb : Engine → Engine) : Engine :=
  let counted := (engine.ensureAtoms atoms).counted
  if counted.consistent then absorb counted else counted

theorem addClauseSubmit (literals : List Literal) :
    engine.addClause literals = engine.submit (literals.map Literal.atom) fun counted =>
      match reduced? counted.network.trail literals with
      | none => counted
      | some literals => counted.addReduced literals := rfl

theorem addParitySubmit (atoms : List Nat) (parity : Bool) :
    engine.addParity atoms parity = engine.submit atoms fun counted =>
      counted.addSubstituted
        (substitute counted.network.trail parity (ParityConstraint.normalize atoms)) := rfl

/-- The constraint is absorbed if the models that violate it are excluded and nothing else is
touched. -/
structure Absorbs (models extra : (Nat → Bool) → Prop) (before after : Engine) : Prop where
  valid : Valid (fun assignment => models assignment ∧ extra assignment) after
  keeps : before.Keeps after

/-- A submitted constraint excludes exactly the models that violate it. -/
structure Submitted (models extra : (Nat → Bool) → Prop) (atoms : List Nat)
    (before after : Engine) : Prop where
  valid : Valid (fun assignment => models assignment ∧ extra assignment) after
  submits : before.Submits after
  count : after.atomCount = grownCount atoms before.atomCount
  inside : ∀ atom ∈ atoms, atom < after.atomCount

theorem Valid.submit (valid : engine.Valid models) {extra : (Nat → Bool) → Prop} (atoms : List Nat)
    {absorb : Engine → Engine}
    (step : ∀ before : Engine, before.Steady models → before.level = 0 →
      (∀ atom ∈ atoms, atom < before.atomCount) → Absorbs models extra before (absorb before)) :
    Submitted models extra atoms engine (engine.submit atoms absorb) := by
  have grows := ensureAtomsGrows engine atoms
  have inside : ∀ atom ∈ atoms, atom < (engine.ensureAtoms atoms).counted.atomCount :=
    ensureAtomsInside
  have submits : engine.Submits (engine.ensureAtoms atoms).counted :=
    ⟨grows.options, congrArg (· + 1) grows.submitted, grows.traversal, grows.atoms,
      fun inconsistent => grows.consistent.trans inconsistent⟩
  unfold Engine.submit
  cases valid.ensureAtoms atoms with
  | refuted inconsistent unsatisfiable =>
      have skipped : (engine.ensureAtoms atoms).counted.consistent = false := inconsistent
      simp only [skipped, Bool.false_eq_true, if_false]
      exact ⟨.refuted inconsistent fun assignment both => unsatisfiable assignment both.1, submits,
        atomCountEnsureAtoms engine atoms, inside⟩
  | steady steady root =>
      have consistent : (engine.ensureAtoms atoms).counted.consistent = true := steady.consistent
      simp only [consistent, if_true]
      obtain ⟨valid, keeps⟩ := step _ steady.counted root inside
      refine ⟨valid, ?_, keeps.atoms.trans (atomCountEnsureAtoms engine atoms),
        fun atom member => ?_⟩
      · exact
          { options := keeps.options.trans submits.options
            submitted := keeps.submitted.trans submits.submitted
            traversal := keeps.traversal.trans submits.traversal
            atoms := Nat.le_trans submits.atoms (Nat.le_of_eq keeps.atoms.symm)
            refuted := fun inconsistent => by
              have impossible := submits.refuted inconsistent
              rw [consistent] at impossible
              contradiction }
      · rw [keeps.atoms]
        exact inside atom member

/-- A new clause excludes exactly the models that violate it. -/
theorem Valid.addClause (valid : engine.Valid models) (literals : List Literal) :
    Submitted models (fun assignment => Clause.holds assignment literals = true)
      (literals.map Literal.atom) engine (engine.addClause literals) := by
  rw [addClauseSubmit]
  apply valid.submit (literals.map Literal.atom)
  intro before steady root inside
  have coherent := steady.ready.shaped.trail
  cases kept : reduced? before.network.trail literals with
  | none =>
      refine ⟨.steady ⟨steady.toSane.describe (fun _ both => both.1) ?_, steady.ready⟩ root,
        .refl before⟩
      exact fun assignment _ model =>
        ⟨model, reducedNone coherent kept (steady.rootHolds root model)⟩
  | some reduced =>
      have within : ∀ literal ∈ literals, literal.atom < before.atomCount :=
        fun literal member => inside literal.atom (List.mem_map_of_mem member)
      exact ⟨steady.addReduced root (reducedSome coherent kept) within,
        steady.keepsAddReduced root (reducedSome coherent kept) within⟩

/-- A new parity constraint excludes exactly the models that violate it. -/
theorem Valid.addParity (valid : engine.Valid models) (atoms : List Nat) (parity : Bool) :
    Submitted models (fun assignment => ParityConstraint.holds assignment ⟨atoms, parity⟩ = true)
      atoms engine (engine.addParity atoms parity) := by
  rw [addParitySubmit]
  apply valid.submit atoms
  intro before steady root inside
  have substituted := substituteSpec steady.ready.shaped.trail parity
    (ParityConstraint.normalize atoms)
  have within : ∀ atom ∈ ParityConstraint.normalize atoms, atom < before.atomCount :=
    fun atom member => inside atom (ParityConstraint.memberNormalize member)
  have valid := steady.addSubstituted root substituted (ParityConstraint.normalizeNodup atoms) within
  simp only [ParityConstraint.oddnessNormalize] at valid
  exact ⟨valid, steady.keepsAddSubstituted root substituted within⟩

end Submission

end Engine

end ParitySat
