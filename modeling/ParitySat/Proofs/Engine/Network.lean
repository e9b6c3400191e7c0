/-
This file defines what holds of the constraint network at every moment of a search, and shows that
the elementary moves of propagation keep it.
-/

import ParitySat.Engine.Propagation
import ParitySat.Proofs.Engine.Store
import ParitySat.Proofs.Engine.Trail
import ParitySat.Proofs.Parity

namespace ParitySat

/-- The atom is assigned by one of the first literals of the trail. -/
def Trail.Lists (trail : Trail) (bound atom : Nat) : Prop :=
  ∃ literal ∈ trail.initial bound, literal.atom = atom

/-- An undetermined atom counts as false. -/
def Trail.assignment (trail : Trail) : Nat → Bool :=
  Truth.total trail.atomValue

namespace Network

/-- A reason forces a literal at a position if it leaves no other choice after the literals before
that position. -/
def Forces (network : Network) (position : Nat) (literal : Literal) : Reason → Prop
  | .clause reference =>
    ∃ rest, network.store.literals reference = literal :: rest ∧
      ∀ other ∈ rest, other.negate ∈ network.trail.initial position
  | .parity index =>
    literal.atom ∈ (network.parities.constraint index).atoms ∧
      (∀ atom ∈ (network.parities.constraint index).atoms, atom ≠ literal.atom →
        network.trail.Lists position atom) ∧
      (network.parities.constraint index).holds network.trail.assignment = true

/-- Above the root level exactly the first literal of a level is a decision. -/
def Justified (network : Network) (position : Nat) (literal : Literal) : Prop :=
  match network.trail.reason literal.atom with
  | none => position ∈ network.trail.limits.toList ∨ network.trail.levelAt position = 0
  | some reason => position ∉ network.trail.limits.toList ∧ network.Forces position literal reason

section Justified

variable {network : Network} {position : Nat} {literal : Literal}

theorem justifiedFree (free : network.trail.reason literal.atom = none)
    (decision : position ∈ network.trail.limits.toList ∨ network.trail.levelAt position = 0) :
    network.Justified position literal := by
  rw [Justified, free]
  exact decision

theorem justifiedForced {reason : Reason} (known : network.trail.reason literal.atom = some reason)
    (later : position ∉ network.trail.limits.toList)
    (forced : network.Forces position literal reason) : network.Justified position literal := by
  rw [Justified, known]
  exact ⟨later, forced⟩

variable (justified : network.Justified position literal)
include justified

theorem Justified.free (free : network.trail.reason literal.atom = none) :
    position ∈ network.trail.limits.toList ∨ network.trail.levelAt position = 0 := by
  rwa [Justified, free] at justified

theorem Justified.forced {reason : Reason}
    (known : network.trail.reason literal.atom = some reason) :
    position ∉ network.trail.limits.toList ∧ network.Forces position literal reason := by
  rwa [Justified, known] at justified

/-- A literal stays justified where it keeps its level and its reason still forces it. -/
theorem Justified.keep {after : Network}
    (same : after.trail.reason literal.atom = network.trail.reason literal.atom)
    (limits : position ∈ after.trail.limits.toList ↔ position ∈ network.trail.limits.toList)
    (levelAt : after.trail.levelAt position = network.trail.levelAt position)
    (forces : ∀ reason, network.Forces position literal reason →
      after.Forces position literal reason) : after.Justified position literal := by
  cases known : network.trail.reason literal.atom with
  | none =>
      apply justifiedFree (same.trans known)
      rw [limits, levelAt]
      exact justified.free known
  | some reason =>
      obtain ⟨later, forced⟩ := justified.forced known
      exact justifiedForced (same.trans known) (mt limits.1 later) (forces reason forced)

end Justified

/-- If one atom at most is missing among the first literals, none is missing among the later ones
and the parity is right. -/
def Settled (network : Network) (low high index : Nat) : Prop :=
  ∀ spare, (∀ atom ∈ (network.parities.constraint index).atoms, atom ≠ spare →
      network.trail.Lists low atom) →
    (∀ atom ∈ (network.parities.constraint index).atoms, network.trail.Lists high atom) ∧
      (network.parities.constraint index).holds network.trail.assignment = true

/-- The trail, the stores and the reasons fit together. -/
structure Shaped (network : Network) : Prop where
  trail : network.trail.Coherent
  store : network.store.Watching network.atomCount
  parities : network.parities.Listing network.atomCount
  reasons : ∀ position literal, network.trail.literals.toList[position]? = some literal →
    network.Justified position literal
  settled : ∀ limit ∈ network.trail.limits.toList, ∀ index, network.Settled limit limit index

/-- Only assigned atoms have reasons. -/
theorem Shaped.reasonAssigned {network : Network} (shaped : network.Shaped) {atom : Nat}
    {reason : Reason} (known : network.trail.reason atom = some reason) :
    ∃ truth, network.trail.atomValue atom = some truth := by
  refine Option.ne_none_iff_exists'.1 fun unknown => ?_
  rw [shaped.trail.free atom unknown] at known
  contradiction

/-- Only stored clauses are reasons. -/
theorem Shaped.reasonInside {network : Network} (shaped : network.Shaped) {atom reference : Nat}
    (known : network.trail.reason atom = some (.clause reference)) :
    reference < network.store.clauses.size := by
  obtain ⟨truth, value⟩ := shaped.reasonAssigned known
  obtain ⟨position, found⟩ := List.mem_iff_getElem?.1 (shaped.trail.knownMember value)
  obtain ⟨rest, same, -⟩ := ((shaped.reasons position _ found).forced known).2
  exact ClauseStore.insideOfCons same

/-- Every stored constraint and every literal of the root level holds in all the models. -/
structure Sound (models : (Nat → Bool) → Prop) (network : Network) : Prop where
  clauses : ∀ assignment, models assignment → ∀ reference, reference < network.store.clauses.size →
    Clause.holds assignment (network.store.literals reference) = true
  parities : ∀ assignment, models assignment → ∀ index,
    index < network.parities.constraints.size →
    (network.parities.constraint index).holds assignment = true
  root : ∀ assignment, models assignment → ∀ literal ∈ network.trail.literals.toList,
    network.trail.atomLevel literal.atom = 0 → literal.holds assignment = true

/-- The assignment satisfies what the network knows without its learnt clauses. -/
structure Satisfied (network : Network) (assignment : Nat → Bool) : Prop where
  clauses : ∀ reference, reference < network.store.clauses.size →
    (network.store.clause reference).learnt = false →
    Clause.holds assignment (network.store.literals reference) = true
  parities : ∀ index, index < network.parities.constraints.size →
    (network.parities.constraint index).holds assignment = true
  root : ∀ literal ∈ network.trail.literals.toList,
    network.trail.atomLevel literal.atom = 0 → literal.holds assignment = true

/-- No constraint is lost: what satisfies the network is a model. -/
def Complete (models : (Nat → Bool) → Prop) (network : Network) : Prop :=
  ∀ assignment, network.Satisfied assignment → models assignment

/-- If a watch has become false among the first literals, the other watch is true, and not at a
greater level. -/
def Guards (network : Network) (bound : Nat) (watch other : Literal) : Prop :=
  watch.negate ∈ network.trail.initial bound →
    other ∈ network.trail.literals.toList ∧
      network.trail.atomLevel other.atom ≤ network.trail.atomLevel watch.atom

/-- Both watches of a clause guard each other. -/
def Quiet (network : Network) (bound reference : Nat) : Prop :=
  ∀ first second rest, network.store.literals reference = first :: second :: rest →
    network.Guards bound first second ∧ network.Guards bound second first

/-- The literals of the clause are all false. -/
def Falsified (network : Network) (reference : Nat) : Prop :=
  reference < network.store.clauses.size ∧
    ∀ literal ∈ network.store.literals reference,
      literal.negate ∈ network.trail.literals.toList

/-- A violated constraint has only known atoms and is not satisfied by their values. -/
def Violated (network : Network) : Reason → Prop
  | .clause reference => network.Falsified reference
  | .parity index =>
    (∀ atom ∈ (network.parities.constraint index).atoms,
      network.trail.Lists network.trail.literals.size atom) ∧
      (network.parities.constraint index).holds network.trail.assignment = false

/-- This function puts a literal at the end of the trail. -/
def assign (network : Network) (literal : Literal) (reason : Option Reason) : Network :=
  { network with trail := network.trail.enqueue literal reason }

/-- The clauses keep everything but the order of their literals, and a true first literal stays the
first. -/
structure Rearranged (trail : Trail) (before after : ClauseStore) : Prop where
  size : after.clauses.size = before.clauses.size
  permuted : ∀ reference, List.Perm (after.literals reference) (before.literals reference)
  alike : ∀ reference, after.clause reference =
    { before.clause reference with literals := after.literals reference }
  leading : ∀ reference literal rest, before.literals reference = literal :: rest →
    literal ∈ trail.literals.toList → ∃ others, after.literals reference = literal :: others

/-- Propagation rearranges clauses, assigns forced literals and moves the head. -/
inductive Propagates (start : Network) : Network → Prop where
  | refl : Propagates start start
  | rearrange {network : Network} (earlier : Propagates start network) (store : ClauseStore)
      (watching : store.Watching network.atomCount)
      (rearranged : Rearranged network.trail network.store store) :
      Propagates start { network with store }
  | force {network : Network} (earlier : Propagates start network) (literal : Literal)
      (reason : Reason) (inside : literal.atom < network.atomCount)
      (unknown : network.trail.atomValue literal.atom = none)
      (later : network.trail.literals.size ∉ network.trail.limits.toList)
      (forced : (network.assign literal (some reason)).Forces network.trail.literals.size literal
        reason) :
      Propagates start (network.assign literal (some reason))
  | advance {network : Network} (earlier : Propagates start network) (head propagations : Nat)
      (later : network.trail.head ≤ head) (bounded : head ≤ network.trail.literals.size) :
      Propagates start { network with trail := { network.trail with head }, propagations }

theorem Propagates.trans {first second third : Network} (left : Propagates first second)
    (right : Propagates second third) : Propagates first third := by
  induction right with
  | refl => exact left
  | rearrange _ store watching rearranged inductionHypothesis =>
      exact .rearrange inductionHypothesis store watching rearranged
  | force _ literal reason inside unknown later forced inductionHypothesis =>
      exact .force inductionHypothesis literal reason inside unknown later forced
  | advance _ head propagations later bounded inductionHypothesis =>
      exact .advance inductionHypothesis head propagations later bounded

section Trail

variable {trail : Trail} (coherent : trail.Coherent)
include coherent

theorem listsKnown {bound atom : Nat} (listed : trail.Lists bound atom) :
    trail.atomValue atom = some (trail.assignment atom) := by
  obtain ⟨literal, member, rfl⟩ := listed
  have known := coherent.known (Trail.initialMember member)
  rw [Trail.assignment, Truth.total, known]
  cases literal.negated <;> rfl

theorem listsOfKnown {atom : Nat} (known : trail.atomValue atom ≠ none) :
    trail.Lists trail.literals.size atom := by
  obtain ⟨truth, value⟩ := Option.ne_none_iff_exists'.1 known
  refine ⟨⟨atom, !truth⟩, ?_, rfl⟩
  rw [trail.initialAll (Nat.le_refl _)]
  exact coherent.knownMember value

/-- A literal of the trail holds under the assignment of the trail. -/
theorem holdsAssignment {literal : Literal} (member : literal ∈ trail.literals.toList) :
    literal.holds trail.assignment = true := by
  have known := coherent.known member
  rw [Literal.holds, Trail.assignment, Truth.total, known]
  cases literal.negated <;> rfl

/-- An assignment under which the literals hold agrees with their values. -/
theorem agrees {assignment : Nat → Bool} {bound : Nat}
    (holds : ∀ literal ∈ trail.initial bound, literal.holds assignment = true) {atom : Nat}
    (listed : trail.Lists bound atom) : assignment atom = trail.assignment atom := by
  obtain ⟨literal, member, rfl⟩ := listed
  have own := holdsAssignment coherent (Trail.initialMember member)
  have other := holds literal member
  simp only [Literal.holds, bne_iff_ne, ne_eq] at own other
  revert own other
  cases assignment literal.atom <;> cases trail.assignment literal.atom <;>
    cases literal.negated <;> simp

end Trail

theorem listsMono {trail : Trail} {low high atom : Nat} (below : low ≤ high)
    (listed : trail.Lists low atom) : trail.Lists high atom := by
  obtain ⟨literal, member, same⟩ := listed
  exact ⟨literal, Trail.initialMono below member, same⟩

theorem settledMono {network : Network} {low high higher index : Nat} (above : high ≤ higher)
    (settled : network.Settled low high index) : network.Settled low higher index := by
  intro spare others
  obtain ⟨all, holds⟩ := settled spare others
  exact ⟨fun atom member => listsMono above (all atom member), holds⟩

theorem guardsMono {network : Network} {low high : Nat} (below : low ≤ high)
    {watch other : Literal} (guards : network.Guards high watch other) :
    network.Guards low watch other :=
  fun member => guards (Trail.initialMono below member)

theorem quietMono {network : Network} {low high reference : Nat} (below : low ≤ high)
    (quiet : network.Quiet high reference) : network.Quiet low reference := by
  intro first second rest same
  obtain ⟨left, right⟩ := quiet first second rest same
  exact ⟨guardsMono below left, guardsMono below right⟩

theorem Sound.fewer {models others : (Nat → Bool) → Prop} {network : Network}
    (sound : network.Sound models) (fewer : ∀ assignment, others assignment → models assignment) :
    network.Sound others where
  clauses assignment other := sound.clauses assignment (fewer assignment other)
  parities assignment other := sound.parities assignment (fewer assignment other)
  root assignment other := sound.root assignment (fewer assignment other)

/-- The constraint behind a reason holds under the assignment. -/
def SatisfiesReason (network : Network) (assignment : Nat → Bool) : Reason → Prop
  | .clause reference => Clause.holds assignment (network.store.literals reference) = true
  | .parity index => (network.parities.constraint index).holds assignment = true

theorem Sound.reason {models : (Nat → Bool) → Prop} {network : Network}
    (sound : network.Sound models) {assignment : Nat → Bool} (model : models assignment)
    {position : Nat} {literal : Literal} {reason : Reason}
    (forced : network.Forces position literal reason) :
    network.SatisfiesReason assignment reason := by
  cases reason with
  | clause reference =>
      obtain ⟨rest, same, -⟩ := forced
      exact sound.clauses assignment model reference (ClauseStore.insideOfCons same)
  | parity index =>
      exact sound.parities assignment model index (ParityStore.insideOfMember forced.1)

/-- A violated constraint holds in all the models nevertheless. -/
theorem Sound.violated {models : (Nat → Bool) → Prop} {network : Network}
    (sound : network.Sound models) {assignment : Nat → Bool} (model : models assignment)
    {conflict : Reason} (violated : network.Violated conflict) :
    network.SatisfiesReason assignment conflict := by
  cases conflict with
  | clause reference => exact sound.clauses assignment model reference violated.1
  | parity index =>
      refine sound.parities assignment model index (Nat.lt_of_not_le fun outside => ?_)
      have wrong := violated.2
      have right : ParityConstraint.holds network.trail.assignment default = true := rfl
      rw [ParityStore.constraintOutside outside, right] at wrong
      contradiction

theorem notHoldsOfNegate {assignment : Nat → Bool} {literal : Literal}
    (holds : literal.negate.holds assignment = true) : literal.holds assignment = false := by
  simpa using holds

/-- A forced literal holds wherever its reason and the earlier literals hold. -/
theorem Forces.holds {network : Network} (coherent : network.trail.Coherent)
    (distinct : ∀ index, (network.parities.constraint index).atoms.Nodup)
    {assignment : Nat → Bool} {position : Nat} {literal : Literal} {reason : Reason}
    (forced : network.Forces position literal reason)
    (member : literal ∈ network.trail.literals.toList)
    (satisfied : network.SatisfiesReason assignment reason)
    (earlier : ∀ other ∈ network.trail.initial position, other.holds assignment = true) :
    literal.holds assignment = true := by
  cases reason with
  | clause reference =>
      obtain ⟨rest, same, others⟩ := forced
      simp only [SatisfiesReason, same, Clause.holds, List.any_cons, Bool.or_eq_true,
        List.any_eq_true] at satisfied
      rcases satisfied with own | ⟨other, listed, isTrue⟩
      · exact own
      · have isFalse := notHoldsOfNegate (earlier _ (others other listed))
        rw [isFalse] at isTrue
        contradiction
  | parity index =>
      obtain ⟨inside, others, right⟩ := forced
      have differ := ParityConstraint.oddnessDiffer assignment network.trail.assignment
        (distinct index) inside fun atom listed different =>
          agrees coherent earlier (others atom listed different)
      simp only [SatisfiesReason, ParityConstraint.holds, beq_iff_eq] at satisfied right
      rw [satisfied, right] at differ
      have same : assignment literal.atom = network.trail.assignment literal.atom := by
        simpa using differ
      rw [Literal.holds, same]
      exact holdsAssignment coherent member

/-- No assignment satisfies a violated constraint and every literal of the trail. -/
theorem Violated.contradicts {network : Network} (coherent : network.trail.Coherent)
    {assignment : Nat → Bool} {conflict : Reason} (violated : network.Violated conflict)
    (satisfied : network.SatisfiesReason assignment conflict)
    (all : ∀ literal ∈ network.trail.literals.toList, literal.holds assignment = true) : False := by
  cases conflict with
  | clause reference =>
      simp only [SatisfiesReason, Clause.holds, List.any_eq_true] at satisfied
      obtain ⟨literal, member, isTrue⟩ := satisfied
      have isFalse := notHoldsOfNegate (all _ (violated.2 literal member))
      rw [isFalse] at isTrue
      contradiction
  | parity index =>
      have same : ParityConstraint.oddness assignment (network.parities.constraint index).atoms =
          ParityConstraint.oddness network.trail.assignment
            (network.parities.constraint index).atoms := by
        apply ParityConstraint.oddnessCongr
        intro atom member
        refine agrees coherent (fun literal listed => ?_) (violated.1 atom member)
        exact all literal (Trail.initialMember listed)
      have wrong := violated.2
      simp only [SatisfiesReason, ParityConstraint.holds, same] at satisfied wrong
      rw [satisfied] at wrong
      contradiction

section Assign

variable {network : Network} {literal : Literal} (reason : Option Reason)

@[simp] theorem trailAssign :
    (network.assign literal reason).trail = network.trail.enqueue literal reason := rfl

@[simp] theorem paritiesAssign :
    (network.assign literal reason).parities = network.parities := rfl

@[simp] theorem atomCountAssign :
    (network.assign literal reason).atomCount = network.atomCount := by
  simp [atomCount]

theorem listsAssign {bound atom : Nat} (below : bound ≤ network.trail.literals.size) :
    (network.assign literal reason).trail.Lists bound atom ↔ network.trail.Lists bound atom := by
  rw [trailAssign, Trail.Lists, Trail.initialEnqueue _ _ _ below, Trail.Lists]

theorem assignmentAssign {atom : Nat} (different : literal.atom ≠ atom) :
    (network.assign literal reason).trail.assignment atom = network.trail.assignment atom := by
  simp only [Trail.assignment, Truth.total, trailAssign,
    Trail.atomValueEnqueue _ _ _ different]

theorem settledLow {low high index : Nat} (settled : network.Settled low high index)
    {lower : Nat} (below : lower ≤ low) : network.Settled lower high index :=
  fun spare others => settled spare fun atom member different =>
    listsMono below (others atom member different)

variable (coherent : network.trail.Coherent) (unknown : network.trail.atomValue literal.atom = none)
include coherent unknown

theorem differsFromListed {bound atom : Nat} (listed : network.trail.Lists bound atom) :
    literal.atom ≠ atom := by
  obtain ⟨other, member, rfl⟩ := listed
  exact Ne.symm (coherent.undetermined unknown (Trail.initialMember member))

theorem holdsAssign {bound : Nat} {constraint : ParityConstraint}
    (listed : ∀ atom ∈ constraint.atoms, network.trail.Lists bound atom) :
    constraint.holds (network.assign literal reason).trail.assignment =
      constraint.holds network.trail.assignment := by
  exact ParityConstraint.holdsCongr fun atom member =>
    assignmentAssign reason (differsFromListed coherent unknown (listed atom member))

theorem settledAssign {low high index : Nat} (lowInside : low ≤ network.trail.literals.size)
    (highInside : high ≤ network.trail.literals.size)
    (settled : network.Settled low high index) :
    (network.assign literal reason).Settled low high index := by
  intro spare others
  rw [paritiesAssign] at others ⊢
  obtain ⟨all, right⟩ := settled spare fun atom member different =>
    (listsAssign reason lowInside).1 (others atom member different)
  refine ⟨fun atom member => (listsAssign reason highInside).2 (all atom member), ?_⟩
  rw [holdsAssign reason coherent unknown all]
  exact right

theorem guardsAssign {bound : Nat} {watch other : Literal}
    (below : bound ≤ network.trail.literals.size) (guards : network.Guards bound watch other) :
    (network.assign literal reason).Guards bound watch other := by
  intro member
  rw [trailAssign, Trail.initialEnqueue _ _ _ below] at member
  obtain ⟨listed, level⟩ := guards member
  have watchDiffers := Ne.symm (coherent.undetermined unknown (Trail.initialMember member))
  have otherDiffers := Ne.symm (coherent.undetermined unknown listed)
  rw [Literal.atomNegate] at watchDiffers
  refine ⟨?_, ?_⟩
  · rw [trailAssign, Trail.literalsEnqueue]
    exact List.mem_append_left _ listed
  · rw [trailAssign, Trail.atomLevelEnqueue _ _ _ otherDiffers,
      Trail.atomLevelEnqueue _ _ _ watchDiffers]
    exact level

theorem quietAssign {bound reference : Nat} (below : bound ≤ network.trail.literals.size)
    (quiet : network.Quiet bound reference) :
    (network.assign literal reason).Quiet bound reference := by
  intro first second rest same
  obtain ⟨left, right⟩ := quiet first second rest same
  exact ⟨guardsAssign reason coherent unknown below left,
    guardsAssign reason coherent unknown below right⟩

theorem forcesAssign {position : Nat} {other : Literal} {cause : Reason}
    (below : position ≤ network.trail.literals.size)
    (member : other ∈ network.trail.literals.toList)
    (forced : network.Forces position other cause) :
    (network.assign literal reason).Forces position other cause := by
  cases cause with
  | clause reference =>
      obtain ⟨rest, same, others⟩ := forced
      refine ⟨rest, same, fun next listed => ?_⟩
      rw [trailAssign, Trail.initialEnqueue _ _ _ below]
      exact others next listed
  | parity index =>
      obtain ⟨inside, others, right⟩ := forced
      refine ⟨inside, fun atom listed different => ?_, ?_⟩
      · exact (listsAssign reason below).2 (others atom listed different)
      · have all : ∀ atom ∈ (network.parities.constraint index).atoms,
            network.trail.Lists network.trail.literals.size atom := by
          intro atom listed
          by_cases same : atom = other.atom
          · refine ⟨other, ?_, same.symm⟩
            rw [network.trail.initialAll (Nat.le_refl _)]
            exact member
          · exact listsMono below (others atom listed same)
        rw [paritiesAssign, holdsAssign reason coherent unknown all]
        exact right

/-- The network keeps its shape when a literal is assigned for a reason or as a decision. -/
theorem Shaped.assign (shaped : network.Shaped) (inside : literal.atom < network.atomCount)
    (justified : (network.assign literal reason).Justified network.trail.literals.size literal) :
    (network.assign literal reason).Shaped where
  trail := shaped.trail.enqueue reason inside unknown
  store := by
    rw [atomCountAssign]
    exact shaped.store
  parities := by
    rw [atomCountAssign]
    exact shaped.parities
  reasons position other found := by
    rw [trailAssign, Trail.literalsEnqueue, List.getElem?_append] at found
    split at found
    · next early =>
        have member := List.mem_of_getElem? found
        have different := Ne.symm (coherent.undetermined unknown member)
        have old := shaped.reasons position other found
        rw [Array.length_toList] at early
        exact old.keep (Trail.reasonEnqueue _ _ _ different) Iff.rfl rfl fun cause =>
          forcesAssign reason coherent unknown (Nat.le_of_lt early) member
    · next late =>
        obtain ⟨position_, same⟩ := List.getElem?_eq_some_iff.1 found
        simp only [List.length_singleton] at position_
        have last : position = network.trail.literals.size := by
          rw [Array.length_toList] at late position_
          omega
        subst last
        have equal : literal = other := by simpa using same
        rw [← equal]
        exact justified
  settled limit member index := by
    have early := shaped.trail.propagated limit member
    have bounded := shaped.trail.bounded
    exact settledAssign reason coherent unknown (by omega) (by omega)
      (shaped.settled limit member index)

/-- A literal that is assigned at the root level has to hold in all the models. -/
theorem Sound.assign {models : (Nat → Bool) → Prop} (sound : network.Sound models)
    (inside : literal.atom < network.atomCount)
    (root : network.trail.level = 0 → ∀ assignment, models assignment →
      literal.holds assignment = true) :
    (network.assign literal reason).Sound models where
  clauses := sound.clauses
  parities := sound.parities
  root assignment model other member level := by
    rw [trailAssign, Trail.literalsEnqueue, List.mem_append, List.mem_singleton] at member
    rcases member with old | rfl
    · have different := Ne.symm (coherent.undetermined unknown old)
      rw [trailAssign, Trail.atomLevelEnqueue _ _ _ different] at level
      exact sound.root assignment model other old level
    · rw [trailAssign, Trail.atomLevelEnqueueSame _ _ _ inside] at level
      exact root level assignment model

/-- Nothing gets lost when a literal is assigned. -/
theorem Complete.assign {models : (Nat → Bool) → Prop} (complete : network.Complete models) :
    (network.assign literal reason).Complete models := by
  intro assignment satisfied
  refine complete assignment ⟨satisfied.clauses, satisfied.parities, fun other member level => ?_⟩
  have different := Ne.symm (coherent.undetermined unknown member)
  refine satisfied.root other ?_ ?_
  · rw [trailAssign, Trail.literalsEnqueue]
    exact List.mem_append_left _ member
  · rw [trailAssign, Trail.atomLevelEnqueue _ _ _ different]
    exact level

end Assign

section Rearrange

variable {network : Network} {store : ClauseStore}

theorem forcesRearrange (rearranged : Rearranged network.trail network.store store) {position : Nat}
    {literal : Literal} {reason : Reason} (member : literal ∈ network.trail.literals.toList)
    (forced : network.Forces position literal reason) :
    { network with store }.Forces position literal reason := by
  cases reason with
  | clause reference =>
      obtain ⟨rest, same, others⟩ := forced
      obtain ⟨remaining, leading⟩ := rearranged.leading reference literal rest same member
      have permuted := rearranged.permuted reference
      rw [same, leading] at permuted
      exact ⟨remaining, leading, fun other listed =>
        others other (permuted.cons_inv.mem_iff.1 listed)⟩
  | parity index => exact forced

theorem Shaped.rearrange (shaped : network.Shaped) (watching : store.Watching network.atomCount)
    (rearranged : Rearranged network.trail network.store store) :
    { network with store }.Shaped where
  trail := shaped.trail
  store := watching
  parities := shaped.parities
  reasons position literal found := by
    have old := shaped.reasons position literal found
    exact old.keep rfl Iff.rfl rfl fun reason =>
      forcesRearrange rearranged (List.mem_of_getElem? found)
  settled := shaped.settled

theorem Sound.rearrange {models : (Nat → Bool) → Prop} (sound : network.Sound models)
    (rearranged : Rearranged network.trail network.store store) :
    { network with store }.Sound models where
  clauses assignment model reference inside := by
    rw [rearranged.size] at inside
    rw [Clause.holdsPerm assignment (rearranged.permuted reference)]
    exact sound.clauses assignment model reference inside
  parities := sound.parities
  root := sound.root

theorem Complete.rearrange {models : (Nat → Bool) → Prop} (complete : network.Complete models)
    (rearranged : Rearranged network.trail network.store store) :
    { network with store }.Complete models := by
  intro assignment satisfied
  refine complete assignment ⟨fun reference inside original => ?_, satisfied.parities,
    satisfied.root⟩
  rw [← Clause.holdsPerm assignment (rearranged.permuted reference)]
  refine satisfied.clauses reference ?_ ?_
  · rw [rearranged.size]
    exact inside
  · exact (congrArg Clause.learnt (rearranged.alike reference)).trans original

end Rearrange

/-- The position of the head does not matter for the shape. -/
theorem Shaped.advance {network : Network} (shaped : network.Shaped) {head propagations : Nat}
    (later : network.trail.head ≤ head) (bounded : head ≤ network.trail.literals.size) :
    { network with trail := { network.trail with head }, propagations }.Shaped where
  trail := shaped.trail.moveHead later bounded
  store := shaped.store
  parities := shaped.parities
  reasons := shaped.reasons
  settled := shaped.settled

namespace Propagates

variable {start network : Network} (propagates : Propagates start network)
include propagates

theorem shaped (shaped : start.Shaped) : network.Shaped := by
  induction propagates with
  | refl => exact shaped
  | rearrange _ store watching rearranged inductionHypothesis =>
      exact inductionHypothesis.rearrange watching rearranged
  | @force network _ literal reason inside unknown later forced inductionHypothesis =>
      apply inductionHypothesis.assign _ inductionHypothesis.trail unknown inside
      exact justifiedForced (Trail.reasonEnqueueSame _ _ _ inside) later forced
  | advance _ head propagations later bounded inductionHypothesis =>
      exact inductionHypothesis.advance later bounded

theorem sound {models : (Nat → Bool) → Prop} (shaped : start.Shaped)
    (sound : start.Sound models) : network.Sound models := by
  induction propagates with
  | refl => exact sound
  | rearrange _ store watching rearranged inductionHypothesis =>
      exact inductionHypothesis.rearrange rearranged
  | @force network earlier literal reason inside unknown later forced inductionHypothesis =>
      have earlierShaped := earlier.shaped shaped
      have coherent := earlierShaped.trail
      apply inductionHypothesis.assign _ coherent unknown inside
      intro root assignment model
      have after : (network.assign literal (some reason)).trail.Coherent :=
        coherent.enqueue _ inside unknown
      refine forced.holds after earlierShaped.parities.distinct ?_ ?_ ?_
      · rw [trailAssign, Trail.literalsEnqueue]
        exact List.mem_append_right _ List.mem_cons_self
      · cases reason with
        | clause reference =>
            obtain ⟨rest, same, -⟩ := forced
            exact inductionHypothesis.clauses assignment model reference
              (ClauseStore.insideOfCons same)
        | parity index =>
            exact inductionHypothesis.parities assignment model index
              (ParityStore.insideOfMember forced.1)
      · intro other member
        rw [trailAssign, Trail.initialEnqueue _ _ _ (Nat.le_refl _)] at member
        have listed := Trail.initialMember member
        have low := coherent.levelLe listed
        exact inductionHypothesis.root assignment model other listed (by omega)
  | advance _ head propagations later bounded inductionHypothesis =>
      exact ⟨inductionHypothesis.clauses, inductionHypothesis.parities, inductionHypothesis.root⟩

theorem complete {models : (Nat → Bool) → Prop} (shaped : start.Shaped)
    (complete : start.Complete models) : network.Complete models := by
  induction propagates with
  | refl => exact complete
  | rearrange _ store watching rearranged inductionHypothesis =>
      exact inductionHypothesis.rearrange rearranged
  | force earlier literal reason inside unknown later forced inductionHypothesis =>
      exact inductionHypothesis.assign _ (earlier.shaped shaped).trail unknown
  | advance _ head propagations later bounded inductionHypothesis =>
      exact fun assignment satisfied => inductionHypothesis assignment
        ⟨satisfied.clauses, satisfied.parities, satisfied.root⟩

/-- The levels stay as they are, and so do the parity constraints and the number of atoms. -/
theorem frame : network.trail.limits = start.trail.limits ∧ network.parities = start.parities ∧
    network.atomCount = start.atomCount ∧
    network.store.clauses.size = start.store.clauses.size := by
  induction propagates with
  | refl => exact ⟨rfl, rfl, rfl, rfl⟩
  | rearrange _ store watching rearranged inductionHypothesis =>
      obtain ⟨limits, parities, atoms, size⟩ := inductionHypothesis
      exact ⟨limits, parities, atoms, rearranged.size.trans size⟩
  | force _ literal reason inside unknown later forced inductionHypothesis =>
      obtain ⟨limits, parities, atoms, size⟩ := inductionHypothesis
      exact ⟨limits, parities, (atomCountAssign _).trans atoms, size⟩
  | advance _ head propagations later bounded inductionHypothesis => exact inductionHypothesis

/-- What is settled stays settled. -/
theorem settled (shaped : start.Shaped) {low high index : Nat}
    (lowInside : low ≤ start.trail.literals.size) (highInside : high ≤ start.trail.literals.size)
    (settled : start.Settled low high index) : network.Settled low high index := by
  have longer : start.trail.literals.size ≤ network.trail.literals.size ∧
      network.Settled low high index := by
    induction propagates with
    | refl => exact ⟨Nat.le_refl _, settled⟩
    | rearrange _ store watching rearranged inductionHypothesis => exact inductionHypothesis
    | @force network earlier literal reason inside unknown later forced inductionHypothesis =>
        obtain ⟨longer, still⟩ := inductionHypothesis
        have coherent := (earlier.shaped shaped).trail
        refine ⟨?_, settledAssign _ coherent unknown (by omega) (by omega) still⟩
        simp only [trailAssign, Trail.enqueue, Array.size_push]
        omega
    | advance _ head propagations later bounded inductionHypothesis => exact inductionHypothesis
  exact longer.2

/-- Every clause keeps everything but the order of its literals. -/
theorem clauses (reference : Nat) :
    List.Perm (network.store.literals reference) (start.store.literals reference) ∧
      network.store.clause reference =
        { start.store.clause reference with literals := network.store.literals reference } := by
  induction propagates with
  | refl => exact ⟨List.Perm.refl _, rfl⟩
  | rearrange _ store watching rearranged inductionHypothesis =>
      have alike := rearranged.alike reference
      rw [inductionHypothesis.2] at alike
      exact ⟨(rearranged.permuted reference).trans inductionHypothesis.1, alike⟩
  | force _ literal reason inside unknown later forced inductionHypothesis =>
      exact inductionHypothesis
  | advance _ head propagations later bounded inductionHypothesis => exact inductionHypothesis

/-- The trail only grows, and what it gains has a reason. -/
theorem trail (shaped : start.Shaped) :
    ∃ added, network.trail.literals.toList = start.trail.literals.toList ++ added ∧
      (∀ literal ∈ added, network.trail.reason literal.atom ≠ none) ∧
      ∀ literal ∈ start.trail.literals.toList,
        network.trail.atom literal.atom = start.trail.atom literal.atom := by
  induction propagates with
  | refl => exact ⟨[], by simp, by simp, fun _ _ => rfl⟩
  | rearrange _ store watching rearranged inductionHypothesis => exact inductionHypothesis
  | @force network earlier literal reason inside unknown later forced inductionHypothesis =>
      obtain ⟨added, grown, reasons, kept⟩ := inductionHypothesis
      have coherent := (earlier.shaped shaped).trail
      refine ⟨added ++ [literal], ?_, ?_, ?_⟩
      · rw [trailAssign, Trail.literalsEnqueue, grown, List.append_assoc]
      · intro other member
        rw [List.mem_append, List.mem_singleton] at member
        rcases member with old | rfl
        · have listed : other ∈ network.trail.literals.toList := by
            rw [grown]
            exact List.mem_append_right _ old
          have different := Ne.symm (coherent.undetermined unknown listed)
          rw [trailAssign, Trail.reasonEnqueue _ _ _ different]
          exact reasons other old
        · rw [trailAssign, Trail.reasonEnqueueSame _ _ _ inside]
          simp
      · intro other member
        have listed : other ∈ network.trail.literals.toList := by
          rw [grown]
          exact List.mem_append_left _ member
        have different := Ne.symm (coherent.undetermined unknown listed)
        rw [trailAssign, Trail.atomEnqueue, if_neg fun both => different both.1]
        exact kept other member
  | advance _ head propagations later bounded inductionHypothesis => exact inductionHypothesis

theorem longer (shaped : start.Shaped) :
    start.trail.literals.size ≤ network.trail.literals.size := by
  obtain ⟨added, grown, -⟩ := propagates.trail shaped
  have lengths := congrArg List.length grown
  rw [List.length_append, Array.length_toList, Array.length_toList] at lengths
  omega

/-- The literals keep their positions. -/
theorem found (shaped : start.Shaped) {position : Nat} {literal : Literal}
    (found : start.trail.literals.toList[position]? = some literal) :
    network.trail.literals.toList[position]? = some literal := by
  obtain ⟨added, grown, -⟩ := propagates.trail shaped
  rw [grown, List.getElem?_append_left (List.getElem?_eq_some_iff.1 found).1]
  exact found

end Propagates

end Network

end ParitySat
