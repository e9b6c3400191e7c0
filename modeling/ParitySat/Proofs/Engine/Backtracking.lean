/-
This file shows that levels can be undone and opened without any constraint waiting for it.
-/

import ParitySat.Proofs.Engine.Propagation

namespace ParitySat

namespace Trail

variable {trail : Trail} {level : Nat}

/-- The levels that begin before a kept position are kept. -/
theorem limitKept (coherent : trail.Coherent) {position : Nat}
    (below : position < trail.boundary level) :
    position ∈ (trail.cancelUntil level).limits.toList ↔ position ∈ trail.limits.toList := by
  rw [limitsCancelUntil]
  refine ⟨List.mem_of_mem_take, fun member => ?_⟩
  obtain ⟨index, inside, same⟩ := List.mem_iff_getElem.1 member
  rw [List.mem_take_iff_getElem]
  by_cases early : index < level
  · exact ⟨index, by omega, same⟩
  · exfalso
    have length : trail.limits.toList.length = trail.level := by simp [Trail.level]
    obtain ⟨-, found⟩ := boundaryInside (show level < trail.level by omega)
    obtain ⟨levelInside, own⟩ := List.getElem?_eq_some_iff.1 found
    rw [← own, ← same] at below
    rcases Nat.lt_or_eq_of_le (Nat.le_of_not_lt early) with later | rfl
    · have ordered := List.pairwise_iff_getElem.1 coherent.ascending level index levelInside inside
        later
      omega
    · exact Nat.lt_irrefl _ below

theorem limitLeBoundary (coherent : trail.Coherent) {limit : Nat}
    (member : limit ∈ (trail.cancelUntil level).limits.toList) : limit ≤ trail.boundary level := by
  have after := (coherent.cancelUntil level).propagated limit member
  have bounded := (coherent.cancelUntil level).bounded
  have size := congrArg List.length (trail.literalsCancelUntil level)
  rw [initial, List.length_take, Array.length_toList] at size
  omega

theorem listsCancelUntil {bound atom : Nat} (below : bound ≤ trail.boundary level) :
    (trail.cancelUntil level).Lists bound atom ↔ trail.Lists bound atom := by
  rw [Lists, initialCancelUntil below, Lists]

theorem assignmentCancelUntil (coherent : trail.Coherent) {bound atom : Nat}
    (below : bound ≤ trail.boundary level) (listed : trail.Lists bound atom) :
    (trail.cancelUntil level).assignment atom = trail.assignment atom := by
  obtain ⟨literal, member, rfl⟩ := listed
  simp only [assignment, Truth.total, atomValue,
    atomCancelUntil coherent (initialMono below member)]

end Trail

namespace Network

/-- This function undoes every level above the given one. -/
def backtrack (network : Network) (level : Nat) : Network :=
  { network with trail := network.trail.cancelUntil level }

section Backtrack

variable {network : Network} {level : Nat}

@[simp] theorem trailBacktrack : (network.backtrack level).trail = network.trail.cancelUntil level :=
  rfl

@[simp] theorem atomCountBacktrack : (network.backtrack level).atomCount = network.atomCount := by
  simp [atomCount]

theorem backtrackLow (low : network.trail.level ≤ level) : network.backtrack level = network := by
  rw [backtrack, Trail.cancelUntilLow low]

theorem holdsBacktrack (coherent : network.trail.Coherent) {bound : Nat}
    (below : bound ≤ network.trail.boundary level) {constraint : ParityConstraint}
    (listed : ∀ atom ∈ constraint.atoms, network.trail.Lists bound atom) :
    constraint.holds (network.backtrack level).trail.assignment =
      constraint.holds network.trail.assignment := by
  exact ParityConstraint.holdsCongr fun atom member =>
    Trail.assignmentCancelUntil coherent below (listed atom member)

theorem settledBacktrack (coherent : network.trail.Coherent) {low high index : Nat}
    (lowBelow : low ≤ network.trail.boundary level) (highBelow : high ≤ network.trail.boundary level)
    (settled : network.Settled low high index) :
    (network.backtrack level).Settled low high index := by
  intro spare others
  obtain ⟨all, right⟩ := settled spare fun atom member different =>
    (Trail.listsCancelUntil lowBelow).1 (others atom member different)
  refine ⟨fun atom member => (Trail.listsCancelUntil highBelow).2 (all atom member), ?_⟩
  change ParityConstraint.holds _ (network.parities.constraint index) = true
  rw [holdsBacktrack coherent highBelow all]
  exact right

theorem quietBacktrack (coherent : network.trail.Coherent) {bound reference : Nat}
    (below : bound ≤ network.trail.boundary level) (quiet : network.Quiet bound reference) :
    (network.backtrack level).Quiet bound reference := by
  -- The guard of a kept watch is kept, since its level is not greater.
  have guards {watch other : Literal} (guards : network.Guards bound watch other) :
      (network.backtrack level).Guards bound watch other := by
    intro member
    rw [trailBacktrack, Trail.initialCancelUntil below] at member
    obtain ⟨isTrue, smaller⟩ := guards member
    have watchLevel := (coherent.memberBoundary.1 (Trail.initialMono below member)).2
    rw [Literal.atomNegate] at watchLevel
    refine ⟨?_, ?_⟩
    · rw [trailBacktrack, Trail.literalsCancelUntil]
      exact coherent.memberBoundary.2 ⟨isTrue, by omega⟩
    · rw [trailBacktrack, Trail.atomLevelCancelUntil, Trail.atomLevelCancelUntil]
      exact smaller
  intro first second rest same
  obtain ⟨left, right⟩ := quiet first second rest same
  exact ⟨guards left, guards right⟩

theorem forcesBacktrack (coherent : network.trail.Coherent) {position : Nat} {literal : Literal}
    {reason : Reason} (below : position < network.trail.boundary level)
    (found : network.trail.literals.toList[position]? = some literal)
    (forced : network.Forces position literal reason) :
    (network.backtrack level).Forces position literal reason := by
  cases reason with
  | clause reference =>
      obtain ⟨rest, same, others⟩ := forced
      refine ⟨rest, same, fun other member => ?_⟩
      rw [trailBacktrack, Trail.initialCancelUntil (Nat.le_of_lt below)]
      exact others other member
  | parity index =>
      obtain ⟨inside, others, right⟩ := forced
      refine ⟨inside, fun atom member different => ?_, ?_⟩
      · exact (Trail.listsCancelUntil (Nat.le_of_lt below)).2 (others atom member different)
      · change ParityConstraint.holds _ (network.parities.constraint index) = true
        rw [holdsBacktrack coherent (Nat.succ_le_of_lt below)]
        · exact right
        · intro atom member
          by_cases same : atom = literal.atom
          · exact ⟨literal, Trail.memberInitial.2 ⟨position, Nat.lt_succ_self _, found⟩, same.symm⟩
          · exact listsMono (Nat.le_succ _) (others atom member same)

theorem Shaped.backtrack (shaped : network.Shaped) (level : Nat) :
    (network.backtrack level).Shaped where
  trail := shaped.trail.cancelUntil level
  store := by
    rw [atomCountBacktrack]
    exact shaped.store
  parities := by
    rw [atomCountBacktrack]
    exact shaped.parities
  reasons position literal found := by
    have coherent := shaped.trail
    have atFound := found
    rw [trailBacktrack, Trail.literalsCancelUntil, Trail.initial, List.getElem?_take] at found
    split at found
    · next below =>
        have kept : literal ∈ network.trail.initial (network.trail.boundary level) :=
          Trail.memberInitial.2 ⟨position, below, found⟩
        have reason : (network.trail.cancelUntil level).reason literal.atom =
            network.trail.reason literal.atom := by
          rw [Trail.reason, Trail.atomCancelUntil coherent kept, Trail.reason]
        have levelAt : (network.trail.cancelUntil level).levelAt position =
            network.trail.levelAt position := by
          rw [← (coherent.cancelUntil level).levels position literal atFound,
            Trail.atomLevelCancelUntil, coherent.levels position literal found]
        have old := shaped.reasons position literal found
        exact old.keep reason (Trail.limitKept coherent below) levelAt fun cause =>
          forcesBacktrack coherent below found
    · contradiction
  settled limit member index := by
    have below := Trail.limitLeBoundary shaped.trail member
    rw [trailBacktrack, Trail.limitsCancelUntil] at member
    exact settledBacktrack shaped.trail below below
      (shaped.settled limit (List.mem_of_mem_take member) index)

/-- No constraint waits for anything right after a level has been undone. -/
theorem Stable.backtrackReady (stable : network.Stable) (open_ : level < network.trail.level) :
    (network.backtrack level).Ready ∧
      (network.backtrack level).trail.head = (network.backtrack level).trail.literals.size := by
  have coherent := stable.shaped.trail
  have head : (network.backtrack level).trail.head = network.trail.boundary level :=
    Trail.headCancelUntil open_
  have size : (network.backtrack level).trail.literals.size = network.trail.boundary level := by
    rw [← Array.length_toList, trailBacktrack, Trail.literalsCancelUntil, Trail.initial,
      List.length_take, Array.length_toList, Nat.min_eq_left (coherent.boundaryLe level)]
  have limit := List.mem_of_getElem? (Trail.boundaryInside open_).2
  refine ⟨⟨stable.shaped.backtrack level, fun reference => ?_, fun index => ?_⟩,
    head.trans size.symm⟩
  · rw [head]
    exact quietBacktrack coherent (Nat.le_refl _) (stable.quiet _ limit reference)
  · rw [head, size]
    exact settledBacktrack coherent (Nat.le_refl _) (Nat.le_refl _)
      (stable.shaped.settled _ limit index)

theorem Sound.backtrack {models : (Nat → Bool) → Prop} (sound : network.Sound models)
    (level : Nat) : (network.backtrack level).Sound models where
  clauses := sound.clauses
  parities := sound.parities
  root assignment model literal member root := by
    rw [trailBacktrack, Trail.literalsCancelUntil] at member
    rw [trailBacktrack, Trail.atomLevelCancelUntil] at root
    exact sound.root assignment model literal (Trail.initialMember member) root

/-- The literals of the root level are never undone. -/
theorem Complete.backtrack {models : (Nat → Bool) → Prop} (complete : network.Complete models)
    (coherent : network.trail.Coherent) (level : Nat) :
    (network.backtrack level).Complete models := by
  intro assignment satisfied
  refine complete assignment ⟨satisfied.clauses, satisfied.parities, fun literal member root => ?_⟩
  refine satisfied.root literal ?_ ?_
  · rw [trailBacktrack, Trail.literalsCancelUntil]
    exact coherent.memberBoundary.2 ⟨member, by omega⟩
  · rw [trailBacktrack, Trail.atomLevelCancelUntil]
    exact root

end Backtrack

/-- This function opens a level. -/
def deepen (network : Network) : Network :=
  { network with trail := network.trail.openLevel }

section Deepen

variable {network : Network}

@[simp] theorem trailDeepen : network.deepen.trail = network.trail.openLevel := rfl

/-- A level may be opened when no literal waits for propagation. -/
theorem Ready.deepen (ready : network.Ready)
    (finished : network.trail.head = network.trail.literals.size) : network.deepen.Ready where
  shaped :=
    { trail := ready.shaped.trail.openLevel finished
      store := ready.shaped.store
      parities := ready.shaped.parities
      reasons := by
        intro position literal found
        have coherent := ready.shaped.trail
        have early : position < network.trail.literals.size := by
          simpa [Trail.openLevel] using (List.getElem?_eq_some_iff.1 found).1
        have levelAt : network.trail.openLevel.levelAt position = network.trail.levelAt position := by
          rw [← (coherent.openLevel finished).levels position literal found]
          exact coherent.levels position literal found
        have limits : position ∈ network.trail.openLevel.limits.toList ↔
            position ∈ network.trail.limits.toList := by
          rw [Trail.openLevel, Array.toList_push, List.mem_append, List.mem_singleton]
          exact or_iff_left (Nat.ne_of_lt early)
        have old := ready.shaped.reasons position literal found
        exact old.keep rfl limits levelAt fun reason => id
      settled := by
        intro limit member index
        rw [trailDeepen, Trail.openLevel, Array.toList_push, List.mem_append,
          List.mem_singleton] at member
        rcases member with old | rfl
        · exact ready.shaped.settled limit old index
        · have settled := ready.settled index
          rw [finished] at settled
          exact settled }
  quiet := ready.quiet
  settled := ready.settled

theorem Sound.deepen {models : (Nat → Bool) → Prop} (sound : network.Sound models) :
    network.deepen.Sound models :=
  ⟨sound.clauses, sound.parities, sound.root⟩

theorem Complete.deepen {models : (Nat → Bool) → Prop} (complete : network.Complete models) :
    network.deepen.Complete models :=
  fun assignment satisfied => complete assignment
    ⟨satisfied.clauses, satisfied.parities, satisfied.root⟩

/-- A justified literal waits for propagation like the ones before it. -/
theorem Ready.assign (ready : network.Ready) {literal : Literal} (reason : Option Reason)
    (inside : literal.atom < network.atomCount)
    (unknown : network.trail.atomValue literal.atom = none)
    (justified : (network.assign literal reason).Justified network.trail.literals.size literal) :
    (network.assign literal reason).Ready where
  shaped := ready.shaped.assign reason ready.shaped.trail unknown inside justified
  quiet reference :=
    quietAssign reason ready.shaped.trail unknown ready.shaped.trail.bounded (ready.quiet reference)
  settled index := by
    have settled := settledAssign reason ready.shaped.trail unknown ready.shaped.trail.bounded
      (Nat.le_refl _) (ready.settled index)
    refine settledMono ?_ settled
    simp [Trail.enqueue]

/-- The first literal of a level needs no reason. -/
theorem Ready.decide (ready : network.Ready)
    (finished : network.trail.head = network.trail.literals.size) {literal : Literal}
    (inside : literal.atom < network.atomCount)
    (unknown : network.trail.atomValue literal.atom = none) :
    (network.deepen.assign literal none).Ready := by
  apply (ready.deepen finished).assign none inside unknown
  apply justifiedFree (Trail.reasonEnqueueSame network.deepen.trail _ _ inside)
  apply Or.inl
  simp [Trail.enqueue, Trail.openLevel]

/-- A literal of the root level needs no reason. -/
theorem Ready.assignRoot (ready : network.Ready) (root : network.trail.level = 0)
    {literal : Literal} (inside : literal.atom < network.atomCount)
    (unknown : network.trail.atomValue literal.atom = none) :
    (network.assign literal none).Ready := by
  apply ready.assign none inside unknown
  apply justifiedFree (Trail.reasonEnqueueSame _ _ _ inside)
  apply Or.inr
  have low := (network.trail.enqueue literal none).levelAtLe network.trail.literals.size
  rw [Trail.levelEnqueue, root] at low
  exact Nat.le_zero.1 low

end Deepen

end Network

end ParitySat
