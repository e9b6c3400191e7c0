/-
This file shows that the trail is an implication graph at every moment: above the root level a
literal is the first one of its level, or earlier literals imply it.
-/

import Mathlib.Logic.ExistsUnique
import ParitySat.Proofs.Engine.Moments

namespace ParitySat

namespace Trail

variable {trail : Trail} (coherent : trail.Coherent)
include coherent

/-- The positions at which levels were opened are the first ones of their levels. -/
theorem firstOfLevel {position : Nat} (inside : position < trail.literals.size)
    (deep : 0 < trail.levelAt position) : position ∈ trail.limits.toList ↔
      ∀ earlier < position, trail.levelAt earlier < trail.levelAt position := by
  constructor
  · intro limit earlier before
    obtain ⟨level, open_, same⟩ := List.mem_iff_getElem.1 limit
    have start : trail.boundary level = position := by
      simpa [boundary, Array.getD, show level < trail.limits.size by simpa using open_] using same
    have low := (coherent.levelAtLeIff (Nat.lt_trans before inside) level).2 (start.symm ▸ before)
    have high := mt (coherent.levelAtLeIff inside level).1 (start ▸ Nat.lt_irrefl _)
    omega
  · intro first
    -- The level begins at its limit, which is not later, and not earlier either.
    have open_ : trail.levelAt position - 1 < trail.level := by
      have bound := trail.levelAtLe position
      omega
    obtain ⟨-, found⟩ := boundaryInside open_
    have start : trail.boundary (trail.levelAt position - 1) ≤ position := by
      have later := mt (coherent.levelAtLeIff inside (trail.levelAt position - 1)).2
      omega
    have same : trail.boundary (trail.levelAt position - 1) = position := by
      refine Nat.le_antisymm start (Nat.le_of_not_lt fun before => ?_)
      have below := first _ before
      have low := (coherent.levelAtLeIff (Nat.lt_trans before inside)
        (trail.levelAt position - 1)).1 (by omega)
      exact Nat.lt_irrefl _ low
    rw [same] at found
    exact List.mem_of_getElem? found

end Trail

namespace Network

/-- A clause implies its first literal if earlier literals make all others false, and a parity
constraint implies a literal if earlier literals have left it no other way to hold. -/
def Implies (network : Network) (position : Nat) (literal : Literal) : Reason → Prop
  | .clause reference =>
    ∃ clause rest, network.store.clauses[reference]? = some clause ∧ clause.deleted = false ∧
      clause.literals = literal :: rest ∧
      ∀ other ∈ rest, network.trail.value other = some false ∧
        other.negate ∈ network.trail.initial position
  | .parity index =>
    ∃ constraint, network.parities.constraints[index]? = some constraint ∧
      literal.atom ∈ constraint.atoms ∧
      (∀ atom ∈ constraint.atoms, atom ≠ literal.atom →
        ∃ other ∈ network.trail.initial position, other.atom = atom) ∧
      ∀ assignment, (∀ other ∈ network.trail.initial position, other.holds assignment = true) →
        constraint.holds assignment = literal.holds assignment

/-- The literals of the trail are true, they stand in the order of their levels, and above the root
level each of them is the first one of its level or has been implied by earlier ones. -/
structure ImplicationGraph (network : Network) : Prop where
  assigned : ∀ atom, network.trail.atomValue atom ≠ none ↔
    ∃! literal, literal ∈ network.trail.literals.toList ∧ literal.atom = atom
  once : (network.trail.literals.toList.map Literal.atom).Nodup
  holds : ∀ literal ∈ network.trail.literals.toList, network.trail.value literal = some true
  levels : ∀ position literal, network.trail.literals[position]? = some literal →
    network.trail.atomLevel literal.atom = network.trail.limits.toList.countP (· ≤ position)
  rising : (network.trail.literals.toList.map fun literal =>
    network.trail.atomLevel literal.atom).Pairwise (· ≤ ·)
  decisions : ∀ position literal, network.trail.literals[position]? = some literal →
    0 < network.trail.atomLevel literal.atom →
      (network.trail.reason literal.atom = none ↔ ∀ other ∈ network.trail.initial position,
        network.trail.atomLevel other.atom < network.trail.atomLevel literal.atom)
  implied : ∀ position literal reason, network.trail.literals[position]? = some literal →
    0 < network.trail.atomLevel literal.atom → network.trail.reason literal.atom = some reason →
      network.Implies position literal reason

section Shaped

variable {network : Network} (shaped : network.Shaped)
include shaped

/-- Above the root level a literal has no reason exactly if it is the first one of its level. -/
theorem Shaped.decisions {position : Nat} {literal : Literal}
    (found : network.trail.literals[position]? = some literal)
    (deep : 0 < network.trail.atomLevel literal.atom) :
    network.trail.reason literal.atom = none ↔ ∀ other ∈ network.trail.initial position,
      network.trail.atomLevel other.atom < network.trail.atomLevel literal.atom := by
  have coherent := shaped.trail
  obtain ⟨inside, -⟩ := Array.getElem?_eq_some_iff.1 found
  rw [← Array.getElem?_toList] at found
  have own := coherent.levels position literal found
  have justified := shaped.reasons position literal found
  rw [own] at deep ⊢
  have opened : network.trail.reason literal.atom = none ↔
      position ∈ network.trail.limits.toList := by
    cases known : network.trail.reason literal.atom with
    | none => exact iff_of_true rfl ((justified.free known).resolve_right (Nat.ne_of_gt deep))
    | some reason => exact iff_of_false (Option.some_ne_none _) (justified.forced known).1
  rw [opened, Trail.firstOfLevel coherent inside deep]
  constructor
  · intro first other member
    obtain ⟨earlier, before, place⟩ := Trail.memberInitial.1 member
    rw [coherent.levels earlier other place]
    exact first earlier before
  · intro first earlier before
    have listed : earlier < network.trail.literals.toList.length := by
      simpa using Nat.lt_trans before inside
    have place := List.getElem?_eq_getElem listed
    rw [← coherent.levels earlier _ place]
    exact first _ (Trail.memberInitial.2 ⟨earlier, before, place⟩)

/-- A constraint that has forced a literal still implies it. -/
theorem Shaped.implies {position : Nat} {literal : Literal} {reason : Reason}
    (member : literal ∈ network.trail.literals.toList)
    (forced : network.Forces position literal reason) :
    network.Implies position literal reason := by
  have coherent := shaped.trail
  cases reason with
  | clause reference =>
      obtain ⟨rest, same, others⟩ := forced
      refine ⟨_, rest, ClauseStore.clauseStored (ClauseStore.insideOfCons same),
        shaped.store.live reference, same, fun other listed => ?_⟩
      have earlier := others other listed
      exact ⟨(coherent.falsehood other).2 (Trail.initialMember earlier), earlier⟩
  | parity index =>
      obtain ⟨inside, others, right⟩ := forced
      refine ⟨_, ParityStore.constraintStored (ParityStore.insideOfMember inside), inside, others,
        fun assignment earlier => ?_⟩
      -- Only the atom of the literal can make a difference to the trail.
      have differ := ParityConstraint.oddnessDiffer assignment network.trail.assignment
        (shaped.parities.distinct index) inside fun atom listed different =>
          agrees coherent earlier (others atom listed different)
      have own := holdsAssignment coherent member
      simp only [ParityConstraint.holds, beq_iff_eq] at right
      rw [right] at differ
      simp only [ParityConstraint.holds, Literal.holds] at own ⊢
      revert differ own
      cases ParityConstraint.oddness assignment (network.parities.constraint index).atoms <;>
        cases (network.parities.constraint index).parity <;>
        cases assignment literal.atom <;> cases network.trail.assignment literal.atom <;>
        cases literal.negated <;> simp

theorem Shaped.implicationGraph : network.ImplicationGraph := by
  have coherent := shaped.trail
  refine
    { assigned := fun atom => ⟨fun known => ?_, fun ⟨literal, ⟨member, same⟩, _⟩ missing => ?_⟩
      once := coherent.distinct
      holds := fun literal member => (coherent.truth literal).2 member
      levels := fun position literal found => ?_
      rising := ?_
      decisions := fun position literal => shaped.decisions
      implied := fun position literal reason found _ known => ?_ }
  · obtain ⟨truth, value⟩ := Option.ne_none_iff_exists'.1 known
    have member := coherent.knownMember value
    exact ⟨_, ⟨member, rfl⟩, fun other ⟨listed, same⟩ => coherent.unique listed member same⟩
  · exact coherent.undetermined missing member same
  · exact coherent.levels position literal (by rwa [Array.getElem?_toList])
  · rw [List.pairwise_map, List.pairwise_iff_getElem]
    intro low high lowInside highInside below
    rw [coherent.levels low _ (List.getElem?_eq_getElem lowInside),
      coherent.levels high _ (List.getElem?_eq_getElem highInside)]
    exact Trail.levelAtMono (Nat.le_of_lt below)
  · rw [← Array.getElem?_toList] at found
    exact shaped.implies (List.mem_of_getElem? found)
      ((shaped.reasons position literal found).forced known).2

end Shaped

end Network

/-- Every atom without a value is an entry of the queue. -/
theorem Trail.Queued.entry {trail : Trail} {order : DecisionOrder} (queued : trail.Queued order)
    {atom : Nat} (inside : atom < trail.atoms.size) (unknown : trail.atomValue atom = none) :
    atom ∈ order.queue.entries.toList := by
  obtain ⟨slot, known⟩ := Option.isSome_iff_exists.1 (queued.waiting atom inside unknown)
  have found := (queued.indexed slot atom).2 known
  exact Array.mem_toList_iff.2 (Array.mem_of_getElem? found)

namespace Engine

/-- At every moment the trail is an implication graph and the queue holds every atom without a
value, and between two calls no level is open. -/
theorem trailImplied {options : Options} {requests : List Request} {engine : Engine}
    (reached : run requests (ofOptions options) = .ok engine) :
    (∀ moment, engine.Visits moment → moment.network.ImplicationGraph ∧
      ∀ atom < moment.atomCount, moment.network.trail.atomValue atom = none →
        atom ∈ moment.order.queue.entries.toList) ∧
    engine.network.trail.limits = #[] := by
  refine ⟨fun moment visits => ?_, Array.size_eq_zero_iff.1 (reachedResting reached).root⟩
  have tidy := visitsTidy reached visits
  exact ⟨tidy.shaped.implicationGraph, fun atom inside unknown => tidy.queued.entry inside unknown⟩

/-- A clause and a parity constraint leave a single way once the first atom is false. -/
def chainedRequests : List Request :=
  [.addClause [⟨0, false⟩, ⟨1, false⟩], .addParity [0, 1, 2] true]

/-- The clause implies the second atom, and both of them imply the third one. -/
theorem trailImpliedChained :
    ∃ engine moment, run chainedRequests (ofOptions {}) = .ok engine ∧ engine.Visits moment ∧
      moment.network.trail.literals = #[⟨0, true⟩, ⟨1, false⟩, ⟨2, true⟩] ∧
      moment.network.trail.atomLevel 2 = 1 ∧ moment.network.Implies 1 ⟨1, false⟩ (.clause 0) ∧
      moment.network.Implies 2 ⟨2, true⟩ (.parity 0) ∧
      engine.network.trail.limits = #[] := by
  obtain ⟨engine, moment, reached, -, -, visits, facts⟩ :=
    visitsObserved {} chainedRequests [⟨0, true⟩]
      (fun moment => (moment.propagate.2.network.trail.literals,
        [1, 2].map moment.propagate.2.network.trail.atomLevel,
        [1, 2].map moment.propagate.2.network.trail.reason))
      (#[⟨0, true⟩, ⟨1, false⟩, ⟨2, true⟩], [1, 1], [some (.clause 0), some (.parity 0)])
      (by decide +kernel)
  simp only [List.map_cons, List.map_nil, Prod.mk.injEq, List.cons.injEq, and_true] at facts
  obtain ⟨literals, ⟨second, third⟩, clause, parity⟩ := facts
  obtain ⟨every, root⟩ := trailImplied reached
  have graph := (every _ visits).1
  exact ⟨engine, _, reached, visits, literals, third,
    graph.implied 1 ⟨1, false⟩ _ (by simp [literals]) (by simp [second]) clause,
    graph.implied 2 ⟨2, true⟩ _ (by simp [literals]) (by simp [third]) parity, root⟩

end Engine

end ParitySat
