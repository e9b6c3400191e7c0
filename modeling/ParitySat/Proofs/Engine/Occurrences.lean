/-
This file shows that the watch lists and the occurrence lists are exact at every moment, that every
reference is live, and that a propagation only changes the order of literals.
-/

import ParitySat.Proofs.Engine.Moments

namespace ParitySat

namespace ClauseStore

theorem clauseOfStored {store : ClauseStore} {reference : Nat} {clause : Clause}
    (stored : store.clauses[reference]? = some clause) :
    reference < store.clauses.size ∧ store.clause reference = clause := by
  obtain ⟨inside, -⟩ := Array.getElem?_eq_some_iff.1 stored
  exact ⟨inside, Option.some.inj ((clauseStored inside).symm.trans stored)⟩

/-- A live reference names a clause of the store that has not been deleted. -/
def Live (store : ClauseStore) (reference : Nat) : Prop :=
  ∃ clause, store.clauses[reference]? = some clause ∧ clause.deleted = false

/-- The lists belong to the literals of the atoms. A live clause has two literals at least, over
distinct atoms, and it is listed once for each of its first two literals and for no other one. -/
structure Watched (store : ClauseStore) (atoms : Nat) : Prop where
  width : store.watches.size = 2 * atoms
  clauses : ∀ reference clause, store.clauses[reference]? = some clause →
    clause.deleted = false → (clause.literals.map Literal.atom).Nodup ∧
      ∃ first second rest, clause.literals = first :: second :: rest ∧
        ∀ literal, (store.watchers literal).toList.count reference =
          if literal = first ∨ literal = second then 1 else 0
  lists : ∀ references ∈ store.watches, ∀ reference ∈ references, store.Live reference

section Watching

variable {store : ClauseStore} {atoms reference : Nat} (watching : store.Watching atoms)
include watching

theorem Watching.inside (inside : reference < store.clauses.size) : store.Live reference :=
  ⟨_, clauseStored inside, watching.live reference⟩

/-- The first two literals differ, so each of them counts once. -/
theorem Watching.count {first second : Literal} {rest : List Literal}
    (same : store.literals reference = first :: second :: rest) (literal : Literal) :
    (store.watchers literal).toList.count reference =
      if literal = first ∨ literal = second then 1 else 0 := by
  have distinct := (watching.properOfCons same).nodup
  have different : first ≠ second := fun equal =>
    (List.nodup_cons.1 distinct).1 (equal ▸ List.mem_cons_self)
  rw [watching.watched, same]
  by_cases isFirst : literal = first
  · subst isFirst
    simp [different.symm]
  · by_cases isSecond : literal = second
    · subst isSecond
      simp [different]
    · simp [isFirst, isSecond, Ne.symm isFirst, Ne.symm isSecond]

theorem Watching.exact : store.Watched atoms where
  width := watching.width
  clauses other clause stored _ := by
    obtain ⟨inside, rfl⟩ := clauseOfStored stored
    obtain ⟨first, second, rest, same⟩ := watching.split inside
    exact ⟨(watching.proper other inside).distinct, first, second, rest, same,
      watching.count same⟩
  lists _ listed _ member := watching.inside (watching.stored listed member)

end Watching

end ClauseStore

namespace ParityStore

/-- A stored parity constraint has two distinct atoms at least, and it is listed once for each of
them and for no other one. -/
structure Listed (store : ParityStore) (atoms : Nat) : Prop where
  width : store.occurrences.size = atoms
  constraints : ∀ index constraint, store.constraints[index]? = some constraint →
    2 ≤ constraint.atoms.length ∧ constraint.atoms.Nodup ∧
      ∀ atom, (store.occurrencesOf atom).toList.count index =
        if atom ∈ constraint.atoms then 1 else 0
  lists : ∀ atom, ∀ index ∈ store.occurrencesOf atom, index < store.constraints.size

theorem Listing.exact {store : ParityStore} {atoms : Nat} (listing : store.Listing atoms) :
    store.Listed atoms where
  width := listing.width
  constraints index constraint stored := by
    obtain ⟨inside, -⟩ := Array.getElem?_eq_some_iff.1 stored
    obtain rfl := Option.some.inj ((constraintStored inside).symm.trans stored)
    refine ⟨listing.long index inside, listing.distinct index, fun atom => ?_⟩
    rw [listing.listed, (listing.distinct index).count]
  lists atom index member := insideOfMember (listing.occurs.1 member)

end ParityStore

namespace Network

/-- The clauses of both networks differ in the order of their literals at most. -/
structure Permutes (before after : Network) : Prop where
  size : after.store.clauses.size = before.store.clauses.size
  clauses : ∀ (reference : Nat) (clause : Clause),
    before.store.clauses[reference]? = some clause → ∃ literals,
      List.Perm literals clause.literals ∧
        after.store.clauses[reference]? = some { clause with literals }

theorem Propagates.permutes {before after : Network} (propagates : before.Propagates after) :
    before.Permutes after where
  size := propagates.frame.2.2.2
  clauses reference clause stored := by
    obtain ⟨inside, rfl⟩ := ClauseStore.clauseOfStored stored
    obtain ⟨permuted, alike⟩ := propagates.clauses reference
    refine ⟨_, permuted, ?_⟩
    rw [← alike]
    exact ClauseStore.clauseStored (propagates.frame.2.2.2.symm ▸ inside)

end Network

namespace Engine

/-- Both kinds of lists are exact, the learnt clauses are listed once, and every reference is
live. -/
structure Referenced (engine : Engine) : Prop where
  store : engine.network.store.Watched engine.atomCount
  parities : engine.network.parities.Listed engine.atomCount
  once : engine.learnts.toList.Nodup
  learnts : ∀ reference, reference ∈ engine.learnts ↔
    ∃ clause, engine.network.store.clauses[reference]? = some clause ∧ clause.deleted = false ∧
      clause.learnt = true
  reasons : ∀ atom reference, engine.network.trail.reason atom = some (.clause reference) →
    engine.network.store.Live reference

theorem Tidy.referenced {engine : Engine} (tidy : engine.Tidy) : engine.Referenced where
  store := tidy.shaped.store.exact
  parities := tidy.shaped.parities.exact
  once := tidy.registered.distinct
  learnts reference := by
    rw [← Array.mem_toList_iff]
    constructor
    · intro listed
      exact ⟨_, ClauseStore.clauseStored (tidy.registered.inside listed),
        tidy.shaped.store.live reference, tidy.registered.member.1 listed⟩
    · rintro ⟨clause, stored, -, learnt⟩
      obtain ⟨-, rfl⟩ := ClauseStore.clauseOfStored stored
      exact tidy.registered.member.2 learnt
  reasons atom reference known := tidy.shaped.store.inside (tidy.shaped.reasonInside known)

/-- At every moment the lists are exact and every reference is live, and a propagation changes
nothing of a clause but the order of its literals. -/
theorem referencesExact {options : Options} {requests : List Request} {engine : Engine}
    (reached : run requests (ofOptions options) = .ok engine) :
    (∀ moment, engine.Visits moment → moment.Referenced) ∧
      ∀ moment, engine.Pending moment → moment.network.Permutes moment.propagate.2.network := by
  refine ⟨fun moment visits => (visitsTidy reached visits).referenced, fun moment pending => ?_⟩
  obtain ⟨models, steady⟩ := pending.steady (reachedFaithful reached).valid
  exact (Network.propagateSpec steady.ready).1.propagates.permutes

/-- The assumption makes the first watch of both clauses false, and the watches change places. -/
theorem referencesExactClashing :
    ∃ engine moment, run clashingRequests (ofOptions {}) = .ok engine ∧
      engine.Visits moment ∧ moment.Referenced ∧
      moment.network.Permutes moment.propagate.2.network ∧
      moment.network.store.literals 0 = [⟨0, false⟩, ⟨1, false⟩] ∧
      moment.propagate.2.network.store.literals 0 = [⟨1, false⟩, ⟨0, false⟩] := by
  obtain ⟨engine, moment, reached, pending, visits, -, facts⟩ :=
    visitsObserved {} clashingRequests [⟨0, true⟩]
      (fun moment => (moment.network.store.literals 0,
        moment.propagate.2.network.store.literals 0))
      ([⟨0, false⟩, ⟨1, false⟩], [⟨1, false⟩, ⟨0, false⟩]) (by decide +kernel)
  obtain ⟨before, after⟩ := Prod.mk.inj facts
  obtain ⟨moments, propagations⟩ := referencesExact reached
  exact ⟨engine, moment, reached, visits, moments moment visits, propagations moment pending,
    before, after⟩

end Engine

end ParitySat
