/-
This file shows what a network keeps when its clauses are stored anew and its trail stays the same.
-/

import ParitySat.Proofs.Engine.Backtracking

namespace ParitySat

/-- Both trails have the same literals in the same levels. -/
structure Trail.Alike (before after : Trail) : Prop where
  literals : after.literals = before.literals
  limits : after.limits = before.limits
  head : after.head = before.head
  value : ∀ atom, after.atomValue atom = before.atomValue atom
  level : ∀ atom, after.atomLevel atom = before.atomLevel atom

namespace Trail.Alike

theorem refl (trail : Trail) : trail.Alike trail :=
  ⟨rfl, rfl, rfl, fun _ => rfl, fun _ => rfl⟩

variable {before after : Trail} (alike : before.Alike after)
include alike

theorem initial (bound : Nat) : after.initial bound = before.initial bound := by
  rw [Trail.initial, alike.literals, Trail.initial]

theorem lists (bound atom : Nat) : after.Lists bound atom ↔ before.Lists bound atom := by
  rw [Trail.Lists, alike.initial, Trail.Lists]

theorem assignment : after.assignment = before.assignment := by
  funext atom
  rw [Trail.assignment, Truth.total, alike.value, Trail.assignment, Truth.total]

theorem levelAt (position : Nat) : after.levelAt position = before.levelAt position := by
  rw [Trail.levelAt, alike.limits, Trail.levelAt]

theorem coherent (coherent : before.Coherent)
    (free : ∀ atom, before.reason atom = none → after.reason atom = none) : after.Coherent where
  truth literal := by
    rw [Trail.value, alike.value, alike.literals]
    exact coherent.truth literal
  distinct := by
    rw [alike.literals]
    exact coherent.distinct
  ascending := by
    rw [alike.limits]
    exact coherent.ascending
  propagated := by
    rw [alike.limits, alike.head]
    exact coherent.propagated
  bounded := by
    rw [alike.head, alike.literals]
    exact coherent.bounded
  levels position literal found := by
    rw [alike.literals] at found
    rw [alike.level, alike.levelAt]
    exact coherent.levels position literal found
  free atom unknown := by
    rw [alike.value] at unknown
    exact free atom (coherent.free atom unknown)

end Trail.Alike

namespace Network

section Alike

variable {before after : Network} (alike : before.trail.Alike after.trail) {position : Nat}
  {literal : Literal}
include alike

theorem forcesClauseAlike {old reference : Nat}
    (same : after.store.literals reference = before.store.literals old)
    (forced : before.Forces position literal (.clause old)) :
    after.Forces position literal (.clause reference) := by
  obtain ⟨rest, literals, others⟩ := forced
  refine ⟨rest, same.trans literals, fun other member => ?_⟩
  rw [alike.initial]
  exact others other member

theorem forcesParityAlike {index : Nat}
    (same : after.parities.constraint index = before.parities.constraint index)
    (forced : before.Forces position literal (.parity index)) :
    after.Forces position literal (.parity index) := by
  simpa only [Forces, same, alike.lists, alike.assignment] using forced

end Alike

/-- Every clause comes from one that was stored before, and only learnt clauses may be lost.

A literal of the trail keeps a reason that forces it. -/
structure Inherits (before after : Network) : Prop where
  alike : before.trail.Alike after.trail
  atoms : before.atomCount ≤ after.atomCount
  watching : after.store.Watching after.atomCount
  listing : after.parities.Listing after.atomCount
  constraints : after.parities.constraints = before.parities.constraints
  clauses : ∀ reference, reference < after.store.clauses.size →
    ∃ old, old < before.store.clauses.size ∧
      after.store.clause reference = before.store.clause old
  originals : ∀ old, old < before.store.clauses.size →
    (before.store.clause old).learnt = false → ∃ reference,
      reference < after.store.clauses.size ∧
        after.store.clause reference = before.store.clause old
  free : ∀ atom, before.trail.reason atom = none → after.trail.reason atom = none
  reasons : ∀ literal ∈ before.trail.literals.toList, ∀ cause,
    before.trail.reason literal.atom = some cause → ∃ reason,
      after.trail.reason literal.atom = some reason ∧
        ∀ position, before.Forces position literal cause → after.Forces position literal reason

namespace Inherits

variable {before after : Network} (inherits : before.Inherits after)
include inherits

theorem constraint (index : Nat) :
    after.parities.constraint index = before.parities.constraint index := by
  rw [ParityStore.constraint, inherits.constraints, ParityStore.constraint]

theorem settled {low high index : Nat} :
    after.Settled low high index ↔ before.Settled low high index := by
  simp only [Settled, inherits.constraint, inherits.alike.lists, inherits.alike.assignment]

theorem quiet {bound reference old : Nat}
    (same : after.store.clause reference = before.store.clause old)
    (quiet : before.Quiet bound old) : after.Quiet bound reference := by
  intro first second rest literals
  rw [ClauseStore.literalsEq, same, ← ClauseStore.literalsEq] at literals
  simp only [Guards, inherits.alike.initial, inherits.alike.literals, inherits.alike.level]
  exact quiet first second rest literals

/-- A reference behind the last clause watches nothing. -/
theorem quietEvery {bound : Nat} (quiet : ∀ old, before.Quiet bound old) (reference : Nat) :
    after.Quiet bound reference := by
  by_cases inside : reference < after.store.clauses.size
  · obtain ⟨old, -, same⟩ := inherits.clauses reference inside
    exact inherits.quiet same (quiet old)
  · intro first second rest literals
    rw [ClauseStore.literalsEq, ClauseStore.clauseOutside (Nat.not_lt.1 inside)] at literals
    exact absurd literals (by simp [default, instInhabitedClause.default])

theorem shaped (shaped : before.Shaped) : after.Shaped where
  trail := inherits.alike.coherent shaped.trail inherits.free
  store := inherits.watching
  parities := inherits.listing
  reasons position literal found := by
    rw [inherits.alike.literals] at found
    have old := shaped.reasons position literal found
    cases known : before.trail.reason literal.atom with
    | none =>
        apply justifiedFree (inherits.free _ known)
        rw [inherits.alike.limits, inherits.alike.levelAt]
        exact old.free known
    | some cause =>
        obtain ⟨later, forced⟩ := old.forced known
        obtain ⟨reason, same, forces⟩ :=
          inherits.reasons literal (List.mem_of_getElem? found) cause known
        apply justifiedForced same _ (forces position forced)
        rwa [inherits.alike.limits]
  settled limit member index := by
    rw [inherits.alike.limits] at member
    exact inherits.settled.2 (shaped.settled limit member index)

theorem ready (ready : before.Ready) : after.Ready where
  shaped := inherits.shaped ready.shaped
  quiet := by
    rw [inherits.alike.head]
    exact inherits.quietEvery ready.quiet
  settled index := by
    rw [inherits.alike.head, inherits.alike.literals]
    exact inherits.settled.2 (ready.settled index)

theorem sound {models : (Nat → Bool) → Prop} (sound : before.Sound models) :
    after.Sound models where
  clauses assignment model reference inside := by
    obtain ⟨old, oldInside, same⟩ := inherits.clauses reference inside
    rw [ClauseStore.literalsEq, same]
    exact sound.clauses assignment model old oldInside
  parities assignment model index inside := by
    rw [inherits.constraints] at inside
    rw [inherits.constraint]
    exact sound.parities assignment model index inside
  root assignment model literal member level := by
    rw [inherits.alike.literals] at member
    rw [inherits.alike.level] at level
    exact sound.root assignment model literal member level

theorem complete {models : (Nat → Bool) → Prop} (complete : before.Complete models) :
    after.Complete models := by
  intro assignment satisfied
  refine complete assignment ⟨fun old inside original => ?_, fun index inside => ?_,
    fun literal member level => ?_⟩
  · obtain ⟨reference, newInside, same⟩ := inherits.originals old inside original
    have holds := satisfied.clauses reference newInside (by rw [same]; exact original)
    rwa [ClauseStore.literalsEq, same] at holds
  · rw [← inherits.constraint]
    exact satisfied.parities index (by rwa [inherits.constraints])
  · refine satisfied.root literal ?_ ?_
    · rwa [inherits.alike.literals]
    · rwa [inherits.alike.level]

end Inherits

end Network

end ParitySat
