/-
This file shows that every literal of a variable that a host can mention is accepted by a session,
but for the one whose number is too large by one.
-/

import ParitySat.Proofs.Session.Rejection

namespace ParitySat

open Engine

/-- The host is handed the external form of a literal. -/
def Literal.toHost (literal : Literal) : HostLiteral :=
  .integer literal.external

namespace HostLiteral

/-- Some host value is a literal of this atom. -/
def Mentionable (atom : Nat) : Prop :=
  ∃ (value : HostLiteral) (literal : Literal), value.decode = .ok literal ∧ literal.atom = atom

theorem decodeToHost {literal : Literal}
    (inside : minimumExternal ≤ literal.external ∧ literal.external ≤ maximumExternal) :
    literal.toHost.decode = .ok literal := by
  have nonzero : literal.external ≠ 0 := by
    have atom := literal.natAbsExternal
    omega
  rw [Literal.toHost, decodeInside nonzero inside]
  exact congrArg Except.ok (Literal.externalInjective (Literal.externalOfNumber nonzero))

/-- A negation reaches one further than a positive literal. -/
theorem mentionableIff (atom : Nat) : Mentionable atom ↔ atom < 1073741824 := by
  have range : minimumExternal = -1073741824 ∧ maximumExternal = 1073741823 := by decide
  constructor
  · rintro ⟨value, literal, accepted, rfl⟩
    have decoded := value.decodeDecoded
    rw [accepted] at decoded
    cases decoded with
    | accepted inside =>
        have number := literal.natAbsExternal
        omega
  · intro small
    refine ⟨_, _, @decodeToHost ⟨atom, true⟩ ?_, rfl⟩
    change minimumExternal ≤ -((atom : Int) + 1) ∧ -((atom : Int) + 1) ≤ maximumExternal
    omega

/-- A literal of a variable that a host can mention is accepted unless it is out of range by one. -/
theorem decodeReadmitted {literal : Literal} (mentionable : Mentionable literal.atom) :
    literal.toHost.decode =
      if literal.external = 1073741824 then .error (.invalidLiteral "1073741824" .outOfRange)
      else .ok literal := by
  have range : minimumExternal = -1073741824 ∧ maximumExternal = 1073741823 := by decide
  have small := (mentionableIff literal.atom).1 mentionable
  have number := literal.natAbsExternal
  split
  · next beyond =>
      rw [Literal.toHost, beyond]
      exact (Refused.outOfRange (.inr (by decide))).decode
  · next inside => exact decodeToHost (by omega)

theorem externalNegate (literal : Literal) : literal.negate.external = -literal.external := by
  cases literal with
  | mk atom negated => cases negated <;> simp [Literal.negate, Literal.external]

/-- The negation of an accepted literal is accepted unless the literal is the least one. -/
theorem decodeNegation {value : HostLiteral} {literal : Literal}
    (accepted : value.decode = .ok literal) :
    literal.negate.toHost.decode =
      if literal.external = -1073741824 then .error (.invalidLiteral "1073741824" .outOfRange)
      else .ok literal.negate := by
  have readmitted := @decodeReadmitted literal.negate ⟨value, literal, accepted, rfl⟩
  rw [readmitted, externalNegate]
  exact ite_congr (propext ⟨fun _ => by omega, fun _ => by omega⟩) (fun _ => rfl) fun _ => rfl

end HostLiteral

open HostLiteral (Mentionable)

namespace Intake

variable {values : List HostLiteral}

theorem clauseMentionable {literals : List Literal} (decoded : clause values = .ok literals) :
    ∀ literal ∈ literals, Mentionable literal.atom := by
  intro literal member
  obtain ⟨value, -, read⟩ := traverseMember decoded literal member
  exact ⟨value, literal, read, rfl⟩

theorem parityMentionable {atoms : List Nat} (decoded : parity values = .ok atoms) :
    ∀ atom ∈ atoms, Mentionable atom := by
  intro atom member
  obtain ⟨value, -, read⟩ := traverseMember decoded atom member
  unfold parityAtom at read
  cases known : value.decode with
  | error error =>
      rw [known] at read
      cases read
  | ok literal =>
      rw [known] at read
      simp only at read
      split at read
      · cases read
      · exact ⟨value, literal, known, Except.ok.inj read⟩

section Emitted

variable {literals : List Literal}
  (accepted : ∀ literal ∈ literals, literal.toHost.decode = .ok literal)
include accepted

theorem clauseToHost : clause (literals.map Literal.toHost) = .ok literals := by
  have read : clause (literals.map Literal.toHost) = .ok (literals.map id) := traverseMap accepted
  rwa [List.map_id] at read

theorem parityToHost (positive : ∀ literal ∈ literals, literal.negated = false) :
    parity (literals.map Literal.toHost) = .ok (literals.map Literal.atom) := by
  refine traverseMap fun literal member => ?_
  rw [parityAtom, accepted literal member]
  simp only [positive literal member, Bool.false_eq_true, if_false]

theorem assumptionsToHost {atomCount : Nat}
    (existing : ∀ literal ∈ literals, literal.atom < atomCount) :
    assumptions atomCount (literals.map Literal.toHost) = .ok literals := by
  have read : assumptions atomCount (literals.map Literal.toHost) = .ok (literals.map id) := by
    refine traverseMap fun literal member => ?_
    rw [assumption, accepted literal member]
    simp only [existing literal member, if_true, id]
  rwa [List.map_id] at read

end Emitted

end Intake

/-- A ban has a literal for each atom that is selected without negation. -/
theorem blockingMember {selected : List Literal} {model : Array UInt8} {literal : Literal}
    (member : literal ∈ blockingClause selected model) :
    ∃ chosen ∈ selected, chosen.negated = false ∧ chosen.atom = literal.atom := by
  obtain ⟨chosen, kept, rfl⟩ := List.mem_map.1 member
  obtain ⟨listed, positive⟩ := List.mem_filter.1 kept
  exact ⟨chosen, listed, by simpa using positive, rfl⟩

/-- A ban is over positive literals that the host has passed, so it is never out of range. -/
theorem blockingReadmitted {values : List HostLiteral} {selected : List Literal}
    (decoded : Intake.clause values = .ok selected) (model : Array UInt8) :
    ∀ literal ∈ blockingClause selected model, literal.toHost.decode = .ok literal := by
  intro literal member
  obtain ⟨chosen, listed, positive, same⟩ := blockingMember member
  obtain ⟨value, -, read⟩ := traverseMember decoded chosen listed
  have range := value.decodeDecoded
  rw [read] at range
  cases range with
  | accepted inside =>
      have bounds : HostLiteral.minimumExternal = -1073741824 ∧
        HostLiteral.maximumExternal = 1073741823 := by decide
      have number := literal.natAbsExternal
      rw [Literal.external, positive, if_neg Bool.false_ne_true] at inside
      exact HostLiteral.decodeToHost (by omega)

namespace Session

section TakesBack

variable {β : Type} [Backend β]

/-- The calls accept the literals, and the backend sees them as they were emitted. -/
structure TakesBack (session : Session β) (literals : List Literal) : Prop where
  clause : (addClause (literals.map Literal.toHost)).on session =
    (.ok (), { session with backend := submit literals session.backend })
  parity : (∀ literal ∈ literals, literal.negated = false) → ∀ odd,
    (addParity (literals.map Literal.toHost) odd).on session =
      (.ok (), { session with
        backend := submitParity (literals.map Literal.atom) odd session.backend })
  assumptions : (∀ literal ∈ literals, literal.atom < session.atomCount) → ∀ environment,
    (solve environment (literals.map Literal.toHost)).on session =
      (answer environment literals).on session
  selection : ∀ environment maximum format,
    (enumerate environment maximum (literals.map Literal.toHost) format).on session =
      (collect environment maximum format literals).on session

theorem takesBack (session : Session β) {literals : List Literal}
    (accepted : ∀ literal ∈ literals, literal.toHost.decode = .ok literal) :
    session.TakesBack literals where
  clause := by rw [onAddClause, Intake.clauseToHost accepted]
  parity positive odd := by
    rw [addParity, Call.onBind, Call.onLift, Intake.parityToHost accepted positive]
    rfl
  assumptions existing environment := by
    rw [onSolve, Call.onBind, Call.onLift, Intake.assumptionsToHost accepted existing]
  selection environment maximum format := by
    rw [onEnumerateDecoded, Call.onBind, Call.onLift, Intake.clauseToHost accepted]

end TakesBack

end Session

end ParitySat
