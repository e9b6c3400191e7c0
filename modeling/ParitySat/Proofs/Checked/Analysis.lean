/-
This file shows that the analysis of a conflict finds its implication point before the trail ends.
-/

import ParitySat.Proofs.Checked.Propagation
import ParitySat.Proofs.Engine.Analysis

namespace ParitySat

/-- The reason refers to a stored constraint. -/
def Reason.Stored (network : Network) : Reason → Prop
  | .clause reference => reference < network.store.clauses.size
  | .parity index => index < network.parities.constraints.size

namespace Checked

/-- This function breaks the run off unless the constraint exists and its atoms do. -/
def stored (network : Network) : Reason → Except Fault Unit
  | .clause reference => within network.store.clauses reference
  | .parity index => do
    within network.parities.constraints index
    each (within network.trail.atoms) (network.parities.constraint index).atoms

def explain (network : Network) (implied : Option Nat) (reason : Reason) :
    Except Fault (List Literal) := do
  stored network reason
  return network.explain implied reason

def consider (trail : Trail) (exploration : Exploration) (literal : Literal) :
    Except Fault Exploration := do
  within exploration.marks literal.atom
  within trail.atoms literal.atom
  return exploration.consider trail literal

/-- The walk may neither pass the first literal of the trail nor reach a literal without a reason
while others are pending. -/
def resolve (network : Network) : Nat → Exploration → Except Fault (Literal × Exploration)
  | 0, _ => .error .exhaustedTrail
  | index + 1, exploration => do
    within network.trail.literals index
    let literal := network.trail.literals.getD index default
    within exploration.marks literal.atom
    if exploration.marks.getD literal.atom false then
      let unmarked := exploration.unmark literal.atom
      match unmarked.pending with
      | 0 => .error .overflow
      | 1 => return (literal, unmarked)
      | pending + 2 =>
        within network.trail.atoms literal.atom
        match network.trail.reason literal.atom with
        | none => .error .unexplained
        | some reason =>
          let literals ← explain network (some literal.atom) reason
          let considered ← literals.foldlM (consider network.trail)
            { unmarked with pending := pending + 1 }
          resolve network index considered
    else resolve network index exploration

/-- The level to return to is the one of a literal that has to be found among the lower ones. -/
def assemble (trail : Trail) (point : Literal) (exploration : Exploration) :
    Except Fault Analysis := do
  each (fun literal => within trail.atoms literal.atom) (point :: exploration.lower.toList)
  if exploration.lower.isEmpty then return Analysis.assemble trail point exploration
  else
    within exploration.lower
      (Analysis.lastMaximum (fun literal => trail.atomLevel literal.atom)
        exploration.lower.toList 0 0 0)
    return Analysis.assemble trail point exploration

def analyze (network : Network) (marks : Array Bool) (conflict : Reason) :
    Except Fault (Option Analysis × Array Bool) := do
  let literals ← explain network none conflict
  let start ← literals.foldlM (consider network.trail) ⟨marks, 0, #[], #[]⟩
  let (point, exploration) ← resolve network network.trail.literals.size start
  let analysis ← assemble network.trail point exploration
  each (fun literal => within exploration.marks literal.atom) exploration.lower.toList
  return (some analysis, exploration.clearLower)

/-- Every atom has a mark, and the lower literals are literals of existing atoms. -/
structure Covered (trail : Trail) (exploration : Exploration) : Prop where
  width : exploration.marks.size = trail.atoms.size
  lower : ∀ literal ∈ exploration.lower.toList, literal.atom < trail.atoms.size

theorem Covered.consider {trail : Trail} {exploration : Exploration}
    (covered : Covered trail exploration) {literal : Literal}
    (inside : literal.atom < trail.atoms.size) :
    Covered trail (exploration.consider trail literal) := by
  unfold Exploration.consider
  simp only
  split
  · split
    · exact ⟨Array.size_setIfInBounds.trans covered.width, covered.lower⟩
    · refine ⟨Array.size_setIfInBounds.trans covered.width, fun other member => ?_⟩
      rw [Array.toList_push, List.mem_append, List.mem_singleton] at member
      rcases member with old | rfl
      · exact covered.lower other old
      · exact inside
  · exact covered

theorem Covered.considerAll {trail : Trail} {literals : List Literal}
    (inside : ∀ literal ∈ literals, literal.atom < trail.atoms.size) {exploration : Exploration}
    (covered : Covered trail exploration) :
    Covered trail (exploration.considerAll trail literals) := by
  unfold Exploration.considerAll
  induction literals generalizing exploration with
  | nil => exact covered
  | cons first rest inductionHypothesis =>
      exact inductionHypothesis
        (fun literal member => inside literal (List.mem_cons_of_mem _ member))
        (covered.consider (inside first List.mem_cons_self))

theorem considerAllSafe {trail : Trail} {literals : List Literal}
    (inside : ∀ literal ∈ literals, literal.atom < trail.atoms.size) {exploration : Exploration}
    (covered : Covered trail exploration) :
    literals.foldlM (consider trail) exploration =
      .ok (exploration.considerAll trail literals) := by
  refine foldMet (Covered trail) (fun state holds literal member => ?_) covered
  have known := inside literal member
  refine ⟨?_, holds.consider known⟩
  rw [consider, withinMet (holds.width ▸ known), okBind, withinMet known, okBind, pureOk]

section Network

variable {network : Network} (shaped : network.Shaped)
include shaped

theorem explainInside {implied : Option Nat} {reason : Reason} :
    ∀ literal ∈ network.explain implied reason, literal.atom < network.trail.atoms.size := by
  intro literal member
  cases reason with
  | clause reference =>
      have listed : literal ∈ network.store.literals reference := (List.mem_filter.1 member).1
      have stored := ClauseStore.insideOfMember listed
      exact (shaped.store.proper reference stored).inside literal listed
  | parity index =>
      obtain ⟨atom, listed, rfl⟩ := List.mem_map.1 member
      exact shaped.parities.inside index atom (List.mem_filter.1 listed).1

theorem storedSafe {reason : Reason} (known : reason.Stored network) :
    stored network reason = .ok () := by
  cases reason with
  | clause reference => exact withinMet known
  | parity index =>
      rw [stored, withinMet known, okBind]
      exact eachMet fun atom member => withinMet (shaped.parities.inside index atom member)

theorem explainSafe {reason : Reason} (known : reason.Stored network) (implied : Option Nat) :
    explain network implied reason = .ok (network.explain implied reason) := by
  rw [explain, storedSafe shaped known, okBind, pureOk]

omit shaped in
theorem forcesStored {position : Nat} {literal : Literal} {reason : Reason}
    (forced : network.Forces position literal reason) : reason.Stored network := by
  cases reason with
  | clause reference =>
      obtain ⟨rest, same, -⟩ := forced
      exact ClauseStore.insideOfCons same
  | parity index => exact ParityStore.insideOfMember forced.1

omit shaped in
theorem violatedStored {conflict : Reason} (violated : network.Violated conflict) :
    conflict.Stored network := by
  cases conflict with
  | clause reference => exact violated.1
  | parity index =>
      refine Nat.lt_of_not_le fun outside => ?_
      have wrong := violated.2
      rw [ParityStore.constraintOutside outside] at wrong
      contradiction

/-- A walk that finds a point meets no fault on its way. -/
theorem resolveSafe {position : Nat} (inside : position ≤ network.trail.literals.size)
    {exploration : Exploration} (covered : Covered network.trail exploration) {point : Literal}
    {final : Exploration}
    (found : Exploration.resolve network position exploration = (some point, final)) :
    resolve network position exploration = .ok (point, final) ∧
      point.atom < network.trail.atoms.size ∧ Covered network.trail final := by
  induction position generalizing exploration with
  | zero => cases found
  | succ index inductionHypothesis =>
      have below : index < network.trail.literals.size := inside
      obtain ⟨literal, current⟩ : ∃ literal, network.trail.literals.getD index default = literal :=
        ⟨_, rfl⟩
      have listed : network.trail.literals.toList[index]? = some literal := by
        rw [Array.getElem?_toList, ← current, Array.getElem?_eq_getElem below]
        simp [below]
      have known : literal.atom < network.trail.atoms.size :=
        shaped.trail.inside (List.mem_of_getElem? listed)
      have unmarked (pending : Nat) :
          Covered network.trail { exploration.unmark literal.atom with pending } :=
        ⟨Array.size_setIfInBounds.trans covered.width, covered.lower⟩
      rw [Exploration.resolve] at found
      rw [resolve, withinMet below, okBind]
      simp only [current] at found ⊢
      rw [withinMet (covered.width ▸ known), okBind]
      split at found
      · next marked =>
          rw [if_pos marked]
          generalize (exploration.unmark literal.atom).pending = count at found ⊢
          rcases count with _ | _ | pending
          · cases found
          · obtain ⟨same, rfl⟩ := Prod.mk.inj found
            obtain rfl := Option.some.inj same
            exact ⟨rfl, known, unmarked _⟩
          · -- Others are pending, and the walk has found its point, so this literal has a reason.
            simp only at found ⊢
            rw [withinMet known, okBind]
            cases cause : network.trail.reason literal.atom with
            | none =>
                rw [cause] at found
                cases found
            | some reason =>
                rw [cause] at found
                have forced := ((shaped.reasons index literal listed).forced cause).2
                have explained : ∀ other ∈ network.explain (some literal.atom) reason,
                    other.atom < network.trail.atoms.size := explainInside shaped
                simp only
                rw [explainSafe shaped (forcesStored forced), okBind,
                  considerAllSafe explained (unmarked _), okBind]
                exact inductionHypothesis (Nat.le_of_lt below)
                  ((unmarked _).considerAll explained) found
      · next absent =>
          rw [if_neg absent]
          exact inductionHypothesis (Nat.le_of_lt below) covered found

omit shaped in
theorem assembleSafe {trail : Trail} {point : Literal} {exploration : Exploration}
    (known : point.atom < trail.atoms.size) (covered : Covered trail exploration) :
    assemble trail point exploration = .ok (Analysis.assemble trail point exploration) := by
  have literals : each (fun literal => within trail.atoms literal.atom)
      (point :: exploration.lower.toList) = .ok () := by
    refine eachMet fun literal member => withinMet ?_
    rcases List.mem_cons.1 member with rfl | lower
    · exact known
    · exact covered.lower literal lower
  rw [assemble, literals, okBind]
  split
  · rfl
  · next filled =>
      rw [Array.isEmpty_iff_size_eq_zero] at filled
      obtain ⟨inside, -⟩ := Analysis.lastMaximumInside
        (fun literal => trail.atomLevel literal.atom) (Nat.pos_of_ne_zero filled)
      rw [withinMet inside, okBind, pureOk]

theorem analyzeSafe {marks : Array Bool} (width : marks.size = network.trail.atoms.size)
    {conflict : Reason} (known : conflict.Stored network) {analysis : Analysis}
    (found : (network.analyze marks conflict).1 = some analysis) :
    analyze network marks conflict = .ok (network.analyze marks conflict) := by
  have explained : ∀ literal ∈ network.explain none conflict,
      literal.atom < network.trail.atoms.size := explainInside shaped
  have empty : Covered network.trail ⟨marks, 0, #[], #[]⟩ := ⟨width, by simp⟩
  rw [analyze, explainSafe shaped known, okBind, considerAllSafe explained empty, okBind]
  have started := empty.considerAll explained
  unfold Network.analyze at found ⊢
  simp only at found ⊢
  generalize Exploration.considerAll network.trail ⟨marks, 0, #[], #[]⟩
    (network.explain none conflict) = start at found started ⊢
  generalize resolved : Exploration.resolve network network.trail.literals.size start =
    outcome at found ⊢
  obtain ⟨point, exploration⟩ := outcome
  cases point with
  | none => cases found
  | some point =>
      obtain ⟨same, inside, covered⟩ := resolveSafe shaped (Nat.le_refl _) started resolved
      have lower : each (fun literal => within exploration.marks literal.atom)
          exploration.lower.toList = .ok () :=
        eachMet fun literal member => withinMet (covered.width ▸ covered.lower literal member)
      rw [same, okBind]
      simp only
      rw [assembleSafe inside covered, okBind, lower, okBind, pureOk]

end Network

end Checked

end ParitySat
