/-
This file describes what a parity constraint says about a partial assignment.
-/

import ParitySat.Parity

namespace ParitySat

/-- An undetermined atom counts as false. -/
def Truth.total (value : Nat → Truth) (atom : Nat) : Bool :=
  value atom == some true

namespace ParityConstraint

/-- Only the values of the listed atoms matter. -/
theorem oddnessCongr {first second : Nat → Bool} {atoms : List Nat}
    (agree : ∀ atom ∈ atoms, first atom = second atom) :
    oddness first atoms = oddness second atoms := by
  induction atoms with
  | nil => rfl
  | cons atom rest inductionHypothesis =>
      rw [oddness, oddness, agree atom List.mem_cons_self,
        inductionHypothesis fun other member => agree other (List.mem_cons_of_mem _ member)]

/-- A constraint holds under assignments that agree on its atoms, or under neither. -/
theorem holdsCongr {first second : Nat → Bool} {constraint : ParityConstraint}
    (agree : ∀ atom ∈ constraint.atoms, first atom = second atom) :
    constraint.holds first = constraint.holds second := by
  rw [holds, oddnessCongr agree, holds]

theorem memberToggleOther {atom other : Nat} (different : other ≠ atom) (atoms : List Nat) :
    other ∈ toggle atom atoms ↔ other ∈ atoms := by
  induction atoms with
  | nil => simp [toggle, different]
  | cons first rest inductionHypothesis =>
      rw [toggle]
      by_cases below : atom < first
      · simp [below, different]
      · by_cases same : atom = first
        · subst same
          simp [different]
        · simp [below, same, inductionHypothesis]

theorem memberToggle {atom other : Nat} {atoms : List Nat} (member : other ∈ toggle atom atoms) :
    other = atom ∨ other ∈ atoms := by
  by_cases same : other = atom
  · exact Or.inl same
  · exact Or.inr ((memberToggleOther same atoms).1 member)

theorem memberNormalize {atom : Nat} {atoms : List Nat} (member : atom ∈ normalize atoms) :
    atom ∈ atoms := by
  induction atoms with
  | nil => exact member
  | cons first rest inductionHypothesis =>
      rcases memberToggle member with rfl | inRest
      · exact List.mem_cons_self
      · exact List.mem_cons_of_mem _ (inductionHypothesis inRest)

theorem toggleAscending {atom : Nat} {atoms : List Nat} (ascending : atoms.Pairwise (· < ·)) :
    (toggle atom atoms).Pairwise (· < ·) := by
  induction atoms with
  | nil => simp [toggle]
  | cons first rest inductionHypothesis =>
      obtain ⟨lowest, restAscending⟩ := List.pairwise_cons.1 ascending
      rw [toggle]
      split
      · next below =>
          refine List.pairwise_cons.2 ⟨fun other member => ?_, ascending⟩
          rcases List.mem_cons.1 member with rfl | inRest
          · exact below
          · exact Nat.lt_trans below (lowest other inRest)
      · split
        · exact restAscending
        · refine List.pairwise_cons.2 ⟨fun other member => ?_, inductionHypothesis restAscending⟩
          rcases memberToggle member with rfl | inRest
          · omega
          · exact lowest other inRest

theorem normalizeAscending (atoms : List Nat) : (normalize atoms).Pairwise (· < ·) := by
  induction atoms with
  | nil => exact List.Pairwise.nil
  | cons first rest inductionHypothesis => exact toggleAscending inductionHypothesis

/-- Repeated atoms cancel. -/
theorem normalizeNodup (atoms : List Nat) : (normalize atoms).Nodup :=
  (normalizeAscending atoms).imp fun below => Nat.ne_of_lt below

/-- Two assignments that differ on one atom at most differ there exactly if the oddness differs. -/
theorem oddnessDiffer (first second : Nat → Bool) {atoms : List Nat} (distinct : atoms.Nodup)
    {spare : Nat} (member : spare ∈ atoms)
    (agree : ∀ atom ∈ atoms, atom ≠ spare → first atom = second atom) :
    (oddness first atoms != oddness second atoms) = (first spare != second spare) := by
  induction atoms with
  | nil => exact absurd member List.not_mem_nil
  | cons atom rest inductionHypothesis =>
      obtain ⟨absent, restDistinct⟩ := List.nodup_cons.1 distinct
      rw [oddness, oddness]
      by_cases same : atom = spare
      · subst same
        have tail : oddness first rest = oddness second rest := oddnessCongr fun other listed =>
          agree other (List.mem_cons_of_mem _ listed) fun equal => absent (equal ▸ listed)
        rw [tail]
        cases first atom <;> cases second atom <;> simp
      · have listed : spare ∈ rest := (List.mem_cons.1 member).resolve_left (Ne.symm same)
        rw [agree atom List.mem_cons_self same]
        have tail := inductionHypothesis restDistinct listed fun other inside =>
          agree other (List.mem_cons_of_mem _ inside)
        rw [← tail]
        cases second atom <;> simp

theorem oddnessPerm (assignment : Nat → Bool) {first second : List Nat}
    (permuted : List.Perm first second) :
    oddness assignment first = oddness assignment second := by
  induction permuted with
  | nil => rfl
  | cons atom _ inductionHypothesis => rw [oddness, oddness, inductionHypothesis]
  | swap first second rest =>
      simp only [oddness]
      cases assignment first <;> cases assignment second <;> simp
  | trans _ _ firstHypothesis secondHypothesis => exact firstHypothesis.trans secondHypothesis

/-- This predicate says which status fits the listed atoms, after an odd or even start. -/
def Fits (value : Nat → Truth) (parity odd : Bool) (atoms : List Nat) : Status → Prop
  | .undecided =>
    ((∀ atom ∈ atoms, value atom ≠ none) ∧
      (odd != oddness (Truth.total value) atoms) = parity) ∨
      ∃ first second others, List.Perm atoms (first :: second :: others) ∧
        value first = none ∧ value second = none
  | .forces literal =>
    value literal.atom = none ∧
      literal.negated = ((odd != oddness (Truth.total value) atoms) == parity) ∧
      ∃ others, List.Perm atoms (literal.atom :: others) ∧ ∀ atom ∈ others, value atom ≠ none
  | .violated =>
    (∀ atom ∈ atoms, value atom ≠ none) ∧
      (odd != oddness (Truth.total value) atoms) ≠ parity

/-- The order of the atoms does not matter. -/
theorem fitsPerm {value : Nat → Truth} {parity odd : Bool} {first second : List Nat}
    (permuted : List.Perm first second) {status : Status}
    (fits : Fits value parity odd second status) : Fits value parity odd first status := by
  have same := oddnessPerm (Truth.total value) permuted
  cases status with
  | undecided =>
      rcases fits with ⟨all, equal⟩ | ⟨one, two, others, pair, free⟩
      · refine Or.inl ⟨fun atom member => all atom (permuted.mem_iff.1 member), ?_⟩
        rwa [same]
      · exact Or.inr ⟨one, two, others, permuted.trans pair, free⟩
  | forces literal =>
      obtain ⟨unknown, sign, others, single, known⟩ := fits
      refine ⟨unknown, ?_, others, permuted.trans single, known⟩
      rwa [same]
  | violated =>
      obtain ⟨all, differs⟩ := fits
      refine ⟨fun atom member => all atom (permuted.mem_iff.1 member), ?_⟩
      rwa [same]

/-- A known atom only changes the count. -/
theorem fitsKnown {value : Nat → Truth} {parity odd : Bool} {atom : Nat} {atoms : List Nat}
    {truth : Bool} (known : value atom = some truth) {status : Status}
    (fits : Fits value parity (odd != truth) atoms status) :
    Fits value parity odd (atom :: atoms) status := by
  have count : ((odd != truth) != oddness (Truth.total value) atoms) =
      (odd != oddness (Truth.total value) (atom :: atoms)) := by
    simp only [oddness, Truth.total, known]
    cases truth <;> simp
  have more (others : List Nat) (all : ∀ other ∈ others, value other ≠ none) :
      ∀ other ∈ atom :: others, value other ≠ none := by
    intro other member
    rcases List.mem_cons.1 member with rfl | listed
    · simp [known]
    · exact all other listed
  cases status with
  | undecided =>
      rcases fits with ⟨all, equal⟩ | ⟨one, two, others, pair, free⟩
      · exact Or.inl ⟨more atoms all, by rwa [← count]⟩
      · refine Or.inr ⟨one, two, atom :: others, ?_, free⟩
        exact (pair.cons atom).trans ((List.Perm.swap one atom _).trans
          ((List.Perm.swap two atom _).cons one))
  | forces literal =>
      obtain ⟨unknown, sign, others, single, all⟩ := fits
      refine ⟨unknown, by rwa [← count], atom :: others, ?_, more others all⟩
      exact (single.cons atom).trans (List.Perm.swap literal.atom atom _)
  | violated =>
      obtain ⟨all, differs⟩ := fits
      exact ⟨more atoms all, by rwa [← count]⟩

theorem scanKnown {value : Nat → Truth} {parity odd : Bool} {atom : Nat} {truth : Bool}
    (known : value atom = some truth) (rest : List Nat) (free : Option Nat) :
    scan value parity (atom :: rest) odd free = scan value parity rest (odd != truth) free := by
  rw [scan, known]
  cases truth <;> simp

/-- A scan counts the true atoms and stops at the second undetermined one. -/
theorem scanFits (value : Nat → Truth) (parity : Bool) (atoms : List Nat) (odd : Bool)
    (free : Option Nat) (unknown : ∀ atom, free = some atom → value atom = none) :
    Fits value parity odd (free.toList ++ atoms) (scan value parity atoms odd free) := by
  induction atoms generalizing odd free with
  | nil =>
      cases free with
      | none =>
          rw [scan]
          split
          · next differs => exact ⟨by simp, by simpa [oddness] using differs⟩
          · next equal => exact Or.inl ⟨by simp, by simpa [oddness] using equal⟩
      | some spare =>
          have own := unknown spare rfl
          rw [scan]
          exact ⟨own, by simp [oddness, Truth.total, own], [], by simp, by simp⟩
  | cons atom rest inductionHypothesis =>
      cases known : value atom with
      | none =>
          rw [scan, known]
          cases free with
          | some spare =>
              simp only [Option.isSome_some, if_true]
              exact Or.inr ⟨spare, atom, rest, List.Perm.refl _, unknown spare rfl, known⟩
          | none =>
              simp only [Option.isSome_none, Bool.false_eq_true, if_false]
              apply inductionHypothesis odd (some atom)
              rintro other ⟨⟩
              exact known
      | some truth =>
          rw [scanKnown known]
          have tail := inductionHypothesis (odd != truth) free unknown
          exact fitsPerm List.perm_middle (fitsKnown known tail)

/-- A forced literal is the only undetermined one, and it restores the parity. -/
structure Forced (value : Nat → Truth) (constraint : ParityConstraint) (literal : Literal) :
    Prop where
  member : literal.atom ∈ constraint.atoms
  unknown : value literal.atom = none
  others : ∀ atom ∈ constraint.atoms, atom ≠ literal.atom → value atom ≠ none
  restores : ∀ assignment : Nat → Bool, literal.holds assignment = true →
    (∀ atom ∈ constraint.atoms, atom ≠ literal.atom → value atom = some (assignment atom)) →
    constraint.holds assignment = true

/-- The status tells an open, a unit and a violated constraint apart. -/
theorem statusSpec (value : Nat → Truth) {constraint : ParityConstraint}
    (distinct : constraint.atoms.Nodup) :
    match constraint.status value with
    | .undecided =>
      ((∀ atom ∈ constraint.atoms, value atom ≠ none) ∧
        constraint.holds (Truth.total value) = true) ∨
        ∃ first ∈ constraint.atoms, ∃ second ∈ constraint.atoms, first ≠ second ∧
          value first = none ∧ value second = none
    | .forces literal => Forced value constraint literal
    | .violated =>
      (∀ atom ∈ constraint.atoms, value atom ≠ none) ∧
        constraint.holds (Truth.total value) = false := by
  have fits := scanFits value constraint.parity constraint.atoms false none (by simp)
  rw [Option.toList_none, List.nil_append, ← status] at fits
  revert fits
  cases constraint.status value with
  | undecided =>
      rintro (⟨all, same⟩ | ⟨first, second, others, pair, free⟩)
      · exact Or.inl ⟨all, by simpa [holds] using same⟩
      · have nodup := pair.nodup_iff.1 distinct
        refine Or.inr ⟨first, pair.mem_iff.2 (by simp), second, pair.mem_iff.2 (by simp), ?_, free⟩
        intro same
        simp [same] at nodup
  | forces literal =>
      rintro ⟨unknown, sign, others, single, known⟩
      have member : literal.atom ∈ constraint.atoms := single.mem_iff.2 List.mem_cons_self
      refine ⟨member, unknown, ?_, ?_⟩
      · intro atom listed different
        exact known atom ((List.mem_cons.1 (single.mem_iff.1 listed)).resolve_left different)
      · intro assignment isTrue agree
        have differ := oddnessDiffer assignment (Truth.total value) distinct
          member (by
            intro atom listed different
            rw [Truth.total, agree atom listed different]
            cases assignment atom <;> rfl)
        have own : Truth.total value literal.atom = false := by simp [Truth.total, unknown]
        rw [own] at differ
        rw [Literal.holds, sign] at isTrue
        rw [holds, beq_iff_eq]
        revert differ isTrue
        cases oddness assignment constraint.atoms <;> cases assignment literal.atom <;>
          cases oddness (Truth.total value) constraint.atoms <;> cases constraint.parity <;> simp
  | violated =>
      rintro ⟨all, differs⟩
      exact ⟨all, by simpa [holds] using differs⟩

end ParityConstraint

end ParitySat
