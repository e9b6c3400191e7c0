/-
This file shows which models are presented as solutions, and how a model without gaps is.
-/

import ParitySat.Solution

namespace ParitySat

/-- A list of encoded elements is read as the list of their values. -/
theorem traverseMap {α β γ ε : Type} {read : β → Except ε γ} {write : α → β} {value : α → γ}
    {elements : List α} (each : ∀ element ∈ elements, read (write element) = .ok (value element)) :
    traverse read (elements.map write) = .ok (elements.map value) := by
  induction elements with
  | nil => rfl
  | cons first rest inductionHypothesis =>
      rw [List.forall_mem_cons] at each
      rw [List.map_cons, traverseCons, each.1, inductionHypothesis each.2]
      rfl

theorem ofBytesToByte (values : List Truth) :
    Truth.ofBytes (values.map Truth.toByte) = .ok values := by
  have read : Truth.ofBytes (values.map Truth.toByte) = .ok (values.map id) :=
    traverseMap fun value _ => by rw [Truth.ofByte, Truth.ofByteToByte, id]
  rwa [List.map_id] at read

theorem legalByte (byte : UInt8) : byte ≤ 2 ↔ byte = 0 ∨ byte = 1 ∨ byte = 2 := by
  rw [UInt8.le_iff_toNat_le, ← UInt8.toNat_inj, ← UInt8.toNat_inj, ← UInt8.toNat_inj]
  change byte.toNat ≤ 2 ↔ byte.toNat = 0 ∨ byte.toNat = 1 ∨ byte.toNat = 2
  omega

theorem illegalByte {byte : UInt8} (illegal : 2 < byte) : Truth.ofByte? byte = none := by
  have known : ¬byte ≤ 2 := UInt8.not_le.2 illegal
  rw [legalByte, not_or, not_or] at known
  obtain ⟨notTrue, notFalse, notUnknown⟩ := known
  rw [Truth.ofByte?, if_neg notTrue, if_neg notFalse, if_neg notUnknown]

/-- A model is decoded unless it has an illegal byte, and then the first one is reported. -/
theorem ofBytesFinds (model : List UInt8) :
    match model.find? (2 < ·) with
    | some byte => Truth.ofBytes model = .error (.illegalBackend (.truthValue byte))
    | none => ∃ values, Truth.ofBytes model = .ok values := by
  induction model with
  | nil => exact ⟨[], rfl⟩
  | cons first rest inductionHypothesis =>
      rw [List.find?_cons, Truth.ofBytes, traverseCons]
      by_cases illegal : 2 < first
      · rw [decide_eq_true illegal, Truth.ofByte, illegalByte illegal]
      · have known := (legalByte first).1 (UInt8.not_lt.1 illegal)
        have decoded : ∃ value, Truth.ofByte first = .ok value := by
          rcases known with rfl | rfl | rfl
          · exact ⟨_, rfl⟩
          · exact ⟨_, rfl⟩
          · exact ⟨_, rfl⟩
        obtain ⟨value, decoded⟩ := decoded
        rw [decide_eq_false illegal, decoded]
        simp only
        split at inductionHypothesis
        · next found =>
            rw [Truth.ofBytes] at inductionHypothesis
            rw [inductionHypothesis]
            rfl
        · next found =>
            obtain ⟨values, all⟩ := inductionHypothesis
            rw [Truth.ofBytes] at all
            rw [all]
            exact ⟨value :: values, rfl⟩

theorem solutionFinds (model : List UInt8) (format : SolutionFormat) :
    match model.find? (2 < ·) with
    | some byte => Solution.ofModel model format = .error (.illegalBackend (.truthValue byte))
    | none => ∃ solution, Solution.ofModel model format = .ok solution := by
  have found := ofBytesFinds model
  split at found
  · cases format with
    | dense => rw [Solution.ofModel, DenseSolution.ofModel, found]; rfl
    | raw => rw [Solution.ofModel, RawSolution.ofModel, found]; rfl
  · obtain ⟨values, decoded⟩ := found
    cases format with
    | dense =>
        rw [Solution.ofModel, DenseSolution.ofModel, decoded]
        exact ⟨_, rfl⟩
    | raw =>
        rw [Solution.ofModel, RawSolution.ofModel, decoded]
        exact ⟨_, rfl⟩

namespace Solution

/-- This function presents a total assignment of so many variables. -/
def ofAssignment (count : Nat) (format : SolutionFormat) (assignment : Nat → Bool) : Solution :=
  match format with
  | .dense => .dense ⟨none :: (List.range count).map fun atom => some (assignment atom)⟩
  | .raw => .raw ⟨(List.range count).map fun atom => Literal.external ⟨atom, !assignment atom⟩⟩

theorem signedValuesTotal (count : Nat) (assignment : Nat → Bool) :
    signedValues ((List.range count).map fun atom => some (assignment atom)) =
      (List.range count).map fun atom => Literal.external ⟨atom, !assignment atom⟩ := by
  have numbered : ((List.range count).map fun atom => some (assignment atom)).zipIdx =
      (List.range count).map fun atom => (some (assignment atom), atom) := by
    apply List.ext_getElem (by simp)
    intro index _ _
    simp
  rw [signedValues, numbered, List.filterMap_map]
  exact congrFun List.filterMap_eq_map' _

/-- The bytes of a total assignment are presented without a failure. -/
theorem ofModelTotal (count : Nat) (assignment : Nat → Bool) (format : SolutionFormat) :
    ofModel (((List.range count).map fun atom => some (assignment atom)).map Truth.toByte) format =
      .ok (ofAssignment count format assignment) := by
  cases format with
  | dense =>
      rw [ofModel, DenseSolution.ofModel, ofBytesToByte]
      rfl
  | raw =>
      rw [ofModel, RawSolution.ofModel, ofBytesToByte]
      simp only [Except.map, signedValuesTotal]
      rfl

end Solution

end ParitySat
