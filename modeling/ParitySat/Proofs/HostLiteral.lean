/-
This file says which host values are literals, and why the others are not.
-/

import ParitySat.HostLiteral

namespace ParitySat

namespace Literal

theorem natAbsExternal (literal : Literal) : literal.external.natAbs = literal.atom + 1 := by
  unfold external
  split <;> omega

/-- The external form tells the atom and the sign. -/
theorem externalInjective {first second : Literal} (same : first.external = second.external) :
    first = second := by
  cases first with
  | mk firstAtom firstNegated =>
    cases second with
    | mk secondAtom secondNegated =>
      cases firstNegated <;> cases secondNegated <;> simp [external] at same ⊢ <;> omega

theorem externalOfNumber {number : Int} (nonzero : number ≠ 0) :
    external ⟨number.natAbs - 1, decide (number < 0)⟩ = number := by
  simp only [external, decide_eq_true_eq]
  split <;> omega

end Literal

namespace HostLiteral

/-- A host value is no literal for one of these reasons. -/
inductive Refused : HostLiteral → Error → Prop where
  | notAnInteger (text : String) : Refused (.other text) (.invalidLiteral text .notAnInteger)
  | zero : Refused (.integer 0) (.invalidLiteral "0" .zero)
  | outOfRange {value : Int} (outside : value < minimumExternal ∨ maximumExternal < value) :
      Refused (.integer value) (.invalidLiteral (toString value) .outOfRange)

/-- What a host value means, or why it means nothing. -/
inductive Decoded : HostLiteral → Except Error Literal → Prop where
  | refused {value : HostLiteral} {error : Error} (refused : Refused value error) :
      Decoded value (.error error)
  | accepted {literal : Literal}
      (inside : minimumExternal ≤ literal.external ∧ literal.external ≤ maximumExternal) :
      Decoded (.integer literal.external) (.ok literal)

theorem decodeDecoded (value : HostLiteral) : Decoded value value.decode := by
  cases value with
  | other text => exact .refused (.notAnInteger text)
  | integer value =>
      unfold decode
      simp only
      split
      · next zero =>
          subst zero
          exact .refused .zero
      · next nonzero =>
          split
          · next inside =>
              have signed := Literal.externalOfNumber nonzero
              generalize (⟨value.natAbs - 1, decide (value < 0)⟩ : Literal) = literal at signed
              subst signed
              exact .accepted inside
          · next outside => exact .refused (.outOfRange (by omega))

theorem Refused.decode {value : HostLiteral} {error : Error} (refused : Refused value error) :
    value.decode = .error error := by
  cases refused with
  | notAnInteger text => rfl
  | zero => rfl
  | @outOfRange value outside =>
      have range : minimumExternal < 0 ∧ 0 < maximumExternal := by decide
      unfold HostLiteral.decode
      simp only
      rw [if_neg (by omega), if_neg (by omega)]

theorem decodeRefused (value : HostLiteral) (error : Error) :
    value.decode = .error error ↔ Refused value error := by
  refine ⟨fun failed => ?_, Refused.decode⟩
  have decoded := value.decodeDecoded
  rw [failed] at decoded
  cases decoded with
  | refused refused => exact refused

/-- A non-zero integer of the safe range is accepted, and its external form is this integer. -/
theorem decodeInside {value : Int} (nonzero : value ≠ 0)
    (inside : minimumExternal ≤ value ∧ value ≤ maximumExternal) :
    decode (.integer value) = .ok ⟨value.natAbs - 1, decide (value < 0)⟩ := by
  unfold decode
  simp only
  rw [if_neg nonzero, if_pos inside]

end HostLiteral

end ParitySat
