/-
This file shows that a number is read back from any of its decimal spellings.
-/

import Mathlib.Data.Nat.Digits.Defs
import ParitySat.Numeral.Integer
import ParitySat.Proofs.Text.Blank

namespace ParitySat.Numeral

/-- A spelling has one digit or more, perhaps zeros in front, and perhaps a sign. -/
inductive Spells : List Char → Int → Prop where
  | plain {digits : List Char} (some : digits ≠ [])
      (decimal : ∀ digit ∈ digits, isDigit digit = true) :
      Spells digits (digitsValue digits)
  | plus {digits : List Char} (some : digits ≠ [])
      (decimal : ∀ digit ∈ digits, isDigit digit = true) :
      Spells ('+' :: digits) (digitsValue digits)
  | minus {digits : List Char} (some : digits ≠ [])
      (decimal : ∀ digit ∈ digits, isDigit digit = true) :
      Spells ('-' :: digits) (-digitsValue digits)

theorem naturalDigits {digits : List Char} (some : digits ≠ [])
    (decimal : ∀ digit ∈ digits, isDigit digit = true) :
    natural? digits = .some (digitsValue digits) := by
  have nonempty : digits.isEmpty = false := by simpa using some
  rw [natural?, nonempty, List.all_eq_true.2 decimal]
  rfl

/-- A sign is no digit. -/
theorem Spells.integer {token : List Char} {number : Int} (spells : Spells token number) :
    integer? token = some number := by
  cases spells with
  | @plain digits some decimal =>
      have read := naturalDigits some decimal
      unfold integer?
      split
      · exact absurd (decimal '-' List.mem_cons_self) (by decide)
      · exact absurd (decimal '+' List.mem_cons_self) (by decide)
      · rw [read]
        rfl
  | plus some decimal => rw [integer?, naturalDigits some decimal]; rfl
  | minus some decimal => rw [integer?, naturalDigits some decimal]; rfl

/-- The integers of 64 bits with a sign. -/
def Signed64 (number : Int) : Prop :=
  -signedBound ≤ number ∧ number < signedBound

theorem Spells.signed64 {token : List Char} {number : Int} (spells : Spells token number)
    (bounded : Signed64 number) : signed64? token = some number := by
  rw [signed64?, spells.integer]
  simp [bounded.1, bounded.2]

theorem signed64Bounded {characters : List Char} {number : Int}
    (read : signed64? characters = some number) : Signed64 number := by
  obtain ⟨-, bounds⟩ := Option.filter_eq_some_iff.1 read
  simpa [Signed64] using bounds

/-- A size that has 64 bits is left alone. -/
theorem magnitudeInside {number : Int} (small : Signed64 number.natAbs) :
    magnitude64 number = number.natAbs := by
  obtain ⟨low, high⟩ := small
  unfold signedBound at low high
  exact Int.bmod_eq_of_le (by unfold unsignedBound; omega) (by unfold unsignedBound; omega)

/-- Wrapping around only changes the sign. -/
theorem natAbsMagnitude {number : Int} (bounded : Signed64 number) :
    (magnitude64 number).natAbs = number.natAbs := by
  by_cases small : Signed64 number.natAbs
  · rw [magnitudeInside small, Int.natAbs_natCast]
  · have least : number = -signedBound := by
      unfold Signed64 signedBound at *
      omega
    rw [least]
    rfl

example : magnitude64 (-signedBound) = -signedBound := rfl

theorem digitCode {digit : Char} (decimal : isDigit digit = true) :
    48 ≤ digit.toNat ∧ digit.toNat ≤ 57 := by
  rw [isDigit, Bool.and_eq_true, decide_eq_true_eq, decide_eq_true_eq] at decimal
  exact decimal

theorem digitVisible {digit : Char} (decimal : isDigit digit = true) :
    Text.isBlank digit = false := by
  obtain ⟨low, high⟩ := digitCode decimal
  simp [Text.isBlank]
  omega

/-- A spelling is a word. -/
theorem Spells.isWord {token : List Char} {number : Int} (spells : Spells token number) :
    Text.IsWord token := by
  have visible {digits : List Char} (decimal : ∀ digit ∈ digits, isDigit digit = true) :
      ∀ digit ∈ digits, Text.isBlank digit = false :=
    fun digit member => digitVisible (decimal digit member)
  cases spells with
  | plain some decimal => exact ⟨some, visible decimal⟩
  | plus some decimal =>
      exact ⟨List.cons_ne_nil _ _, List.forall_mem_cons.2 ⟨by decide, visible decimal⟩⟩
  | minus some decimal =>
      exact ⟨List.cons_ne_nil _ _, List.forall_mem_cons.2 ⟨by decide, visible decimal⟩⟩

theorem printedDecimal (number : Nat) :
    ∀ digit ∈ Nat.toDigits 10 number, isDigit digit = true := by
  intro digit member
  have decimal := Nat.isDigit_of_mem_toDigits (by decide) (by decide) member
  rw [Char.isDigit, Bool.and_eq_true, decide_eq_true_eq, decide_eq_true_eq] at decimal
  rw [isDigit, Bool.and_eq_true, decide_eq_true_eq, decide_eq_true_eq]
  exact decimal

theorem printedValue (number : Nat) : digitsValue (Nat.toDigits 10 number) = number :=
  Nat.ofDigitChars_toDigits (by decide) (by decide)

/-- A number is spelled as it is printed. -/
theorem spellsPrinted (number : Int) : Spells (toString number).toList number := by
  cases number with
  | ofNat size =>
      have spells := Spells.plain Nat.toDigits_ne_nil (printedDecimal size)
      rwa [printedValue, ← Nat.toList_repr] at spells
  | negSucc size =>
      have spells := Spells.minus Nat.toDigits_ne_nil (printedDecimal (size + 1))
      rw [printedValue, ← Nat.toList_repr] at spells
      change Spells ("-" ++ (size + 1).repr).toList (Int.negSucc size)
      rw [String.toList_append]
      exact spells

end ParitySat.Numeral
