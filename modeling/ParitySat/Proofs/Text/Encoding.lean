/-
This file shows that the lines of an encoded text are the encoded lines of the text.
-/

import ParitySat.Proofs.Text.Blank

namespace ParitySat.Text

/-- This function is the encoding of a text in bytes. -/
def encode (text : List Char) : List UInt8 :=
  text.flatMap String.utf8EncodeChar

theorem encodeDecoded (text : List Char) :
    (String.fromUTF8? ⟨(encode text).toArray⟩).map String.toList = some text := by
  have bytes : (⟨(encode text).toArray⟩ : ByteArray) = text.utf8Encode :=
    ByteArray.ext List.data_toByteArray.symm
  rw [bytes, String.fromUTF8?, dif_pos ByteArray.isValidUTF8_utf8Encode, Option.map_some]
  exact congrArg some (String.toList_ofList)

/-- A byte of several is at least 128. -/
theorem ofNatHigh {code : Nat} (low : 128 ≤ code) (high : code < 256) : UInt8.ofNat code ≠ 10 := by
  intro same
  have value := congrArg UInt8.toNat same
  rw [UInt8.toNat_ofNat_of_lt' high] at value
  change code = 10 at value
  omega

/-- Only the line break is encoded with the byte of the line break. -/
theorem encodeBreak {character : Char} (other : character ≠ '\n') :
    ∀ unit ∈ String.utf8EncodeChar character, unit ≠ 10 := by
  have code : character.val.toNat ≠ 10 :=
    fun same => other (Char.ext (UInt32.toNat_inj.1 same))
  intro unit member
  unfold String.utf8EncodeChar at member
  simp only at member
  split at member
  · next ascii =>
      obtain rfl := List.mem_singleton.1 member
      intro same
      have value := congrArg UInt8.toNat same
      rw [UInt8.toNat_ofNat_of_lt' (Nat.lt_of_le_of_lt ascii (by decide))] at value
      exact code value
  · split at member
    · simp only [List.mem_cons, List.not_mem_nil, or_false] at member
      rcases member with rfl | rfl <;> exact ofNatHigh (by omega) (by omega)
    · split at member
      · simp only [List.mem_cons, List.not_mem_nil, or_false] at member
        rcases member with rfl | rfl | rfl <;> exact ofNatHigh (by omega) (by omega)
      · simp only [List.mem_cons, List.not_mem_nil, or_false] at member
        rcases member with rfl | rfl | rfl | rfl <;> exact ofNatHigh (by omega) (by omega)

theorem encodeUnbroken {line : List Char} (unbroken : '\n' ∉ line) :
    ∀ unit ∈ encode line, (unit == 10) = false := by
  intro unit member
  obtain ⟨character, listed, member⟩ := List.mem_flatMap.1 member
  rw [beq_eq_false_iff_ne]
  exact encodeBreak (fun same => unbroken (same ▸ listed)) unit member

theorem encodeNonempty {text : List Char} (some : text ≠ []) : encode text ≠ [] := by
  cases text with
  | nil => exact absurd rfl some
  | cons character rest =>
      rw [encode, List.flatMap_cons]
      exact List.append_ne_nil_of_left_ne_nil String.utf8EncodeChar_ne_nil _

theorem charactersUnbroken {line : List Char} (unbroken : '\n' ∉ line) :
    ∀ character ∈ line, (character == '\n') = false := by
  intro character member
  rw [beq_eq_false_iff_ne]
  rintro rfl
  exact unbroken member

/-- Cutting into lines and encoding can be done in either order. -/
theorem linesEncode (text : List Char) :
    lines (· == 10) (encode text) = (lines (· == '\n') text).map encode := by
  induction size : text.length using Nat.strongRecOn generalizing text with
  | ind length inductionHypothesis =>
      by_cases broken : '\n' ∈ text
      · obtain ⟨line, rest, rfl, unbroken⟩ := List.eq_append_cons_of_mem broken
        have shorter : rest.length < length := by
          rw [← size, List.length_append, List.length_cons]
          omega
        have bytes : encode (line ++ '\n' :: rest) = encode line ++ 10 :: encode rest := by
          rw [encode, List.flatMap_append, List.flatMap_cons]
          rfl
        rw [bytes, linesBreak (encodeUnbroken unbroken) (beq_self_eq_true _),
          linesBreak (charactersUnbroken unbroken) (beq_self_eq_true _),
          inductionHypothesis rest.length shorter rest rfl, List.map_cons]
      · by_cases empty : text = []
        · rw [empty]
          rfl
        · rw [linesLast (encodeUnbroken broken) (encodeNonempty empty),
            linesLast (charactersUnbroken broken) empty]
          rfl

end ParitySat.Text
