/-
This file shows that an integer of the host keeps its meaning as a literal and as a packed word.
-/

import Mathlib.Data.Nat.Bitwise
import ParitySat.Host.Value
import ParitySat.Literal.Word
import ParitySat.Proofs.HostLiteral

namespace ParitySat

namespace LiteralWord

section Pack

variable {atom : UInt32} (small : atom.toNat < 0x80000000) (negated : Bool)
include small

/-- No bit is lost if the atom leaves room for the sign. -/
theorem indexPack : (pack atom negated).index = 2 * atom.toNat + negated.toNat := by
  have bit : (if negated then 1 else 0 : UInt32).toNat = negated.toNat := by
    cases negated <;> rfl
  have shifted : (atom <<< 1).toNat = atom.toNat <<< 1 := by
    rw [UInt32.toNat_shiftLeft]
    refine Nat.mod_eq_of_lt ?_
    rw [Nat.shiftLeft_eq]
    change atom.toNat * 2 < 0x100000000
    omega
  rw [index, pack, UInt32.toNat_or, bit, shifted, ← Nat.shiftLeft_add_eq_or_of_lt,
    Nat.shiftLeft_eq]
  · omega
  · exact Bool.toNat_lt negated

theorem atomPack : (pack atom negated).atom = atom := by
  have code := indexPack small negated
  have bit := Bool.toNat_lt negated
  apply UInt32.toNat_inj.1
  rw [LiteralWord.atom, UInt32.toNat_shiftRight]
  change (pack atom negated).index >>> 1 = atom.toNat
  rw [code, Nat.shiftRight_one]
  omega

theorem negatedPack : (pack atom negated).negated = negated := by
  have low : (pack atom negated).code &&& 1 = if negated then 1 else 0 := by
    apply UInt32.toNat_inj.1
    rw [UInt32.toNat_and]
    change (pack atom negated).index &&& 1 = _
    rw [indexPack small negated, Nat.and_one_is_mod]
    cases negated <;> simp
  rw [LiteralWord.negated, low]
  cases negated <;> rfl

/-- Flipping the lowest bit is flipping the sign. -/
theorem negatePack : (pack atom negated).negate = pack atom (!negated) := by
  have code := indexPack small negated
  have flipped := indexPack small (!negated)
  have same : ((pack atom negated).code ^^^ 1).toNat = (pack atom (!negated)).code.toNat := by
    rw [UInt32.toNat_xor]
    change (pack atom negated).index ^^^ 1 = (pack atom (!negated)).index
    rw [code, flipped]
    cases negated with
    | false => exact Nat.xor_one_of_even (by simp)
    | true => exact Nat.xor_one_of_odd (by simp)
  rw [negate, UInt32.toNat_inj.1 same]

end Pack

section OfLiteral

variable {literal : Literal} (small : literal.atom < 0x80000000)
include small

theorem toNatAtom : (UInt32.ofNat literal.atom).toNat = literal.atom :=
  UInt32.toNat_ofNat_of_lt (Nat.lt_trans small (by decide))

theorem indexOfLiteral : (ofLiteral literal).index = literal.index := by
  have atom := toNatAtom small
  rw [ofLiteral, indexPack (by rwa [atom]), atom, Literal.index]

theorem toLiteralOfLiteral : (ofLiteral literal).toLiteral = literal := by
  have atom := toNatAtom small
  rw [toLiteral, ofLiteral, atomPack (by rwa [atom]), negatedPack (by rwa [atom]), atom]

theorem negateOfLiteral : (ofLiteral literal).negate = ofLiteral literal.negate :=
  negatePack (by rwa [toNatAtom small]) literal.negated

end OfLiteral

end LiteralWord

namespace HostLiteral

/-- The host hands over an integer as a word with a sign, as a word of 128 bits without one, or as
an integer of any width. -/
inductive Carried : Int → HostLiteral → Prop where
  | signed {number : Int} (fits : -hostBound ≤ number ∧ number < hostBound) :
      Carried number (.integer number)
  | unsigned {number : Nat} (fits : (number : Int) < 2 * hostBound) :
      Carried number (.integer (min number (hostBound - 1)))
  | wide (number : Int) : Carried number (Host.Value.toLiteral (.integer number))

/-- The word of a literal has room for its atom and its sign, and it tells both. -/
structure Packed (number : Int) (literal : Literal) : Prop where
  external : literal.external = number
  atom : (UInt32.ofNat (number.natAbs - 1)).toNat = literal.atom
  unpacked : (LiteralWord.ofLiteral literal).toLiteral = literal
  room : 2 * literal.atom + literal.negated.toNat < 0x100000000
  index : (LiteralWord.ofLiteral literal).index = 2 * literal.atom + literal.negated.toNat
  wordExternal : (LiteralWord.ofLiteral literal).external = number
  negated : (LiteralWord.ofLiteral literal).negate = LiteralWord.ofLiteral literal.negate
  unpackedNegated : (LiteralWord.ofLiteral literal).negate.toLiteral = literal.negate

variable {number : Int} {value : HostLiteral} {literal : Literal}

/-- Saturation is the same for all types of the host. -/
theorem Carried.saturated (carried : Carried number value) : value = ofInteger number := by
  have positive : 0 < hostBound := by decide
  unfold ofInteger
  cases carried with
  | signed fits =>
      congr 1
      omega
  | unsigned fits =>
      congr 1
      omega
  | wide number => rfl

/-- Saturated integers are out of range. -/
theorem Carried.decode (carried : Carried number value) :
    value.decode = .ok literal ↔
      number = literal.external ∧ minimumExternal ≤ number ∧ number ≤ maximumExternal := by
  have wide : -hostBound < minimumExternal ∧ maximumExternal < hostBound - 1 := by decide
  rw [carried.saturated, ofInteger]
  generalize clamped : max (-hostBound) (min number (hostBound - 1)) = within
  constructor
  · intro success
    have decoded := decodeDecoded (.integer within)
    rw [success] at decoded
    -- Clamping ends at the bounds of 128 bits, which are themselves out of range.
    cases decoded with
    | accepted inside => omega
  · rintro ⟨same, inside⟩
    have unchanged : within = number := by omega
    have nonzero : number ≠ 0 := by
      have atom := literal.natAbsExternal
      omega
    rw [unchanged, decodeInside nonzero inside]
    exact congrArg Except.ok
      (Literal.externalInjective ((Literal.externalOfNumber nonzero).trans same))

theorem packed (same : number = literal.external)
    (inside : minimumExternal ≤ number ∧ number ≤ maximumExternal) : Packed number literal := by
  have range : minimumExternal = -1073741824 ∧ maximumExternal = 1073741823 := by decide
  have atom := literal.natAbsExternal
  have small : literal.atom < 0x80000000 := by omega
  have sign := Bool.toNat_lt literal.negated
  have unpacked := LiteralWord.toLiteralOfLiteral small
  have negated := LiteralWord.negateOfLiteral small
  exact {
    external := same.symm
    atom := by
      rw [same, atom, Nat.add_sub_cancel]
      exact LiteralWord.toNatAtom small
    unpacked
    room := by omega
    index := LiteralWord.indexOfLiteral small
    wordExternal := by rw [LiteralWord.external, unpacked, same]
    negated
    unpackedNegated := by rw [negated]; exact LiteralWord.toLiteralOfLiteral small }

/-- Exactly the non-zero integers of the safe range are literals.  They fit a word with their sign,
come back from it as they were and have words of their own. -/
theorem codecExact (carried : Carried number value) :
    ((∃ literal, value.decode = .ok literal) ↔
      number ≠ 0 ∧ -1073741824 ≤ number ∧ number ≤ 1073741823) ∧
    (∀ literal, value.decode = .ok literal → Packed number literal) ∧
    (∀ literal, value.decode = .ok literal →
      ∀ other otherValue otherLiteral, Carried other otherValue →
        otherValue.decode = .ok otherLiteral →
        (LiteralWord.ofLiteral otherLiteral).index = (LiteralWord.ofLiteral literal).index →
        other = number) ∧
    ∀ literal : Literal, -1073741824 ≤ literal.external → literal.external ≤ 1073741823 →
      (value.decode = .ok literal ↔ number = literal.external) := by
  refine ⟨⟨?_, ?_⟩, ?_, ?_, ?_⟩
  · rintro ⟨literal, success⟩
    obtain ⟨same, inside⟩ := carried.decode.1 success
    have atom := literal.natAbsExternal
    exact ⟨by omega, inside⟩
  · rintro ⟨nonzero, inside⟩
    exact ⟨_, carried.decode.2 ⟨(Literal.externalOfNumber nonzero).symm, inside⟩⟩
  · intro literal success
    obtain ⟨same, inside⟩ := carried.decode.1 success
    exact packed same inside
  · intro literal success other otherValue otherLiteral otherCarried otherSuccess sameIndex
    obtain ⟨same, inside⟩ := carried.decode.1 success
    obtain ⟨otherSame, otherInside⟩ := otherCarried.decode.1 otherSuccess
    rw [(packed same inside).index, (packed otherSame otherInside).index] at sameIndex
    rw [same, otherSame, Literal.indexInjective sameIndex]
  · intro literal least greatest
    refine ⟨fun success => (carried.decode.1 success).1, fun same => ?_⟩
    exact carried.decode.2 ⟨same, by rw [same]; exact ⟨least, greatest⟩⟩

/-- The least literal has the greatest word of all, and a number of 128 bits is out of range. -/
theorem codecExactLimits :
    Packed (-1073741824) ⟨1073741823, true⟩ ∧
      ¬∃ literal, (integer (min ↑0xFFFFFFFFFFFFFFFFFFFFFFFFFFFFFFFF (hostBound - 1))).decode =
        .ok literal := by
  have lowest : Carried (-1073741824) (integer (-1073741824)) := .signed (by decide)
  have widest : Carried 0xFFFFFFFFFFFFFFFFFFFFFFFFFFFFFFFF
      (integer (min ↑0xFFFFFFFFFFFFFFFFFFFFFFFFFFFFFFFF (hostBound - 1))) :=
    @Carried.unsigned 0xFFFFFFFFFFFFFFFFFFFFFFFFFFFFFFFF (by decide)
  refine ⟨(codecExact lowest).2.1 _ rfl, fun accepted => ?_⟩
  exact absurd ((codecExact widest).1.1 accepted).2.2 (by decide)

end HostLiteral

end ParitySat
