/-
This file shows that the dense and the raw format of a model tell the same values.
-/

import ParitySat.Proofs.CommandLine.Program
import ParitySat.Proofs.HostLiteral
import ParitySat.Proofs.Numeral.Integer
import ParitySat.Proofs.Solution

namespace ParitySat

/-- Every byte adds one slot, and the first illegal byte ends the pass. -/
def fillSlots : List Truth → List UInt8 → Except Error (List Truth)
  | slots, [] => .ok slots
  | slots, byte :: rest =>
    match Truth.ofByte byte with
    | .error error => .error error
    | .ok value => fillSlots (slots ++ [value]) rest

/-- Every known value adds the literal of its position, which is cut to 32 bits. -/
def collectLiterals : Nat → List Int → List UInt8 → Except Error (List Int)
  | _, literals, [] => .ok literals
  | position, literals, byte :: rest =>
    match Truth.ofByte byte with
    | .error error => .error error
    | .ok none => collectLiterals (position + 1) literals rest
    | .ok (some known) =>
      collectLiterals (position + 1)
        (literals ++ [Literal.external ⟨(UInt32.ofNat position).toNat, !known⟩]) rest

/-- Every known slot is emitted as its number, with a minus sign if it is false. -/
def emitted : Nat → List Truth → List Int
  | _, [] => []
  | number, none :: rest => emitted (number + 1) rest
  | number, some known :: rest =>
    (if known then (number : Int) else -number) :: emitted (number + 1) rest

/-- This function reads numbers that stand apart. -/
def readNumbers (text : String) : Option (List Int) :=
  (Text.words text.toList).mapM Numeral.signed64?

def readMark : Char → Option Truth
  | '1' => some (some true)
  | '0' => some (some false)
  | 'X' => some none
  | _ => none

def readMarks (text : String) : Option (List Truth) :=
  text.toList.mapM readMark

/-- The two formats tell the same values of a model. -/
structure SameValues (model : List UInt8) (dense : DenseSolution) (raw : RawSolution) : Prop where
  placeholder : dense.slots.head? = some none
  length : dense.length = model.length + 1
  isTrue : ∀ number, 1 ≤ number → (dense.get number = some true ↔ (number : Int) ∈ raw.literals)
  isFalse : ∀ number, 1 ≤ number →
    (dense.get number = some false ↔ -(number : Int) ∈ raw.literals)
  isUnknown : ∀ number, 1 ≤ number →
    (dense.get number = none ↔ (number : Int) ∉ raw.literals ∧ -(number : Int) ∉ raw.literals)
  ascending : raw.literals.Pairwise fun first second => first.natAbs < second.natAbs
  recovered : emitted 0 dense.slots = raw.literals
  printed : CommandLine.valueLines dense =
    (CommandLine.chunks CommandLine.valuesPerLine raw.literals).map
      (fun part => "v " ++ CommandLine.numbersText part) ++ ["v 0"]
  rawText : readNumbers raw.text = some raw.literals
  denseText : readMarks dense.text = some dense.values

section Passes

theorem fillSlotsDecodes (slots : List Truth) (model : List UInt8) :
    fillSlots slots model = (Truth.ofBytes model).map (slots ++ ·) := by
  induction model generalizing slots with
  | nil => simp [fillSlots, Truth.ofBytes, Except.map]
  | cons byte rest inductionHypothesis =>
      rw [Truth.ofBytes, traverseCons, fillSlots]
      cases Truth.ofByte byte with
      | error error => rfl
      | ok value =>
          simp only
          rw [inductionHypothesis, Truth.ofBytes]
          cases traverse Truth.ofByte rest <;> simp [Except.map]

/-- The position is never cut if it is counted up to the length of the model. -/
theorem collectLiteralsDecodes {position : Nat} (literals : List Int) {model : List UInt8}
    (few : position + model.length ≤ 0x100000000) :
    collectLiterals position literals model =
      (Truth.ofBytes model).map (literals ++ emitted (position + 1) ·) := by
  induction model generalizing position literals with
  | nil => simp [collectLiterals, Truth.ofBytes, emitted, Except.map]
  | cons byte rest inductionHypothesis =>
      rw [List.length_cons] at few
      have later (literals : List Int) :=
        @inductionHypothesis (position + 1) literals (by omega)
      rw [Truth.ofBytes, traverseCons, collectLiterals]
      cases Truth.ofByte byte with
      | error error => rfl
      | ok value =>
          have whole : (UInt32.ofNat position).toNat = position :=
            UInt32.toNat_ofNat_of_lt (by change position < 0x100000000; omega)
          cases value with
          | none =>
              simp only
              rw [later, Truth.ofBytes]
              cases traverse Truth.ofByte rest <;> simp [Except.map, emitted]
          | some known =>
              simp only
              rw [later, Truth.ofBytes, whole]
              cases traverse Truth.ofByte rest <;> cases known <;>
                simp [Except.map, emitted, Literal.external]

end Passes

section Emission

theorem signedEmitted (position : Nat) (values : List Truth) :
    (values.zipIdx position).filterMap (fun entry =>
      entry.1.map fun known => Literal.external ⟨entry.2, !known⟩) =
        emitted (position + 1) values := by
  induction values generalizing position with
  | nil => rfl
  | cons value rest inductionHypothesis =>
      rw [List.zipIdx_cons, List.filterMap_cons]
      cases value with
      | none => exact inductionHypothesis (position + 1)
      | some known =>
          simp only [Option.map_some]
          rw [inductionHypothesis]
          cases known <;> rfl

theorem signedValuesEmitted (values : List Truth) : signedValues values = emitted 1 values :=
  signedEmitted 0 values

/-- A literal is listed if its atom has the value that makes it true. -/
theorem memberSignedValues (values : List Truth) (literal : Literal) :
    literal.external ∈ signedValues values ↔ values[literal.atom]? = some (some !literal.negated) := by
  rw [signedValues, List.mem_filterMap]
  constructor
  · rintro ⟨⟨value, atom⟩, listed, same⟩
    obtain ⟨known, rfl, same⟩ := Option.map_eq_some_iff.1 same
    obtain rfl := Literal.externalInjective same
    rw [List.mem_zipIdx_iff_getElem?] at listed
    simpa using listed
  · intro known
    refine ⟨(some !literal.negated, literal.atom), List.mem_zipIdx_iff_getElem?.2 known, ?_⟩
    simp

theorem emittedBounds {number : Nat} {values : List Truth} :
    ∀ written ∈ emitted number values,
      number ≤ written.natAbs ∧ written.natAbs < number + values.length := by
  induction values generalizing number with
  | nil => exact fun _ listed => absurd listed List.not_mem_nil
  | cons value rest inductionHypothesis =>
      have later : ∀ written ∈ emitted (number + 1) rest,
          number ≤ written.natAbs ∧ written.natAbs < number + (value :: rest).length := by
        intro written listed
        have bounds := inductionHypothesis written listed
        rw [List.length_cons]
        omega
      cases value with
      | none => exact later
      | some known =>
          rw [emitted, List.forall_mem_cons]
          refine ⟨?_, later⟩
          rw [List.length_cons]
          cases known <;> simp

theorem emittedAscending (number : Nat) (values : List Truth) :
    (emitted number values).Pairwise fun first second => first.natAbs < second.natAbs := by
  induction values generalizing number with
  | nil => exact List.Pairwise.nil
  | cons value rest inductionHypothesis =>
      cases value with
      | none => exact inductionHypothesis (number + 1)
      | some known =>
          refine List.pairwise_cons.2 ⟨fun written listed => ?_, inductionHypothesis (number + 1)⟩
          have bounds := emittedBounds written listed
          cases known <;> simp <;> omega

end Emission

section Reading

/-- What is written element by element is read back if every element is. -/
theorem mapMWritten {α β : Type} {write : α → β} {read : β → Option α} {elements : List α}
    (inverse : ∀ element ∈ elements, read (write element) = some element) :
    (elements.map write).mapM read = some elements := by
  induction elements with
  | nil => rfl
  | cons first rest inductionHypothesis =>
      rw [List.forall_mem_cons] at inverse
      rw [List.map_cons, List.mapM_cons, inverse.1, inductionHypothesis inverse.2]
      rfl

theorem readMarksText (solution : DenseSolution) :
    readMarks solution.text = some solution.values := by
  rw [readMarks, DenseSolution.text, String.toList_ofList]
  refine mapMWritten fun value _ => ?_
  rcases value with _ | _ | _ <;> rfl

theorem readNumbersText {solution : RawSolution}
    (bounded : ∀ number ∈ solution.literals, Numeral.Signed64 number) :
    readNumbers solution.text = some solution.literals := by
  have words : Text.words solution.text.toList =
      solution.literals.map fun number => (toString number).toList := by
    rw [RawSolution.text, String.toList_intercalate, List.map_map]
    refine Text.wordsIntercalate fun word listed => ?_
    obtain ⟨number, -, rfl⟩ := List.mem_map.1 listed
    exact (Numeral.spellsPrinted number).isWord
  rw [readNumbers, words]
  exact mapMWritten fun number listed => (Numeral.spellsPrinted number).signed64
    (bounded number listed)

end Reading

namespace Solution

section Values

variable (values : List Truth) {number : Nat} (positive : 1 ≤ number)
include positive

/-- The slots are numbered from one and the values from zero. -/
theorem getSlot :
    DenseSolution.get ⟨none :: values⟩ number = values[number - 1]?.getD none := by
  obtain ⟨atom, rfl⟩ := Nat.exists_eq_add_of_le' positive
  rw [DenseSolution.get, List.getD_eq_getElem?_getD, List.getElem?_cons_succ, Nat.add_sub_cancel]

/-- A number is listed with the sign of its value. -/
theorem memberNumber (known : Bool) :
    (if known then (number : Int) else -number) ∈ signedValues values ↔
      values[number - 1]? = some (some known) := by
  have written : Literal.external ⟨number - 1, !known⟩ =
      if known then (number : Int) else -number := by
    cases known with
    | false =>
        change -(((number - 1 : Nat) : Int) + 1) = -(number : Int)
        omega
    | true =>
        change ((number - 1 : Nat) : Int) + 1 = number
        omega
  rw [← written, memberSignedValues, Bool.not_not]

end Values

/-- A model has values for both formats. -/
theorem sameValues {model : List UInt8} (few : model.length < 0x100000000) {values : List Truth}
    (decoded : Truth.ofBytes model = .ok values) :
    SameValues model ⟨none :: values⟩ ⟨signedValues values⟩ := by
  have length : values.length = model.length := traverseLength decoded
  have emission : signedValues values = emitted 1 values := signedValuesEmitted values
  have isTrue (number : Nat) (positive : 1 ≤ number) :
      (number : Int) ∈ signedValues values ↔ values[number - 1]? = some (some true) :=
    memberNumber values positive true
  have isFalse (number : Nat) (positive : 1 ≤ number) :
      -(number : Int) ∈ signedValues values ↔ values[number - 1]? = some (some false) :=
    memberNumber values positive false
  exact {
    placeholder := rfl
    length := congrArg Nat.succ length
    isTrue := fun number positive => by
      rw [getSlot values positive, isTrue number positive]
      cases values[number - 1]? <;> simp
    isFalse := fun number positive => by
      rw [getSlot values positive, isFalse number positive]
      cases values[number - 1]? <;> simp
    isUnknown := fun number positive => by
      rw [getSlot values positive, isTrue number positive, isFalse number positive]
      rcases values[number - 1]? with _ | _ | _ | _ <;> simp
    ascending := by
      rw [emission]
      exact emittedAscending 1 values
    recovered := emission.symm
    printed := rfl
    rawText := readNumbersText fun number listed => by
      rw [emission] at listed
      have bounds := emittedBounds number listed
      have wide : Numeral.signedBound = 0x8000000000000000 := rfl
      exact ⟨by omega, by omega⟩
    denseText := readMarksText _ }

/-- Both formats refuse a model because of its first illegal byte, or both tell its values.  Each
of them is what one pass over the bytes of the model makes of it. -/
theorem formatsAgree {model : List UInt8} (few : model.length < 0x100000000) :
    DenseSolution.ofModel model = (fillSlots [none] model).map DenseSolution.mk ∧
      RawSolution.ofModel model = (collectLiterals 0 [] model).map RawSolution.mk ∧
      match model.find? (2 < ·) with
      | some byte =>
        DenseSolution.ofModel model = .error (.illegalBackend (.truthValue byte)) ∧
          RawSolution.ofModel model = .error (.illegalBackend (.truthValue byte))
      | none => ∃ dense raw, DenseSolution.ofModel model = .ok dense ∧
          RawSolution.ofModel model = .ok raw ∧ SameValues model dense raw := by
  have found := ofBytesFinds model
  rw [fillSlotsDecodes, collectLiteralsDecodes [] (by omega), DenseSolution.ofModel,
    RawSolution.ofModel]
  generalize model.find? (2 < ·) = illegal at found ⊢
  cases illegal with
  | some byte =>
      rw [found]
      exact ⟨rfl, rfl, rfl, rfl⟩
  | none =>
      obtain ⟨values, decoded⟩ := found
      rw [decoded]
      refine ⟨rfl, ?_, _, _, rfl, rfl, sameValues few decoded⟩
      simp only [Except.map, signedValuesEmitted]
      rfl

/-- The unknown variable is left out of the raw format and has a slot in the dense one. -/
theorem formatsAgreeMixed :
    ([0, 1, 2, 0] : List UInt8).length < 0x100000000 ∧
      SameValues [0, 1, 2, 0] ⟨[none, some true, some false, none, some true]⟩ ⟨[1, -2, 4]⟩ := by
  have few : ([0, 1, 2, 0] : List UInt8).length < 0x100000000 := by decide
  obtain ⟨dense, raw, isDense, isRaw, same⟩ := (formatsAgree few).2.2
  cases isDense
  cases isRaw
  exact ⟨few, same⟩

end Solution

end ParitySat
