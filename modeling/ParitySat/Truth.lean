/-
This file defines three-valued truth and its one-byte code.
-/

namespace ParitySat

/-- A truth value is known or undetermined. -/
abbrev Truth := Option Bool

namespace Truth

/-- The codes are 0 for true, 1 for false and 2 for undetermined. -/
def toByte : Truth → UInt8
  | some true => 0
  | some false => 1
  | none => 2

/-- Every other byte is illegal. -/
def ofByte? (byte : UInt8) : Option Truth :=
  if byte = 0 then some (some true)
  else if byte = 1 then some (some false)
  else if byte = 2 then some none
  else none

/-- This function negates a known value if the flag is set. -/
def flip (value : Truth) (flag : Bool) : Truth :=
  value.map (· != flag)

@[simp] theorem ofByteToByte (value : Truth) : ofByte? value.toByte = some value := by
  rcases value with _ | _ | _ <;> rfl

end Truth

end ParitySat
