/-
This file defines the verdict of a search and its one-byte code.
-/

import ParitySat.Error
import ParitySat.Truth

namespace ParitySat

inductive Verdict where
  | satisfiable
  | unsatisfiable
  | unknown
  deriving DecidableEq, Repr

namespace Verdict

def toTruth : Verdict → Truth
  | .satisfiable => some true
  | .unsatisfiable => some false
  | .unknown => none

/-- A verdict has the code of its truth value. -/
def toByte (verdict : Verdict) : UInt8 :=
  verdict.toTruth.toByte

/-- This function refuses a byte that is no verdict. -/
def ofByte (byte : UInt8) : Except Error Verdict :=
  match Truth.ofByte? byte with
  | some (some true) => .ok .satisfiable
  | some (some false) => .ok .unsatisfiable
  | some none => .ok .unknown
  | none => .error (.illegalBackend (.answer byte))

def text : Verdict → String
  | .satisfiable => "SAT"
  | .unsatisfiable => "UNSAT"
  | .unknown => "UNKNOWN"

@[simp] theorem ofByteToByte (verdict : Verdict) : ofByte verdict.toByte = .ok verdict := by
  cases verdict <;> rfl

end Verdict

end ParitySat
