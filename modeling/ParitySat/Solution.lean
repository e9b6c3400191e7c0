/-
This file presents the model of a backend as a dense or as a sparse solution.
-/

import ParitySat.Error
import ParitySat.Literal
import ParitySat.Traverse
import ParitySat.Truth

namespace ParitySat

/-- This function refuses a byte that is no truth value. -/
def Truth.ofByte (byte : UInt8) : Except Error Truth :=
  match Truth.ofByte? byte with
  | some value => .ok value
  | none => .error (.illegalBackend (.truthValue byte))

/-- This function decodes a model up to the first illegal byte. -/
def Truth.ofBytes (bytes : List UInt8) : Except Error (List Truth) :=
  traverse Truth.ofByte bytes

/-- The first slot is a placeholder, and the slot of a number holds the value of that
variable. -/
structure DenseSolution where
  slots : List Truth
  deriving DecidableEq, Repr

namespace DenseSolution

def ofModel (model : List UInt8) : Except Error DenseSolution :=
  match Truth.ofBytes model with
  | .error error => .error error
  | .ok values => .ok ⟨none :: values⟩

/-- Variables are numbered from one. -/
def get (solution : DenseSolution) (number : Nat) : Truth :=
  solution.slots.getD number none

def length (solution : DenseSolution) : Nat :=
  solution.slots.length

def isEmpty (solution : DenseSolution) : Bool :=
  solution.slots.length ≤ 1

def variableCount (solution : DenseSolution) : Nat :=
  solution.slots.length - 1

def values (solution : DenseSolution) : List Truth :=
  solution.slots.drop 1

def mark : Truth → Char
  | some true => '1'
  | some false => '0'
  | none => 'X'

def text (solution : DenseSolution) : String :=
  String.ofList (solution.values.map mark)

end DenseSolution

/-- This function lists a signed number for every known value. -/
def signedValues (values : List Truth) : List Int :=
  values.zipIdx.filterMap fun entry =>
    entry.1.map fun known => Literal.external ⟨entry.2, !known⟩

/-- Unknown variables are left out. -/
structure RawSolution where
  literals : List Int
  deriving DecidableEq, Repr

namespace RawSolution

def ofModel (model : List UInt8) : Except Error RawSolution :=
  match Truth.ofBytes model with
  | .error error => .error error
  | .ok values => .ok ⟨signedValues values⟩

def length (solution : RawSolution) : Nat :=
  solution.literals.length

def isEmpty (solution : RawSolution) : Bool :=
  solution.literals.isEmpty

def text (solution : RawSolution) : String :=
  " ".intercalate (solution.literals.map toString)

end RawSolution

inductive SolutionFormat where
  | dense
  | raw
  deriving DecidableEq, Repr

def SolutionFormat.ofRawFlag (raw : Bool) : SolutionFormat :=
  if raw then .raw else .dense

inductive Solution where
  | dense (solution : DenseSolution)
  | raw (solution : RawSolution)
  deriving DecidableEq, Repr

namespace Solution

def ofModel (model : List UInt8) : SolutionFormat → Except Error Solution
  | .dense => (DenseSolution.ofModel model).map .dense
  | .raw => (RawSolution.ofModel model).map .raw

def text : Solution → String
  | .dense solution => solution.text
  | .raw solution => solution.text

end Solution

end ParitySat
