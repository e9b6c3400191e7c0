/-
This file decodes clauses, parity constraints and assumptions, up to the first fault.
-/

import ParitySat.HostLiteral
import ParitySat.Traverse

namespace ParitySat.Intake

def clause (literals : List HostLiteral) : Except Error (List Literal) :=
  traverse HostLiteral.decode literals

/-- This function is the greatest atom of the list, or zero. -/
def maximumAtom (atoms : List Nat) : Nat :=
  atoms.foldl max 0

/-- A parity constraint lists its atoms as positive literals. -/
def parityAtom (value : HostLiteral) : Except Error Nat :=
  match value.decode with
  | .error error => .error error
  | .ok literal =>
    if literal.negated then .error (.negatedInParity literal.external) else .ok literal.atom

def parity (literals : List HostLiteral) : Except Error (List Nat) :=
  traverse parityAtom literals

/-- An assumption has to mention an existing atom. -/
def assumption (atomCount : Nat) (value : HostLiteral) : Except Error Literal :=
  match value.decode with
  | .error error => .error error
  | .ok literal =>
    if literal.atom < atomCount then .ok literal
    else .error (.unknownVariable (literal.atom + 1))

def assumptions (atomCount : Nat) (literals : List HostLiteral) : Except Error (List Literal) :=
  traverse (assumption atomCount) literals

end ParitySat.Intake
