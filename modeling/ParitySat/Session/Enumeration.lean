/-
This file enumerates solutions that differ on selected variables.
-/

import ParitySat.Session

namespace ParitySat

/-- The clause is false in the model on every variable that is selected without negation. -/
def blockingClause (selected : List Literal) (model : Array UInt8) : List Literal :=
  (selected.filter fun literal => !literal.negated).map fun literal =>
    ⟨literal.atom, model.getD literal.atom 2 == 0⟩

namespace Session

variable {β : Type} [Backend β]

/-- Every solution but the last one is banned before the next round. -/
def enumerateFrom (environment : Environment) (selected : List Literal) (format : SolutionFormat) :
    Nat → Array Solution → Call β (Array Solution)
  | 0, found => pure found
  | rounds + 1, found => do
    match ← run environment [] with
    | .satisfiable =>
      let found := found.push (← solution format)
      if 0 < rounds then
        let model := Backend.model (← get).backend
        update (Backend.addClause (blockingClause selected model))
      enumerateFrom environment selected format rounds found
    | .unsatisfiable => pure found
    | .unknown => throw (.undetermined found.size)

/-- The selected variables are created first, and an unknown verdict fails the whole call. -/
def enumerate (environment : Environment) (maximum : Nat) (selected : List HostLiteral)
    (format : SolutionFormat) : Call β (List Solution) := do
  let selected ← Intake.clause selected
  if !selected.isEmpty then
    ensureCapacity (Intake.maximumAtom (selected.map Literal.atom))
  return (← enumerateFrom environment selected format maximum #[]).toList

end Session

end ParitySat
