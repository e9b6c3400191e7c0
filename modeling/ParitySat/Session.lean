/-
This file defines sessions: loosely typed calls that are decoded before the backend sees them.
-/

import ParitySat.Config
import ParitySat.Intake.Buffer
import ParitySat.Intake.Literals
import ParitySat.Solution
import ParitySat.Verdict

namespace ParitySat

/-- A session owns its backend and knows whether a traversal of learnt clauses is open. -/
structure Session (β : Type) where
  backend : β
  traversing : Bool := false

/-- A call may fail, and the session goes on with what the call has done so far. -/
abbrev Call (β α : Type) := ExceptT Error (StateM (Session β)) α

/-- This function carries out a call on a session. -/
def Call.on {β α : Type} (call : Call β α) (session : Session β) : Except Error α × Session β :=
  StateT.run (ExceptT.run call) session

namespace Session

variable {β : Type} [Backend β]

def ofBackend (backend : β) : Session β :=
  { backend }

def withConfig (config : Config) (backend : β) : Session β :=
  ofBackend (config.apply backend)

def atomCount (session : Session β) : Nat :=
  Backend.atomCount session.backend

def clauseCount (session : Session β) : Nat :=
  Backend.clauseCount session.backend

def text (session : Session β) : String :=
  "Solver(" ++ Backend.signature β ++ ", vars=" ++ toString session.atomCount ++ ", clauses=" ++
    toString session.clauseCount ++ ")"

/-- This function changes the backend and nothing else. -/
def update (change : β → β) : Call β Unit :=
  modify fun session => { session with backend := change session.backend }

def reserve (count : Nat) : Call β Unit :=
  update (Backend.reserve count)

def ensureCapacity (atom : Nat) : Call β Unit :=
  update (Backend.ensureCapacity atom)

/-- This function creates the atoms of the clause before the backend sees it. -/
def submit (literals : List Literal) (backend : β) : β :=
  Backend.addClause literals
    (if literals.isEmpty then backend
      else Backend.ensureCapacity (Intake.maximumAtom (literals.map Literal.atom)) backend)

/-- An invalid literal submits nothing, and an empty clause is submitted. -/
def addClause (literals : List HostLiteral) : Call β Unit := do
  let literals ← Intake.clause literals
  update (submit literals)

def addEach : List (List HostLiteral) → Call β Unit
  | [] => pure ()
  | first :: rest => do
    addClause first
    addEach rest

/-- The clauses before the first invalid one stay submitted. -/
def addClauses (batch : ClauseBatch) (reserved : Nat) : Call β Unit := do
  reserve reserved
  addEach (← batch.clauses)

/-- This function creates the atoms of the constraint before the backend sees it. -/
def submitParity (atoms : List Nat) (parity : Bool) (backend : β) : β :=
  Backend.addParity atoms parity
    (if atoms.isEmpty then backend
      else Backend.ensureCapacity (Intake.maximumAtom atoms) backend)

def addParity (literals : List HostLiteral) (parity : Bool) : Call β Unit := do
  let atoms ← Intake.parity literals
  update (submitParity atoms parity)

/-- A search that does not finish leaves the session as it was. -/
def run (environment : Environment) (assumptions : List Literal) : Call β Verdict := do
  let session ← get
  match Backend.solve environment assumptions session.backend with
  | .error _ => throw .unfinished
  | .ok (byte, backend) =>
    set { session with backend }
    Verdict.ofByte byte

/-- The assumptions have to mention existing variables. -/
def solve (environment : Environment) (assumptions : List HostLiteral) :
    Call β (Verdict × Option DenseSolution) := do
  let assumptions ← Intake.assumptions (← get).atomCount assumptions
  let verdict ← run environment assumptions
  if verdict = .satisfiable then
    let model := Backend.model (← get).backend
    return (verdict, some (← DenseSolution.ofModel model.toList))
  else return (verdict, none)

def isSatisfiable (environment : Environment) : Call β Truth := do
  return (← run environment []).toTruth

/-- This function presents the model of the last satisfiable search. -/
def solution (format : SolutionFormat) : Call β Solution := do
  let model := Backend.model (← get).backend
  Solution.ofModel model.toList format

end Session

end ParitySat
