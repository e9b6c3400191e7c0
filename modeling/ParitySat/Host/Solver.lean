/-
This file gives a dynamically typed host the calls of a session.
-/

import ParitySat.Backend.Native
import ParitySat.Host.Value
import ParitySat.Session.Enumeration
import ParitySat.Session.Traversal

namespace ParitySat.Host

/-- A host call may fail, and the solver goes on with what the call has done so far. -/
abbrev HostCall (α : Type) := ExceptT Failure (StateM (Session Engine)) α

def HostCall.on {α : Type} (call : HostCall α) (session : Session Engine) :
    Except Failure α × Session Engine :=
  StateT.run (ExceptT.run call) session

namespace Solver

/-- A failing session call fails the host call. -/
def lift {α : Type} (call : Call Engine α) : HostCall α :=
  ExceptT.mk fun session =>
    let outcome := call.on session
    (outcome.1.mapError Failure.solver, outcome.2)

def create (verbosity : Int) (timeLimit : Float) (conflictLimit threads : Int) :
    Except Failure (Session Engine) :=
  match Config.ofHost verbosity timeLimit conflictLimit threads with
  | .error error => .error (.solver error)
  | .ok config => .ok (Session.withConfig config (Engine.ofOptions {}))

def addClause (clause : Value) : HostCall Unit := do
  let literals ← clause.readLiterals
  lift (Session.addClause literals)

/-- The clauses read before a failure of the host are added before it is reported. -/
def addIteration (iteration : Iteration) : HostCall Unit := do
  let (clauses, failure) := Value.readClauses iteration
  lift (Session.addClauses (.list clauses) 0)
  match failure with
  | some failure => throw failure
  | none => pure ()

/-- The declared variables come first, and an array is read as a flat buffer. -/
def addClauses (clauses : Value) (maximumVariable : Int) : HostCall Unit := do
  lift (Session.reserve maximumVariable.toNat)
  match clauses with
  | .array code items typecode itemSize =>
    let buffer ← Value.readBuffer code items typecode itemSize
    lift (Session.addClauses (.buffer buffer) 0)
  | clauses =>
    match clauses.iterate? with
    | none => throw .notIterable
    | some iteration => addIteration iteration

/-- The parity is checked before the literals. -/
def addParity (literals parity : Value) : HostCall Unit := do
  match parity with
  | .boolean parity =>
    let literals ← literals.readLiterals
    lift (Session.addParity literals parity)
  | _ => throw .notBoolean

/-- A missing list of assumptions is an empty one. -/
def readAssumptions : Value → Except Failure (List HostLiteral)
  | .nothing => .ok []
  | value => value.readLiterals

def solve (environment : Environment) (assumptions : Value) :
    HostCall (Truth × Option DenseSolution) := do
  let assumptions ← readAssumptions assumptions
  let (verdict, solution) ← lift (Session.solve environment assumptions)
  return (verdict.toTruth, solution)

def isSatisfiable (environment : Environment) : HostCall Truth :=
  lift (Session.isSatisfiable environment)

/-- A negative number of solutions counts as zero. -/
def enumerate (environment : Environment) (maximum : Int) (selected : Value) (raw : Bool) :
    HostCall (List Solution) := do
  let selected ← selected.readLiterals
  lift (Session.enumerate environment maximum.toNat selected (.ofRawFlag raw))

def openTraversal (maximumLength maximumGlue : Nat) : HostCall Unit :=
  lift (Session.openTraversal maximumLength maximumGlue)

def nextClause : HostCall (Option (List Int)) := do
  let clause ← lift Session.nextClause
  return clause.map (·.map Literal.external)

def closeTraversal : HostCall Unit :=
  lift Session.closeTraversal

end Solver

end ParitySat.Host
