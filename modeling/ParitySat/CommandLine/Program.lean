/-
This file solves the problem of a file and writes the answer line by line.
-/

import ParitySat.Backend.Native
import ParitySat.CommandLine.Arguments
import ParitySat.Session.Enumeration
import ParitySat.Session.Problem

namespace ParitySat.CommandLine

/-- The message belongs to a reported error. -/
structure Report where
  exitCode : Nat
  output : List String := []
  message : Option String := none
  deriving DecidableEq, Repr

/-- A file is missing or a list of decoded lines. -/
abbrev FileContents := Except ReadFault (List (Option (List Char)))

/-- This function cuts a list into parts of equal size, and the last part may be smaller. -/
def chunksFrom {α : Type} (size : Nat) : List α → List α → List (List α) → List (List α)
  | [], [], done => done.reverse
  | [], part, done => (part.reverse :: done).reverse
  | first :: rest, part, done =>
    if part.length + 1 < size then chunksFrom size rest (first :: part) done
    else chunksFrom size rest [] ((first :: part).reverse :: done)

def chunks {α : Type} (size : Nat) (elements : List α) : List (List α) :=
  chunksFrom size elements [] []

/-- A line of values holds at most this many. -/
def valuesPerLine : Nat := 10

def numbersText (numbers : List Int) : String :=
  " ".intercalate (numbers.map toString)

/-- The values end with a zero on a line of its own. -/
def valueLines (solution : DenseSolution) : List String :=
  (chunks valuesPerLine (signedValues solution.values)).map (fun part => "v " ++ numbersText part)
    ++ ["v 0"]

def verdictLines : Verdict × Option DenseSolution → List String
  | (.satisfiable, some solution) => "s SATISFIABLE" :: valueLines solution
  | (.satisfiable, none) => ["s SATISFIABLE"]
  | (.unsatisfiable, _) => ["s UNSATISFIABLE"]
  | (.unknown, _) => ["s INDETERMINATE"]

def solutionLine : Solution → String
  | .raw solution => "v " ++ solution.text ++ " 0"
  | .dense solution => "v " ++ solution.text

def enumerationLines (solutions : List Solution) : List String :=
  solutions.map solutionLine ++ ["c solutions " ++ toString solutions.length]

/-- Without a selection the solutions differ on any variable. -/
def selection (arguments : Arguments) (atomCount : Nat) : List HostLiteral :=
  if arguments.selected.isEmpty then
    (List.range atomCount).map fun (atom : Nat) => .integer (Int.ofNat (atom + 1))
  else arguments.selected.map .integer

/-- A number of solutions asks for an enumeration. -/
def answer (environment : Environment) (arguments : Arguments) : Call Engine (List String) := do
  match arguments.maximumSolutions with
  | some maximum =>
    let selected := selection arguments (← get).atomCount
    return enumerationLines (← Session.enumerate environment maximum selected
      (.ofRawFlag !arguments.dense))
  | none => return verdictLines (← Session.solve environment [])

/-- The settings are checked before the file, and the problem is read before it is added. -/
def output (environment : Environment) (arguments : Arguments) (file : FileContents) :
    Except Error (List String) := do
  let config ← Config.ofHost arguments.verbosity arguments.timeLimit arguments.conflictLimit
    arguments.threads
  let lines ← file.mapError Error.unreadable
  let problem ← Dimacs.ofLines lines
  let call : Call Engine (List String) := do
    Session.addProblem problem
    answer environment arguments
  (call.on (Session.withConfig config (Engine.ofOptions {}))).1

/-- A reported error has exit code one and a misuse has exit code two. -/
def report (environment : Environment) (parsed : Except Dismissal Arguments)
    (file : FileContents) : Report :=
  match parsed with
  | .error .information => { exitCode := 0 }
  | .error .misuse => { exitCode := 2 }
  | .ok arguments =>
    match output environment arguments file with
    | .error error => { exitCode := 1, message := some error.message }
    | .ok output => { exitCode := 0, output }

end ParitySat.CommandLine
