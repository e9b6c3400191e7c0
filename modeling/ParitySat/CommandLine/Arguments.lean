/-
This file reads the arguments of the command line program.
-/

import ParitySat.Numeral.Integer
import ParitySat.Numeral.Real

namespace ParitySat.CommandLine

structure Arguments where
  path : String
  verbosity : Int := 0
  timeLimit : Float := 0.0
  conflictLimit : Int := 0
  threads : Int := 1
  maximumSolutions : Option Nat := none
  selected : List Int := []
  dense : Bool := false

/-- These options take a value. -/
inductive Key where
  | verbosity
  | timeLimit
  | conflictLimit
  | threads
  | maximumSolutions
  | select
  deriving DecidableEq, Repr

/-- A name belongs to an option with a value, to the dense flag or to a request for
information. -/
inductive Name where
  | key (key : Key)
  | dense
  | information
  deriving DecidableEq, Repr

/-- The program ends early to inform the user or because of a misuse. -/
inductive Dismissal where
  | information
  | misuse
  deriving DecidableEq, Repr

def longName? (name : List Char) : Option Name :=
  match String.ofList name with
  | "verbose" => some (.key .verbosity)
  | "time-limit" => some (.key .timeLimit)
  | "confl-limit" => some (.key .conflictLimit)
  | "threads" => some (.key .threads)
  | "max-solutions" => some (.key .maximumSolutions)
  | "select" => some (.key .select)
  | "dense" => some .dense
  | "help" => some .information
  | "version" => some .information
  | _ => none

def shortName? : Char → Option Name
  | 'v' => some (.key .verbosity)
  | 't' => some (.key .threads)
  | 'n' => some (.key .maximumSolutions)
  | 'h' => some .information
  | 'V' => some .information
  | _ => none

/-- The uses with a value and the uses without one are kept apart, each in the order given. -/
structure Collected where
  values : List (Key × List Char) := []
  bare : List Key := []
  denseCount : Nat := 0
  paths : List String := []
  deriving Repr

namespace Collected

def addValue (collected : Collected) (key : Key) (value : List Char) : Collected :=
  { collected with values := collected.values ++ [(key, value)] }

/-- The program takes a single path. -/
def addPath (collected : Collected) (path : String) : Except Dismissal Collected :=
  if collected.paths.isEmpty then .ok { collected with paths := [path] } else .error .misuse

def addPaths (collected : Collected) : List String → Except Dismissal Collected
  | [] => .ok collected
  | path :: rest =>
    match collected.addPath path with
    | .error dismissal => .error dismissal
    | .ok collected => collected.addPaths rest

/-- An option that still waits for its value will not get one. -/
def abandon (collected : Collected) (pending : Option Key) : Collected :=
  { collected with bare := collected.bare ++ pending.toList }

/-- A use without a value is allowed only beside a use that has one. -/
def lacksValue (collected : Collected) : Bool :=
  collected.bare.any fun key => !(collected.values.map Prod.fst).contains key

end Collected

/-- An argument has one of these forms. -/
inductive Shape where
  | escape
  | long (name : List Char) (attached : Option (List Char))
  | short (letter : Char) (attached : List Char)
  | plain
  deriving DecidableEq, Repr

/-- A value may be attached to a long name by an equals sign. -/
def splitAttached (text : List Char) : List Char × Option (List Char) :=
  match text.dropWhile (· != '=') with
  | [] => (text, none)
  | _ :: value => (text.takeWhile (· != '='), some value)

def Shape.ofArgument (argument : String) : Shape :=
  match argument.toList with
  | ['-', '-'] => .escape
  | '-' :: '-' :: text =>
    let parts := splitAttached text
    .long parts.1 parts.2
  | '-' :: letter :: attached => .short letter attached
  | _ => .plain

/-- An option without an attached value waits for the next argument. -/
def acceptName (collected : Collected) (name : Option Name) (attached : Option (List Char)) :
    Except Dismissal (Collected × Option Key) :=
  match name, attached with
  | some (.key key), some value => .ok (collected.addValue key value, none)
  | some (.key key), none => .ok (collected, some key)
  | some .dense, none => .ok ({ collected with denseCount := collected.denseCount + 1 }, none)
  | some .information, none => .error .information
  | _, _ => .error .misuse

/-- The value of a letter follows it directly or after an equals sign. -/
def acceptLetter (collected : Collected) (letter : Char) (attached : List Char) :
    Except Dismissal (Collected × Option Key) :=
  match shortName? letter, attached with
  | some .information, _ => .error .information
  | name, [] => acceptName collected name none
  | name, '=' :: value => acceptName collected name (some value)
  | name, value => acceptName collected name (some value)

/-- The selection alone takes a value that starts with a hyphen. -/
def collect : List String → Option Key → Collected → Except Dismissal Collected
  | [], pending, collected => .ok (collected.abandon pending)
  | argument :: rest, some .select, collected =>
    collect rest none (collected.addValue .select argument.toList)
  | argument :: rest, pending, collected =>
    match Shape.ofArgument argument with
    | .escape => (collected.abandon pending).addPaths rest
    | .long name attached =>
      match acceptName (collected.abandon pending) (longName? name) attached with
      | .error dismissal => .error dismissal
      | .ok (collected, pending) => collect rest pending collected
    | .short letter attached =>
      match acceptLetter (collected.abandon pending) letter attached with
      | .error dismissal => .error dismissal
      | .ok (collected, pending) => collect rest pending collected
    | .plain =>
      match pending with
      | some key => collect rest none (collected.addValue key argument.toList)
      | none =>
        match collected.addPath argument with
        | .error dismissal => .error dismissal
        | .ok collected => collect rest none collected

/-- Commas separate the selected numbers. -/
def splitCommas : List Char → List Char → List (List Char) → List (List Char)
  | [], part, done => (part.reverse :: done).reverse
  | character :: rest, part, done =>
    if character = ',' then splitCommas rest [] (part.reverse :: done)
    else splitCommas rest (character :: part) done

def readSelection : List (List Char) → Option (List Int)
  | [] => some []
  | part :: rest =>
    match Numeral.signed64? part, readSelection rest with
    | some number, some numbers => some (number :: numbers)
    | _, _ => none

/-- This function reads a value into its place. -/
def assign (arguments : Arguments) : Key × List Char → Option Arguments
  | (.verbosity, value) =>
    (Numeral.signed64? value).map fun verbosity => { arguments with verbosity }
  | (.timeLimit, value) => (Numeral.real? value).map fun timeLimit => { arguments with timeLimit }
  | (.conflictLimit, value) =>
    (Numeral.signed64? value).map fun conflictLimit => { arguments with conflictLimit }
  | (.threads, value) => (Numeral.signed64? value).map fun threads => { arguments with threads }
  | (.maximumSolutions, value) =>
    (Numeral.unsigned64? value).map fun number =>
      { arguments with maximumSolutions := some number }
  | (.select, value) =>
    (readSelection (splitCommas value [] [])).map fun numbers =>
      { arguments with selected := arguments.selected ++ numbers }

def assignAll : List (Key × List Char) → Arguments → Option Arguments
  | [], arguments => some arguments
  | value :: rest, arguments => (assign arguments value).bind (assignAll rest)

/-- Only the selection may be given more than once. -/
def repeated (collected : Collected) : Bool :=
  let keys := (collected.values.map Prod.fst ++ collected.bare).filter (· != .select)
  keys.eraseDups.length < keys.length || 1 < collected.denseCount

def Collected.finish (collected : Collected) : Except Dismissal Arguments :=
  match collected.paths with
  | [path] =>
    if collected.lacksValue || repeated collected then .error .misuse
    else
      match assignAll collected.values { path, dense := 0 < collected.denseCount } with
      | some arguments => .ok arguments
      | none => .error .misuse
  | _ => .error .misuse

def Arguments.parse (arguments : List String) : Except Dismissal Arguments :=
  match collect arguments none {} with
  | .error dismissal => .error dismissal
  | .ok collected => collected.finish

end ParitySat.CommandLine
