/-
This file reads problems in the DIMACS format, where a line with an x is a parity constraint.
-/

import ParitySat.Error
import ParitySat.Numeral.Integer
import ParitySat.Text.Blank

namespace ParitySat

/-- The exclusive or of the variables, numbered from one, equals the parity. -/
structure ParityLine where
  numbers : List Int
  parity : Bool
  deriving DecidableEq, Repr

/-- The variable count is the one that the header declares. -/
structure Dimacs where
  variableCount : Nat := 0
  clauses : List (List Int) := []
  parities : List ParityLine := []
  deriving DecidableEq, Repr

namespace Dimacs

/-- The reader keeps the finished parts and the literals of the clause being read. -/
structure Reader where
  variableCount : Nat := 0
  clauses : Array (List Int) := #[]
  parities : Array ParityLine := #[]
  clause : Array Int := #[]
  deriving DecidableEq, Repr

/-- The first character of a trimmed line tells its kind. -/
inductive Line where
  | ignored
  | final
  | header (rest : List Char)
  | parity (body : List Char)
  | literals (body : List Char)
  deriving DecidableEq, Repr

def Line.ofTrimmed : List Char → Line
  | [] => .ignored
  | 'c' :: _ => .ignored
  | '%' :: _ => .final
  | 'p' :: rest => .header rest
  | 'x' :: body => .parity body
  | characters => .literals characters

def readInteger (token : List Char) : Except DimacsFault Int :=
  match Numeral.signed64? token with
  | some number => .ok number
  | none => .error (.literal (String.ofList token))

/-- The header names the format, the number of variables and one more word. -/
def readHeader (rest : List Char) : Except DimacsFault Nat :=
  match Text.words rest with
  | [format, count, _] =>
    if format = ['c', 'n', 'f'] then
      match readInteger count with
      | .error fault => .error fault
      | .ok count => if count < 0 then .error (.variableCount count) else .ok count.toNat
    else .error (.header (String.ofList rest))
  | _ => .error (.header (String.ofList rest))

/-- A negated literal flips the parity, and words after the zero are not read. -/
def readParity : List (List Char) → Array Int → Bool → Except DimacsFault ParityLine
  | [], _, _ => .error .parityUnterminated
  | token :: rest, numbers, parity =>
    match readInteger token with
    | .error fault => .error fault
    | .ok number =>
      if number = 0 then .ok ⟨numbers.toList, parity⟩
      else
        readParity rest (numbers.push (Numeral.magnitude64 number)) (parity != (number < 0 : Bool))

/-- A zero ends the clause being read. -/
def readLiterals : List (List Char) → Reader → Except DimacsFault Reader
  | [], reader => .ok reader
  | token :: rest, reader =>
    match readInteger token with
    | .error fault => .error fault
    | .ok number =>
      if number = 0 then
        readLiterals rest
          { reader with clauses := reader.clauses.push reader.clause.toList, clause := #[] }
      else readLiterals rest { reader with clause := reader.clause.push number }

/-- This function reads one line, or has no reader for the line that ends the problem. -/
def readLine (line : Line) (reader : Reader) : Except DimacsFault (Option Reader) :=
  match line with
  | .ignored => .ok (some reader)
  | .final => .ok none
  | .header rest =>
    (readHeader rest).map fun variableCount => some { reader with variableCount }
  | .parity body =>
    if reader.clause.isEmpty then
      (readParity (Text.words body) #[] true).map fun parity =>
        some { reader with parities := reader.parities.push parity }
    else .error .parityInsideClause
  | .literals body => (readLiterals (Text.words body) reader).map some

/-- A last clause may lack its zero. -/
def Reader.finish (reader : Reader) : Dimacs :=
  { variableCount := reader.variableCount
    clauses :=
      (if reader.clause.isEmpty then reader.clauses
        else reader.clauses.push reader.clause.toList).toList
    parities := reader.parities.toList }

/-- A missing line could not be decoded, and lines are numbered from one. -/
def readLines : List (Option (List Char)) → Nat → Reader → Except Error Reader
  | [], _, reader => .ok reader
  | none :: _, _, _ => .error (.unreadable .invalidText)
  | some characters :: rest, number, reader =>
    match readLine (Line.ofTrimmed (Text.trim characters)) reader with
    | .error fault => .error (.dimacs number fault)
    | .ok none => .ok reader
    | .ok (some reader) => readLines rest (number + 1) reader

def ofLines (lines : List (Option (List Char))) : Except Error Dimacs :=
  (readLines lines 1 {}).map Reader.finish

def parse (text : List Char) : Except Error Dimacs :=
  ofLines ((Text.lines (· == '\n') text).map some)

/-- Every line of a file is decoded on its own. -/
def decodeLine (bytes : List UInt8) : Option (List Char) :=
  (String.fromUTF8? ⟨bytes.toArray⟩).map String.toList

def linesOfBytes (bytes : List UInt8) : List (Option (List Char)) :=
  (Text.lines (· == 10) bytes).map decodeLine

end Dimacs

end ParitySat
