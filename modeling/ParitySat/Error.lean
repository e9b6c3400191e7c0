/-
This file lists the causes of failure and their messages.
-/

namespace ParitySat

/-- A host value is not a literal for one of these reasons. -/
inductive LiteralFault where
  | notAnInteger
  | zero
  | outOfRange
  deriving DecidableEq, Repr

inductive BufferFault where
  | unterminated
  | itemSize (size : Nat)
  | typecode (text : String)
  deriving DecidableEq, Repr

inductive ConfigFault where
  | verbosity
  | timeLimit
  | conflictLimit
  | threads
  deriving DecidableEq, Repr

/-- A byte of the backend is illegal as a truth value or as an answer. -/
inductive BackendFault where
  | truthValue (byte : UInt8)
  | answer (byte : UInt8)
  deriving DecidableEq, Repr

inductive DimacsFault where
  | literal (token : String)
  | header (rest : String)
  | variableCount (count : Int)
  | parityInsideClause
  | parityUnterminated
  deriving DecidableEq, Repr

inductive ReadFault where
  | invalidText
  | missing
  | forbidden
  | directory
  | other (text : String)
  deriving DecidableEq, Repr

/-- An unfinished call ran out of its steps. -/
inductive Error where
  | invalidLiteral (value : String) (fault : LiteralFault)
  | negatedInParity (value : Int)
  | malformedBuffer (fault : BufferFault)
  | unknownVariable (number : Int)
  | noTraversal
  | illegalBackend (fault : BackendFault)
  | undetermined (found : Nat)
  | invalidConfig (fault : ConfigFault)
  | dimacs (line : Nat) (fault : DimacsFault)
  | unreadable (fault : ReadFault)
  | unfinished
  deriving DecidableEq, Repr

namespace LiteralFault

def text : LiteralFault → String
  | .notAnInteger => "not an integer"
  | .zero => "zero"
  | .outOfRange => "out of range"

def message (value : String) : LiteralFault → String
  | .notAnInteger => "integer expected"
  | .zero => "non-zero integer expected"
  | .outOfRange => "integer '" ++ value ++ "' is too small or too large"

end LiteralFault

def BufferFault.message : BufferFault → String
  | .unterminated => "last clause not terminated by zero"
  | .itemSize size => "invalid clause array: invalid itemsize '" ++ toString size ++ "'"
  | .typecode text => "invalid clause array: invalid typecode '" ++ text ++ "'"

def ConfigFault.message : ConfigFault → String
  | .verbosity => "verbosity must be at least 0"
  | .timeLimit => "time_limit must be at least 0"
  | .conflictLimit => "conflict limit must be at least 0"
  | .threads => "number of threads must be at least 1"

def BackendFault.message : BackendFault → String
  | .truthValue byte => "invalid truth value " ++ toString byte.toNat
  | .answer byte => "invalid response from `solve()`: " ++ toString byte.toNat

def DimacsFault.message : DimacsFault → String
  | .literal token => "invalid literal '" ++ token ++ "'"
  | .header rest => "invalid header 'p" ++ rest ++ "'"
  | .variableCount count => "invalid variable count '" ++ toString count ++ "'"
  | .parityInsideClause => "XOR line inside an unterminated clause"
  | .parityUnterminated => "XOR line not terminated by zero"

def ReadFault.message : ReadFault → String
  | .invalidText => "stream did not contain valid UTF-8"
  | .missing => "No such file or directory (os error 2)"
  | .forbidden => "Permission denied (os error 13)"
  | .directory => "Is a directory (os error 21)"
  | .other text => text

namespace Error

def message : Error → String
  | .invalidLiteral value fault => fault.message value
  | .negatedInParity value =>
    "XOR clause must contain only positive variables (not inverted literals), got '" ++
      toString value ++ "'"
  | .malformedBuffer fault => fault.message
  | .unknownVariable number => "variable '" ++ toString number ++ "' not used in clauses"
  | .noTraversal =>
    "No active learnt clause traversal, call `start_getting_small_clauses` first"
  | .illegalBackend fault => "Illegal engine state: " ++ fault.message
  | .undetermined found =>
    "Nothing to do => sol undef (after " ++ toString found ++ " solutions)"
  | .invalidConfig fault => fault.message
  | .dimacs line fault => "DIMACS line " ++ toString line ++ ": " ++ fault.message
  | .unreadable fault => "I/O error: " ++ fault.message
  | .unfinished => "search not finished"

/-- A value of the wrong type is told apart from a wrong value. -/
def isTypeError : Error → Bool
  | .invalidLiteral _ .notAnInteger => true
  | _ => false

end Error

end ParitySat
