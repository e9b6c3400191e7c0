/-
This file defines the values of a dynamically typed host and reads literals from them.
-/

import ParitySat.HostLiteral
import ParitySat.Intake.Buffer

namespace ParitySat.Host

/-- The container decides which sequences are equal, and the last kind is equal to itself
alone. -/
inductive Container where
  | tuple
  | bytes
  | range
  | unique
  deriving DecidableEq, Repr

/-- The host tells failures apart by these kinds. -/
inductive FailureKind where
  | wrongType
  | wrongValue
  | wrongBuffer
  | illegalState
  | undetermined
  deriving DecidableEq, Repr

/-- An exception belongs to a kind, and its class may be a narrower one. -/
structure Exception where
  kind : FailureKind
  className : String
  message : String
  deriving DecidableEq, Repr

/-- An array has a true element code and declares a typecode and an item size, which may lie.

The iterator of a raising sequence raises the exception after its items. -/
inductive Value where
  | nothing
  | boolean (flag : Bool)
  | integer (number : Int)
  | float (number : Float)
  | text (content : String)
  | sequence (container : Container) (items : List Value)
  | raising (items : List Value) (exception : Exception)
  | indexed (number : Int)
  | object
  | array (code : Char) (items : List Value) (typecode : String) (itemSize : Nat)
  deriving Inhabited

/-- A call of the host fails because of its arguments or because of the solver. -/
inductive Failure where
  | notIterable
  | iterationFailed (exception : Exception)
  | notBoolean
  | incompatibleItems (width : ItemWidth)
  | solver (error : Error)
  deriving DecidableEq, Repr

namespace Failure

def kind : Failure → FailureKind
  | .notIterable => .wrongType
  | .iterationFailed exception => exception.kind
  | .notBoolean => .wrongType
  | .incompatibleItems _ => .wrongBuffer
  | .solver (.illegalBackend _) => .illegalState
  | .solver (.undetermined _) => .undetermined
  | .solver error => if error.isTypeError then .wrongType else .wrongValue

def message : Failure → String
  | .notIterable => "iterable object expected"
  | .iterationFailed exception => exception.message
  | .notBoolean => "rhs must be boolean"
  | .incompatibleItems width =>
    "buffer contents are not compatible with i" ++ toString (8 * width.size)
  | .solver error => error.message

end Failure

/-- An iteration may raise an exception after its last item. -/
structure Iteration where
  items : List Value
  raised? : Option Exception := none

namespace Value

/-- This function is a sequence whose iterator raises a plain exception after the items. -/
def failing (items : List Value) : Value :=
  .raising items ⟨.wrongValue, "ValueError", "host iterator failed"⟩

/-- A text is iterated by its characters. -/
def iterate? : Value → Option Iteration
  | .text content =>
    some { items := content.toList.map fun character => .text (String.singleton character) }
  | .sequence _ items => some { items }
  | .raising items exception => some { items, raised? := some exception }
  | .array _ items _ _ => some { items }
  | _ => none

/-- A boolean counts as an integer, and a convertible object does not. -/
def toLiteral : Value → HostLiteral
  | .boolean flag => .integer (if flag then 1 else 0)
  | .integer number => .ofInteger number
  | _ => .other ""

/-- This function reads every item of an iteration that does not fail. -/
def readLiterals (value : Value) : Except Failure (List HostLiteral) :=
  match value.iterate? with
  | none => .error .notIterable
  | some iteration =>
    match iteration.raised? with
    | some exception => .error (.iterationFailed exception)
    | none => .ok (iteration.items.map toLiteral)

/-- The clauses before the first failure come with that failure. -/
def readClausesFrom (raised? : Option Exception) :
    List Value → List (List HostLiteral) → List (List HostLiteral) × Option Failure
  | [], done => (done.reverse, raised?.map .iterationFailed)
  | first :: rest, done =>
    match first.readLiterals with
    | .error failure => (done.reverse, some failure)
    | .ok literals => readClausesFrom raised? rest (literals :: done)

def readClauses (iteration : Iteration) : List (List HostLiteral) × Option Failure :=
  readClausesFrom iteration.raised? iteration.items []

/-- Only signed integers of the declared size can be read from a buffer. -/
def itemsFit (code : Char) : ItemWidth → Bool
  | .int => code == 'i'
  | .long => code == 'l' || code == 'q'
  | .longLong => code == 'l' || code == 'q'

def toInteger : Value → Int
  | .integer number => number
  | _ => 0

/-- The declared typecode is checked before the declared item size and that before the items. -/
def readBuffer (code : Char) (items : List Value) (typecode : String) (itemSize : Nat) :
    Except Failure ClauseBuffer :=
  match ItemWidth.checkTypecode typecode with
  | .error error => .error (.solver error)
  | .ok () =>
    match ItemWidth.ofItemSize itemSize with
    | .error error => .error (.solver error)
    | .ok width =>
      if itemsFit code width then .ok { width, items := items.map toInteger }
      else .error (.incompatibleItems width)

end Value

end ParitySat.Host
