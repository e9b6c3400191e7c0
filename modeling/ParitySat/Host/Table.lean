/-
This file builds tables, whose entries are distinct by the equality of the host.
-/

import ParitySat.Host.Value
import ParitySat.Numeral.Nearest

namespace ParitySat.Host

/-- Equal values have the same spelling in these symbols. -/
inductive KeySymbol where
  | nothing
  | whole (number : Int)
  | fraction (bits : UInt64)
  | text (content : String)
  | opened (container : Container)
  | closed
  deriving DecidableEq, Repr

namespace Value

/-- A missing number is equal to nothing, and a whole number is equal to the integer. -/
def floatKey? (number : Float) : Option (List KeySymbol) :=
  if number.isNaN then none
  else
    match Numeral.whole? number with
    | some whole => some [.whole whole]
    | none => some [.fraction number.toBits]

mutual

/-- A boolean is equal to an integer, and a value without a key is equal to itself alone. -/
def key? : Value → Option (List KeySymbol)
  | .nothing => some [.nothing]
  | .boolean flag => some [.whole (if flag then 1 else 0)]
  | .integer number => some [.whole number]
  | .float number => floatKey? number
  | .text content => some [.text content]
  | .sequence .unique _ => none
  | .sequence container items =>
    (keys? items).map fun symbols => .opened container :: symbols ++ [.closed]
  | _ => none

/-- The items of a sequence are spelled one after another. -/
def keys? : List Value → Option (List KeySymbol)
  | [] => some []
  | first :: rest =>
    match first.key?, keys? rest with
    | some symbols, some others => some (symbols ++ others)
    | _, _ => none

end

/-- An entry whose key has been seen is dropped. -/
def distinctFrom : List Value → List (List KeySymbol) → List Value
  | [], _ => []
  | first :: rest, seen =>
    match first.key? with
    | none => first :: distinctFrom rest seen
    | some key =>
      if seen.contains key then distinctFrom rest seen
      else first :: distinctFrom rest (key :: seen)

/-- Of several equal entries a table keeps the first. -/
def table (entries : List Value) : Value :=
  .sequence .unique (distinctFrom entries [])

end Value

end ParitySat.Host
