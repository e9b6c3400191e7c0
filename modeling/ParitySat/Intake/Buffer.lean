/-
This file cuts a flat buffer of integers into clauses that zeros terminate.
-/

import ParitySat.HostLiteral

namespace ParitySat

/-- The items of a buffer have one of three integer widths. -/
inductive ItemWidth where
  | int
  | long
  | longLong
  deriving DecidableEq, Repr

namespace ItemWidth

/-- The size of an item in bytes. -/
def size : ItemWidth → Nat
  | .int => 4
  | .long => 8
  | .longLong => 8

/-- The first width of the given size is preferred. -/
def ofItemSize (itemSize : Nat) : Except Error ItemWidth :=
  if itemSize = ItemWidth.int.size then .ok .int
  else if itemSize = ItemWidth.long.size then .ok .long
  else if itemSize = ItemWidth.longLong.size then .ok .longLong
  else .error (.malformedBuffer (.itemSize itemSize))

/-- Only three typecodes name signed integers that may hold literals. -/
def checkTypecode (typecode : String) : Except Error Unit :=
  if typecode = "i" ∨ typecode = "l" ∨ typecode = "q" then .ok ()
  else .error (.malformedBuffer (.typecode typecode))

end ItemWidth

structure ClauseBuffer where
  width : ItemWidth
  items : List Int
  deriving DecidableEq, Repr

namespace ClauseBuffer

def length (buffer : ClauseBuffer) : Nat :=
  buffer.items.length

def isEmpty (buffer : ClauseBuffer) : Bool :=
  buffer.items.isEmpty

/-- The last item of a buffer that is not empty has to be zero. -/
def isTerminated (buffer : ClauseBuffer) : Bool :=
  buffer.items.getLast?.all (· == 0)

/-- The segment being read and the finished segments are kept in reverse. -/
def segmentsFrom : List Int → List Int → List (List Int) → List (List Int)
  | [], _, done => done.reverse
  | item :: rest, segment, done =>
    if item = 0 then
      if segment.isEmpty then segmentsFrom rest [] done
      else segmentsFrom rest [] (segment.reverse :: done)
    else segmentsFrom rest (item :: segment) done

/-- This function lists the segments between zeros, without the empty ones. -/
def segments (buffer : ClauseBuffer) : List (List Int) :=
  segmentsFrom buffer.items [] []

/-- A buffer that is not terminated has no clauses. -/
def clauses (buffer : ClauseBuffer) : Except Error (List (List HostLiteral)) :=
  if buffer.isTerminated then .ok (buffer.segments.map (·.map HostLiteral.integer))
  else .error (.malformedBuffer .unterminated)

end ClauseBuffer

/-- A batch lists its clauses or holds them in a buffer. -/
inductive ClauseBatch where
  | list (clauses : List (List HostLiteral))
  | buffer (buffer : ClauseBuffer)
  deriving DecidableEq, Repr

def ClauseBatch.clauses : ClauseBatch → Except Error (List (List HostLiteral))
  | .list clauses => .ok clauses
  | .buffer items => items.clauses

end ParitySat
