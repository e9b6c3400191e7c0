/-
This file defines the limits of one search and what the search may observe of the outside world.
-/

import ParitySat.Engine.Options
import ParitySat.Engine.Random

namespace ParitySat

/-- A worker asks its limits again and again, and the clock and the signal answer each poll.

The clock counts nanoseconds since the call began.  The signal names the first poll at which a
worker sees that another worker has finished.  The steps bound every single search. -/
structure Environment where
  generator : Generator
  clock : Nat → Nat → Nat
  signal : Nat → Option Nat
  steps : Nat
  pool : Nat

/-- The search cannot go on. -/
inductive Stuck where
  | outOfSteps
  | noImplicationPoint
  deriving DecidableEq, Repr

/-- A missing limit never stops the search. -/
structure Budget where
  conflictLimit : Option Nat
  deadline : Option Nat
  clock : Nat → Nat
  signal : Option Nat

namespace Budget

/-- Counters stop growing at this number. -/
def counterBound : Nat :=
  0xFFFFFFFFFFFFFFFF

/-- A time of this many nanoseconds lies beyond the range of the clock. -/
def clockRange : Nat :=
  0x8000000000000000 * 1000000000

/-- The limits count from the conflicts that earlier calls have used. -/
def ofOptions (options : Options) (conflicts : Nat) (clock : Nat → Nat)
    (signal : Option Nat) : Budget :=
  { conflictLimit := options.maximumConflicts.map fun limit => min (conflicts + limit) counterBound
    deadline := options.maximumTime.filter (· < clockRange)
    clock
    signal }

/-- This function tells whether any limit is reached at a poll. -/
def exhausted (budget : Budget) (conflicts poll : Nat) : Bool :=
  budget.conflictLimit.any (· ≤ conflicts) ||
    budget.deadline.any (· ≤ budget.clock poll) ||
    budget.signal.any (· ≤ poll)

end Budget

end ParitySat
