/-
This file defines the settings of the engine and the counters it keeps.
-/

namespace ParitySat

/-- The maximal time counts nanoseconds, and a missing limit is no limit. -/
structure Options where
  verbosity : Nat := 0
  restartInitial : Nat := 100
  restartGrowth : Float := 2.0
  activityDecay : Float := 0.95
  randomFrequency : Float := 0.0
  seed : UInt64 := 91648253
  minimumLearnts : Nat := 1000
  learntFactor : Float := 1.0 / 3.0
  learntGrowth : Float := 1.1
  adjustStart : Nat := 100
  adjustGrowth : Float := 1.5
  maximumTime : Option Nat := none
  maximumConflicts : Option Nat := none
  threads : Nat := 1
  deriving Inhabited

/-- The propagations are counted by the constraint network. -/
structure Statistics where
  decisions : Nat := 0
  conflicts : Nat := 0
  restarts : Nat := 0
  learnts : Nat := 0
  reductions : Nat := 0
  solves : Nat := 0
  deriving Repr, Inhabited

end ParitySat
