/-
This file validates the settings of a session and applies them to a backend.
-/

import ParitySat.Backend
import ParitySat.Error

namespace ParitySat

/-- A limit of zero is no limit. -/
structure Config where
  verbosity : Nat := 0
  timeLimit : Float := 0.0
  conflictLimit : Nat := 0
  threads : Nat := 1
  deriving Inhabited

namespace Config

/-- A greater verbosity counts as this one. -/
def maximumVerbosity : Nat := 0xFFFFFFFF

/-- The settings are checked in order, and the first fault counts. -/
def ofHost (verbosity : Int) (timeLimit : Float) (conflictLimit threads : Int) :
    Except Error Config :=
  if verbosity < 0 then .error (.invalidConfig .verbosity)
  else if !(0.0 ≤ timeLimit) then .error (.invalidConfig .timeLimit)
  else if conflictLimit < 0 then .error (.invalidConfig .conflictLimit)
  else if threads ≤ 0 then .error (.invalidConfig .threads)
  else
    .ok {
      verbosity := min verbosity.toNat maximumVerbosity
      timeLimit
      conflictLimit := conflictLimit.toNat
      threads := threads.toNat }

/-- Zeros of either sign are equal here. -/
def isDefault (config : Config) : Bool :=
  config.verbosity == 0 && config.timeLimit == 0.0 && config.conflictLimit == 0 &&
    config.threads == 1

variable {β : Type} [Backend β]

/-- Only the thread count is always applied. -/
def apply (config : Config) (backend : β) : β :=
  let timed :=
    if 0.0 < config.timeLimit then Backend.setMaximumTime config.timeLimit backend else backend
  let limited :=
    if 0 < config.conflictLimit then Backend.setMaximumConflicts config.conflictLimit timed
    else timed
  let verbose :=
    if 0 < config.verbosity then Backend.setVerbosity config.verbosity limited else limited
  Backend.setThreads config.threads verbose

end Config

end ParitySat
