/-
This file is the command line program.
-/

import ParitySat.CommandLine.Program

namespace ParitySat.CommandLine

/-- The program charges every poll of the clock this many nanoseconds. -/
def nominalPoll : Nat := 20000

/-- The program runs one worker and leaves the search practically unbounded. -/
def programEnvironment : Environment :=
  { generator := splitMix
    clock := fun _ poll => poll * nominalPoll
    signal := fun _ => none
    steps := 0x4000000000000000
    pool := 1 }

/-- The usual faults have messages of their own. -/
def readFault : IO.Error → ReadFault
  | .noFileOrDirectory .. => .missing
  | .permissionDenied .. => .forbidden
  | .inappropriateType .. => .directory
  | error => .other (toString error)

/-- This action reads the lines of a file. -/
def readFile (path : String) : IO FileContents := do
  try
    let bytes ← IO.FS.readBinFile path
    return .ok (Dimacs.linesOfBytes bytes.toList)
  catch error =>
    return .error (readFault error)

def program (arguments : List String) : IO UInt32 := do
  let parsed := Arguments.parse arguments
  let file ← match parsed with
    | .ok arguments => readFile arguments.path
    | .error _ => pure (.error .missing)
  let report := report programEnvironment parsed file
  for line in report.output do
    IO.println line
  if let some message := report.message then
    IO.eprintln ("Error: " ++ message)
  return UInt32.ofNat report.exitCode

end ParitySat.CommandLine

def main (arguments : List String) : IO UInt32 :=
  ParitySat.CommandLine.program arguments
