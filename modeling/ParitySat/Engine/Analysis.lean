/-
This file derives from a conflict a clause that forces a literal at an earlier level.
-/

import ParitySat.Engine.Propagation

namespace ParitySat

/-- The result of an analysis has its forced literal first and a literal of the level it
returns to second. -/
structure Analysis where
  literals : List Literal
  returnLevel : Nat
  glue : Nat
  touched : List Nat
  deriving DecidableEq, Repr

/-- The exploration counts the marked atoms of the conflict level and collects the literals
of lower levels. -/
structure Exploration where
  marks : Array Bool
  pending : Nat
  lower : Array Literal
  touched : Array Nat

namespace Exploration

/-- A literal of the root level needs no explanation. -/
def consider (trail : Trail) (exploration : Exploration) (literal : Literal) : Exploration :=
  let atom := literal.atom
  let level := trail.atomLevel atom
  if !exploration.marks.getD atom false && 0 < level then
    let marked := { exploration with
      marks := exploration.marks.setIfInBounds atom true
      touched := exploration.touched.push atom }
    if trail.level ≤ level then { marked with pending := marked.pending + 1 }
    else { marked with lower := marked.lower.push literal }
  else exploration

def considerAll (trail : Trail) (exploration : Exploration) (literals : List Literal) :
    Exploration :=
  literals.foldl (consider trail) exploration

def unmark (exploration : Exploration) (atom : Nat) : Exploration :=
  { exploration with marks := exploration.marks.setIfInBounds atom false }

/-- This function walks the trail backwards to the only marked literal left at the conflict
level. -/
def resolve (network : Network) : Nat → Exploration → Option Literal × Exploration
  | 0, exploration => (none, exploration)
  | index + 1, exploration =>
    let literal := network.trail.literals.getD index default
    if exploration.marks.getD literal.atom false then
      let unmarked := exploration.unmark literal.atom
      match unmarked.pending with
      | 0 => (none, unmarked)
      | 1 => (some literal, unmarked)
      | pending + 2 =>
        match network.trail.reason literal.atom with
        | none => (none, unmarked)
        | some reason =>
          resolve network index
            (considerAll network.trail { unmarked with pending := pending + 1 }
              (network.explain (some literal.atom) reason))
    else resolve network index exploration

end Exploration

namespace Analysis

/-- This function finds the last of the greatest keys. -/
def lastMaximum (key : Literal → Nat) : List Literal → Nat → Nat → Nat → Nat
  | [], _, best, _ => best
  | literal :: rest, index, best, bestKey =>
    if bestKey ≤ key literal then lastMaximum key rest (index + 1) index (key literal)
    else lastMaximum key rest (index + 1) best bestKey

/-- A literal of the greatest level changes places with the first one. -/
def promote (key : Literal → Nat) (lower : Array Literal) : Array Literal :=
  lower.swapIfInBounds 0 (lastMaximum key lower.toList 0 0 0)

/-- This function counts the distinct levels of the literals. -/
def distinctLevels (trail : Trail) (literals : List Literal) : Nat :=
  (literals.map fun literal => trail.atomLevel literal.atom).eraseDups.length

/-- This function assembles the clause from the implication point and the lower literals. -/
def assemble (trail : Trail) (point : Literal) (exploration : Exploration) : Analysis :=
  let lower := (promote (fun literal => trail.atomLevel literal.atom) exploration.lower).toList
  let literals := point.negate :: lower
  { literals
    returnLevel := (lower.head?.map fun literal => trail.atomLevel literal.atom).getD 0
    glue := distinctLevels trail literals
    touched := exploration.touched.toList }

end Analysis

/-- This function clears the marks of the lower literals. -/
def Exploration.clearLower (exploration : Exploration) : Array Bool :=
  exploration.lower.toList.foldl
    (fun marks literal => marks.setIfInBounds literal.atom false) exploration.marks

/-- The marks are clear before an analysis and after it. -/
def Network.analyze (network : Network) (marks : Array Bool) (conflict : Reason) :
    Option Analysis × Array Bool :=
  let start := Exploration.considerAll network.trail ⟨marks, 0, #[], #[]⟩
    (network.explain none conflict)
  match Exploration.resolve network network.trail.literals.size start with
  | (none, exploration) => (none, exploration.marks)
  | (some point, exploration) =>
    (some (Analysis.assemble network.trail point exploration), exploration.clearLower)

end ParitySat
