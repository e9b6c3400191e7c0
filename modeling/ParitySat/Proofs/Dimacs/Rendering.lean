/-
This file says which texts render a problem, and that every problem has a rendering.
-/

import Mathlib.Algebra.Group.Nat.Even
import Mathlib.Data.List.Forall2
import ParitySat.Dimacs
import ParitySat.Proofs.Numeral.Integer
import ParitySat.Proofs.Text.Blank

namespace ParitySat.Dimacs

open Numeral Text

/-- The numbers of a problem have 64 bits, and zero is no literal. -/
structure WellFormed (problem : Dimacs) : Prop where
  count : (problem.variableCount : Int) < signedBound
  clauses : ∀ clause ∈ problem.clauses, ∀ number ∈ clause, number ≠ 0 ∧ Signed64 number
  parities : ∀ line ∈ problem.parities, ∀ number ∈ line.numbers, 0 < number ∧ Signed64 number

/-- What one line says. -/
inductive Entry where
  | nothing
  | header (variableCount : Nat)
  | parity (written : List Int)
  | numbers (numbers : List Int)

/-- A literal of a clause, the zero behind a clause, or a whole parity constraint. -/
inductive Symbol where
  | number (number : Int)
  | parity (written : List Int)

namespace Entry

def symbols : Entry → List Symbol
  | .nothing => []
  | .header _ => []
  | .parity written => [.parity written]
  | .numbers listed => listed.map .number

def variableCount? : Entry → Option Nat
  | .header variableCount => some variableCount
  | _ => none

/-- A line may be indented, and its words may stand apart as far as they like. -/
inductive Written : Entry → List Char → Prop where
  | blank {line : List Char} (blank : Blank line) : Written .nothing line
  | comment {indentation text : List Char} (blank : Blank indentation) :
      Written .nothing (indentation ++ 'c' :: text)
  | header {indentation count clauseCount text : List Char} {variableCount : Nat}
      (blank : Blank indentation) (spells : Spells count variableCount)
      (spaced : Spaced [['c', 'n', 'f'], count, clauseCount] text) :
      Written (.header variableCount) (indentation ++ 'p' :: text)
  | parity {indentation text : List Char} {words : List (List Char)} {written : List Int}
      (blank : Blank indentation) (spelled : List.Forall₂ Spells words (written ++ [0]))
      (spaced : Spaced words text) :
      Written (.parity written) (indentation ++ 'x' :: text)
  | numbers {line : List Char} {words : List (List Char)} {numbers : List Int}
      (some : words ≠ []) (spelled : List.Forall₂ Spells words numbers)
      (spaced : Spaced words line) :
      Written (.numbers numbers) line

end Entry

/-- Any variables may be negated, and an even number of them means that the parity is true. -/
structure NegatedIn (line : ParityLine) (written : List Int) : Prop where
  numbers : written.map (fun number => (number.natAbs : Int)) = line.numbers
  parity : Even (written.countP (· < 0)) ↔ line.parity = true

/-- A zero stands behind every clause but perhaps a last one that is not empty. -/
inductive Lists : List Symbol → List (List Int) → List ParityLine → Prop where
  | nothing : Lists [] [] []
  | unended {clause : List Int} (some : clause ≠ []) : Lists (clause.map .number) [clause] []
  | clause {clause : List Int} {later : List Symbol} {clauses : List (List Int)}
      {parities : List ParityLine} (rest : Lists later clauses parities) :
      Lists (clause.map .number ++ .number 0 :: later) (clause :: clauses) parities
  | parity {written : List Int} {line : ParityLine} {later : List Symbol}
      {clauses : List (List Int)} {parities : List ParityLine} (negated : NegatedIn line written)
      (rest : Lists later clauses parities) :
      Lists (.parity written :: later) clauses (line :: parities)

/-- A last line may lack its break, and a line with a percent sign hides all that follows. -/
inductive Laid : List (List Char) → List Char → Prop where
  | nothing : Laid [] []
  | last {line : List Char} (some : line ≠ []) : Laid [line] line
  | final {indentation hidden : List Char} (blank : Blank indentation)
      (unbroken : '\n' ∉ indentation) : Laid [] (indentation ++ '%' :: hidden)
  | line {line text : List Char} {lines : List (List Char)} (rest : Laid lines text) :
      Laid (line :: lines) (line ++ '\n' :: text)

/-- A text renders a problem if its lines list the parts of the problem in their order.

One of the lines is the header. Clauses may be broken over lines at any places, also around the
header, a comment or a blank line. -/
inductive Renders (problem : Dimacs) (text : List Char) : Prop where
  | intro {lines : List (List Char)} {entries : List Entry} (laid : Laid lines text)
      (unbroken : ∀ line ∈ lines, '\n' ∉ line) (written : List.Forall₂ Entry.Written entries lines)
      (header : entries.filterMap Entry.variableCount? = [problem.variableCount])
      (lists : Lists (entries.flatMap Entry.symbols) problem.clauses problem.parities)

def printed (number : Int) : List Char :=
  (toString number).toList

/-- The first variable is negated if the parity is false. -/
def negated (line : ParityLine) : List Int :=
  match line.numbers with
  | [] => []
  | first :: rest => (if line.parity then first else -first) :: rest

def clauseLine (clause : List Int) : List Char :=
  spaced ((clause ++ [0]).map printed)

def parityConstraintLine (line : ParityLine) : List Char :=
  'x' :: spaced ((negated line ++ [0]).map printed)

def headerLine (problem : Dimacs) : List Char :=
  'p' :: spaced [['c', 'n', 'f'], printed problem.variableCount, printed problem.clauses.length]

/-- Every clause and every parity constraint has a line of its own. -/
def renderedLines (problem : Dimacs) : List (List Char) :=
  headerLine problem ::
    (problem.clauses.map clauseLine ++ problem.parities.map parityConstraintLine)

/-- This function renders a problem in a plain way. -/
def render (problem : Dimacs) : List Char :=
  (renderedLines problem).flatMap (· ++ ['\n'])

theorem printedSpells (numbers : List Int) :
    List.Forall₂ Spells (numbers.map printed) numbers :=
  List.forall₂_map_left_iff.2 (List.forall₂_same.2 fun number _ => spellsPrinted number)

theorem printedSpaced (numbers : List Int) :
    Spaced (numbers.map printed) (spaced (numbers.map printed)) :=
  spacedSpaced (List.forall_mem_map.2 fun number _ => (spellsPrinted number).isWord)

theorem blankNil : Blank [] := fun _ member => absurd member List.not_mem_nil

theorem clauseLineWritten (clause : List Int) :
    (Entry.numbers (clause ++ [0])).Written (clauseLine clause) :=
  .numbers (by simp) (printedSpells _) (printedSpaced _)

theorem parityLineWritten (line : ParityLine) :
    (Entry.parity (negated line)).Written (parityConstraintLine line) :=
  .parity blankNil (printedSpells _) (printedSpaced _)

theorem headerWords (problem : Dimacs) : ∀ word ∈ [['c', 'n', 'f'],
    printed problem.variableCount, printed problem.clauses.length], IsWord word := by
  simp only [List.forall_mem_cons]
  exact ⟨⟨by decide, by simp [isBlank]⟩, (spellsPrinted _).isWord, (spellsPrinted _).isWord,
    fun _ member => absurd member List.not_mem_nil⟩

theorem headerLineWritten (problem : Dimacs) :
    (Entry.header problem.variableCount).Written (headerLine problem) :=
  .header blankNil (spellsPrinted problem.variableCount) (spacedSpaced (headerWords problem))

section Signs

variable {numbers : List Int} (positive : ∀ number ∈ numbers, 0 < number)
include positive

theorem sizesPositive : numbers.map (fun number => (number.natAbs : Int)) = numbers := by
  refine (List.map_congr_left fun number member => ?_).trans (List.map_id numbers)
  exact Int.natAbs_of_nonneg (Int.le_of_lt (positive number member))

theorem noneNegative : numbers.countP (· < 0) = 0 := by
  refine List.countP_eq_zero.2 fun number member => ?_
  rw [decide_eq_true_eq]
  exact Int.lt_asymm (positive number member)

end Signs

/-- The printed signs stand for the parity of the line. -/
theorem negatedIn {line : ParityLine} (positive : ∀ number ∈ line.numbers, 0 < number)
    (even : line.numbers = [] → line.parity = true) : NegatedIn line (negated line) := by
  obtain ⟨numbers, parity⟩ := line
  cases numbers with
  | nil =>
      obtain rfl := even rfl
      exact ⟨rfl, by simp [negated]⟩
  | cons first rest =>
      cases parity with
      | true =>
          have same : negated ⟨first :: rest, true⟩ = first :: rest := rfl
          rw [same]
          exact ⟨sizesPositive positive, by simp [noneNegative positive]⟩
      | false =>
          have same : negated ⟨first :: rest, false⟩ = -first :: rest := rfl
          have sizes := sizesPositive positive
          rw [List.map_cons] at sizes
          rw [List.forall_mem_cons] at positive
          rw [same]
          refine ⟨by rw [List.map_cons, Int.natAbs_neg, sizes], ?_⟩
          rw [List.countP_cons_of_pos (by simpa using positive.1), noneNegative positive.2]
          simp

/-- What the printed lines say: the header first, then the clauses, then the parity constraints. -/
def printedEntries (problem : Dimacs) : List Entry :=
  .header problem.variableCount ::
    (problem.clauses.map (fun clause => Entry.numbers (clause ++ [0])) ++
      problem.parities.map (fun line => Entry.parity (negated line)))

theorem parityEntriesList {parities : List ParityLine}
    (positive : ∀ line ∈ parities, ∀ number ∈ line.numbers, 0 < number)
    (even : ∀ line ∈ parities, line.numbers = [] → line.parity = true) :
    Lists ((parities.map fun line => Entry.parity (negated line)).flatMap Entry.symbols) []
      parities := by
  induction parities with
  | nil => exact .nothing
  | cons line rest inductionHypothesis =>
      rw [List.forall_mem_cons] at positive even
      exact .parity (negatedIn positive.1 even.1) (inductionHypothesis positive.2 even.2)

theorem clauseEntriesList (clauses : List (List Int)) {entries : List Entry}
    {parities : List ParityLine} (later : Lists (entries.flatMap Entry.symbols) [] parities) :
    Lists ((clauses.map (fun clause => Entry.numbers (clause ++ [0])) ++ entries).flatMap
      Entry.symbols) clauses parities := by
  induction clauses with
  | nil => exact later
  | cons clause rest inductionHypothesis =>
      rw [List.map_cons, List.cons_append, List.flatMap_cons, Entry.symbols, List.map_append,
        List.append_assoc]
      exact .clause inductionHypothesis

theorem entriesHeader (problem : Dimacs) :
    (printedEntries problem).filterMap Entry.variableCount? = [problem.variableCount] := by
  simp [printedEntries, Entry.variableCount?, List.filterMap_map]

/-- One kind of line after the other is written as its entries say. -/
theorem entriesWritten (problem : Dimacs) :
    List.Forall₂ Entry.Written (printedEntries problem) (renderedLines problem) := by
  refine .cons (headerLineWritten problem) (List.rel_append ?_ ?_)
  · exact List.forall₂_map_left_iff.2 (List.forall₂_map_right_iff.2
      (List.forall₂_same.2 fun clause _ => clauseLineWritten clause))
  · exact List.forall₂_map_left_iff.2 (List.forall₂_map_right_iff.2
      (List.forall₂_same.2 fun line _ => parityLineWritten line))

theorem laidBroken (lines : List (List Char)) : Laid lines (lines.flatMap (· ++ ['\n'])) := by
  induction lines with
  | nil => exact .nothing
  | cons line rest inductionHypothesis =>
      rw [List.flatMap_cons, List.append_assoc, List.singleton_append]
      exact .line inductionHypothesis

theorem renderedUnbroken (problem : Dimacs) : ∀ line ∈ renderedLines problem, '\n' ∉ line := by
  have spelled (numbers : List Int) : '\n' ∉ spaced (numbers.map printed) :=
    spacedUnbroken (List.forall_mem_map.2 fun number _ => (spellsPrinted number).isWord)
  rw [renderedLines, List.forall_mem_cons, List.forall_mem_append, List.forall_mem_map,
    List.forall_mem_map]
  refine ⟨?_, fun clause _ => spelled _, fun line _ => ?_⟩
  · exact List.not_mem_cons_of_ne_of_not_mem (by decide) (spacedUnbroken (headerWords problem))
  · exact List.not_mem_cons_of_ne_of_not_mem (by decide) (spelled _)

/-- A line with an x and no variables can only mean that the parity is true. -/
theorem rendersRendered {problem : Dimacs}
    (positive : ∀ line ∈ problem.parities, ∀ number ∈ line.numbers, 0 < number)
    (even : ∀ line ∈ problem.parities, line.numbers = [] → line.parity = true) :
    Renders problem (render problem) :=
  .intro (laidBroken _) (renderedUnbroken problem) (entriesWritten problem)
    (entriesHeader problem)
    (clauseEntriesList problem.clauses (parityEntriesList positive even))

end ParitySat.Dimacs
