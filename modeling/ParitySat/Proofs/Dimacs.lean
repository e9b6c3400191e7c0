/-
This file shows what a DIMACS text asks for and that the reader does not change it.
-/

import ParitySat.Dimacs
import ParitySat.Proofs.Engine.Runs
import ParitySat.Proofs.Numeral.Integer

namespace ParitySat

/-- Variables are numbered from one, and a negative number stands for a negated variable. -/
def Literal.ofNumber (number : Int) : Literal :=
  ⟨number.natAbs - 1, number < 0⟩

/-- This function is the exclusive or of all the values. -/
def exclusiveOr (values : List Bool) : Bool :=
  values.foldr xor false

/-- Only the atoms of a constraint matter to it. -/
theorem Constraint.holdsCongr {constraint : Constraint} {first second : Nat → Bool}
    (same : ∀ atom ∈ constraint.atoms, first atom = second atom) :
    constraint.holds first = constraint.holds second := by
  cases constraint with
  | clause literals =>
      have literally : literals.map (·.holds first) = literals.map (·.holds second) := by
        refine List.map_congr_left fun literal member => ?_
        rw [Literal.holds, Literal.holds, same literal.atom (List.mem_map_of_mem member)]
      have values (assignment : Nat → Bool) :
          Clause.holds assignment literals = (literals.map (·.holds assignment)).any id := by
        rw [Clause.holds, List.any_map, Function.id_comp]
      rw [Constraint.holds, values, literally, ← values, Constraint.holds]
  | parity atoms odd => exact ParityConstraint.holdsCongr same

namespace Dimacs

/-- A number is true if the literal it stands for is. -/
def numberHolds (assignment : Nat → Bool) (number : Int) : Bool :=
  (Literal.ofNumber number).holds assignment

/-- These numbers stand before the first zero. -/
def written (words : List (List Char)) : List Int :=
  (words.filterMap Numeral.signed64?).takeWhile (· ≠ 0)

/-- This function lists what is written on the lines with an x, up to the line that ends the
problem. -/
def writtenParities : List (Option (List Char)) → List (List Int)
  | [] => []
  | none :: rest => writtenParities rest
  | some characters :: rest =>
    match Line.ofTrimmed (Text.trim characters) with
    | .final => []
    | .parity body => written (Text.words body) :: writtenParities rest
    | _ => writtenParities rest

/-- Some literal of every clause is true, and so is the exclusive or of what is written on any
line with an x. -/
structure Satisfied (lines : List (Option (List Char))) (problem : Dimacs)
    (assignment : Nat → Bool) : Prop where
  clauses : ∀ clause ∈ problem.clauses, ∃ number ∈ clause, numberHolds assignment number = true
  parities : ∀ numbers ∈ writtenParities lines,
    exclusiveOr (numbers.map (numberHolds assignment)) = true

/-- This function is what a clause asks of the engine. -/
def clauseConstraint (numbers : List Int) : Constraint :=
  .clause (numbers.map Literal.ofNumber)

/-- This function is what a line with an x asks of the engine once its signs are gone. -/
def parityConstraint (line : ParityLine) : Constraint :=
  .parity (line.numbers.map fun number => number.natAbs - 1) line.parity

/-- The clauses come first, as they are added. -/
def constraints (problem : Dimacs) : List Constraint :=
  problem.clauses.map clauseConstraint ++ problem.parities.map parityConstraint

theorem clauseConstraintHolds (numbers : List Int) (assignment : Nat → Bool) :
    (clauseConstraint numbers).holds assignment = true ↔
      ∃ number ∈ numbers, numberHolds assignment number = true := by
  simp [clauseConstraint, Constraint.holds, Clause.holds, numberHolds]

theorem oddnessAppend (assignment : Nat → Bool) (first second : List Nat) :
    ParityConstraint.oddness assignment (first ++ second) =
      (ParityConstraint.oddness assignment first != ParityConstraint.oddness assignment second) := by
  induction first with
  | nil => simp [ParityConstraint.oddness]
  | cons atom rest inductionHypothesis =>
      rw [List.cons_append, ParityConstraint.oddness, ParityConstraint.oddness,
        inductionHypothesis, Bool.bne_assoc]

/-- The words up to the zero are numbers, and each sign is moved to the parity. -/
theorem readParityHolds {words : List (List Char)} {numbers : Array Int} {parity : Bool}
    {line : ParityLine} (read : readParity words numbers parity = .ok line)
    (assignment : Nat → Bool) :
    (parityConstraint line).holds assignment =
      (exclusiveOr ((written words).map (numberHolds assignment)) ==
        (ParityConstraint.oddness assignment
          (numbers.toList.map fun number => number.natAbs - 1) != parity)) := by
  induction words generalizing numbers parity with
  | nil => contradiction
  | cons word rest inductionHypothesis =>
      rw [readParity] at read
      unfold readInteger at read
      cases known : Numeral.signed64? word with
      | none =>
          rw [known] at read
          contradiction
      | some number =>
          rw [known] at read
          simp only at read
          split at read
          · next zero =>
              subst zero
              obtain rfl := Except.ok.inj read
              have nothing : written (word :: rest) = [] := by simp [written, known]
              rw [nothing]
              change (ParityConstraint.oddness _ _ == parity) = (false == _)
              cases ParityConstraint.oddness assignment
                (numbers.toList.map fun number => number.natAbs - 1) <;> cases parity <;> rfl
          · next nonzero =>
              have more : written (word :: rest) = number :: written rest := by
                simp [written, known, nonzero]
              have size := Numeral.natAbsMagnitude (Numeral.signed64Bounded known)
              rw [inductionHypothesis read, more, Array.toList_push, List.map_append, oddnessAppend]
              change (exclusiveOr _ == _) =
                (xor (assignment (number.natAbs - 1) != decide (number < 0)) (exclusiveOr _) == _)
              generalize exclusiveOr _ = remaining
              generalize ParityConstraint.oddness assignment
                (numbers.toList.map fun number => number.natAbs - 1) = odd
              generalize decide (number < 0) = negative
              simp only [List.map_cons, List.map_nil, ParityConstraint.oddness, size]
              cases assignment (number.natAbs - 1) <;> cases remaining <;> cases odd <;>
                cases negative <;> cases parity <;> rfl

theorem readLiteralsParities {words : List (List Char)} {reader after : Reader}
    (read : readLiterals words reader = .ok after) : after.parities = reader.parities := by
  induction words generalizing reader with
  | nil =>
      obtain rfl := Except.ok.inj read
      rfl
  | cons word rest inductionHypothesis =>
      rw [readLiterals] at read
      split at read
      · contradiction
      · split at read
        · have later := inductionHypothesis read
          exact later
        · have later := inductionHypothesis read
          exact later

/-- This function is the meaning of a parity constraint that has been read. -/
def readMeaning (line : ParityLine) (assignment : Nat → Bool) : Bool :=
  (parityConstraint line).holds assignment

/-- This function is the meaning of what has been written on a line. -/
def writtenMeaning (numbers : List Int) (assignment : Nat → Bool) : Bool :=
  exclusiveOr (numbers.map (numberHolds assignment))

/-- This function lists what is written on a line with an x. -/
def lineParities : Line → List (List Int)
  | .parity body => [written (Text.words body)]
  | _ => []

theorem mapSomeNotNone {α β ε : Type} (result : Except ε α) (next : α → β) :
    (result.map fun value => some (next value)) ≠ .ok none := by
  cases result <;> simp [Except.map]

theorem readLineFinal {line : Line} {reader : Reader} (read : readLine line reader = .ok none) :
    line = .final := by
  cases line with
  | final => rfl
  | ignored => exact nomatch Except.ok.inj read
  | header header => exact absurd read (mapSomeNotNone _ _)
  | literals body => exact absurd read (mapSomeNotNone _ id)
  | parity body =>
      rw [readLine] at read
      split at read
      · exact absurd read (mapSomeNotNone _ _)
      · contradiction

theorem readParityMeaning {body : List Char} {line : ParityLine}
    (read : readParity (Text.words body) #[] true = .ok line) :
    readMeaning line = writtenMeaning (written (Text.words body)) := by
  funext assignment
  have holds := readParityHolds read assignment
  simp only [List.map_nil, ParityConstraint.oddness, Bool.false_bne, beq_true] at holds
  exact holds

/-- A line with an x is read with its meaning, and no other line adds a parity constraint. -/
theorem readLineParities {line : Line} {reader after : Reader}
    (read : readLine line reader = .ok (some after)) :
    after.parities.toList.map readMeaning =
      reader.parities.toList.map readMeaning ++ (lineParities line).map writtenMeaning := by
  cases line with
  | final => exact nomatch Except.ok.inj read
  | ignored =>
      obtain rfl := Option.some.inj (Except.ok.inj read)
      exact (List.append_nil _).symm
  | header header =>
      rw [readLine] at read
      cases known : readHeader header with
      | error fault =>
          rw [known] at read
          contradiction
      | ok count =>
          rw [known] at read
          obtain rfl := Option.some.inj (Except.ok.inj read)
          exact (List.append_nil _).symm
  | literals body =>
      rw [readLine] at read
      cases known : readLiterals (Text.words body) reader with
      | error fault =>
          rw [known] at read
          contradiction
      | ok next =>
          rw [known] at read
          obtain rfl := Option.some.inj (Except.ok.inj read)
          rw [readLiteralsParities known]
          exact (List.append_nil _).symm
  | parity body =>
      rw [readLine] at read
      split at read
      · cases known : readParity (Text.words body) #[] true with
        | error fault =>
            rw [known] at read
            contradiction
        | ok line =>
            rw [known] at read
            obtain rfl := Option.some.inj (Except.ok.inj read)
            rw [Array.toList_push, List.map_append, List.map_singleton, readParityMeaning known]
            rfl
      · contradiction

theorem writtenParitiesCons {characters : List Char}
    (more : Line.ofTrimmed (Text.trim characters) ≠ .final) (rest : List (Option (List Char))) :
    writtenParities (some characters :: rest) =
      lineParities (Line.ofTrimmed (Text.trim characters)) ++ writtenParities rest := by
  rw [writtenParities]
  cases kind : Line.ofTrimmed (Text.trim characters) with
  | final => exact absurd kind more
  | _ => rfl

/-- All lines up to the one that ends the problem are read with their meanings. -/
theorem readLinesParities {lines : List (Option (List Char))} {number : Nat}
    {reader final : Reader} (read : readLines lines number reader = .ok final) :
    final.parities.toList.map readMeaning =
      reader.parities.toList.map readMeaning ++ (writtenParities lines).map writtenMeaning := by
  induction lines generalizing number reader with
  | nil =>
      obtain rfl := Except.ok.inj read
      exact (List.append_nil _).symm
  | cons line rest inductionHypothesis =>
      cases line with
      | none => contradiction
      | some characters =>
          rw [readLines] at read
          cases known : readLine (Line.ofTrimmed (Text.trim characters)) reader with
          | error fault =>
              rw [known] at read
              contradiction
          | ok next =>
              rw [known] at read
              cases next with
              | none =>
                  obtain rfl := Except.ok.inj read
                  rw [writtenParities, readLineFinal known]
                  exact (List.append_nil _).symm
              | some after =>
                  have more : Line.ofTrimmed (Text.trim characters) ≠ .final := by
                    intro final
                    rw [final] at known
                    exact nomatch Except.ok.inj known
                  rw [inductionHypothesis read, readLineParities known, writtenParitiesCons more,
                    List.map_append, List.append_assoc]

theorem parityMeanings {lines : List (Option (List Char))} {problem : Dimacs}
    (parsed : ofLines lines = .ok problem) :
    problem.parities.map readMeaning = (writtenParities lines).map writtenMeaning := by
  unfold ofLines at parsed
  cases read : readLines lines 1 {} with
  | error error =>
      rw [read] at parsed
      contradiction
  | ok reader =>
      rw [read] at parsed
      obtain rfl := Except.ok.inj parsed
      exact readLinesParities read

/-- The engine is asked for what the text says. -/
theorem modelsConstraints {lines : List (Option (List Char))} {problem : Dimacs}
    (parsed : ofLines lines = .ok problem) (assignment : Nat → Bool) :
    Constraint.Models problem.constraints assignment ↔ Satisfied lines problem assignment := by
  have parities : (∀ line ∈ problem.parities, readMeaning line assignment = true) ↔
      ∀ numbers ∈ writtenParities lines, writtenMeaning numbers assignment = true := by
    have same := parityMeanings parsed
    calc (∀ line ∈ problem.parities, readMeaning line assignment = true)
        ↔ ∀ meaning ∈ problem.parities.map readMeaning, meaning assignment = true := by
          rw [List.forall_mem_map]
      _ ↔ ∀ meaning ∈ (writtenParities lines).map writtenMeaning, meaning assignment = true := by
          rw [same]
      _ ↔ ∀ numbers ∈ writtenParities lines, writtenMeaning numbers assignment = true := by
          rw [List.forall_mem_map]
  rw [constraints, Constraint.modelsAppend]
  constructor
  · rintro ⟨clauses, lines⟩
    refine ⟨fun clause member => ?_, parities.1 fun line member => ?_⟩
    · exact (clauseConstraintHolds clause assignment).1 (clauses _ (List.mem_map_of_mem member))
    · exact lines _ (List.mem_map_of_mem member)
  · rintro ⟨clauses, lines⟩
    refine ⟨fun constraint member => ?_, fun constraint member => ?_⟩
    · obtain ⟨clause, listed, rfl⟩ := List.mem_map.1 member
      exact (clauseConstraintHolds clause assignment).2 (clauses clause listed)
    · obtain ⟨line, listed, rfl⟩ := List.mem_map.1 member
      exact parities.2 lines line listed

end Dimacs

end ParitySat
