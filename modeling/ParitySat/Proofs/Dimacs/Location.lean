/-
This file shows that a fault lies on the first line that cannot be read, and that whole lines at
the front of a text are read as they are read in the text.
-/

import ParitySat.Proofs.Dimacs
import ParitySat.Proofs.Text.Encoding

namespace ParitySat.Dimacs

open Text

/-- This function lists the lines of a text without the blanks around them. -/
def trimmedLines (text : List Char) : List (List Char) :=
  (Text.lines (· == '\n') text).map trim

/-- These numbers stand on a line of a clause. -/
def lineNumbers : Line → List Int
  | .literals body => (Text.words body).filterMap Numeral.signed64?
  | _ => []

/-- This function lists the numbers of the clauses, up to the line that ends the problem. -/
def clauseNumbers : List (List Char) → List Int
  | [] => []
  | line :: rest =>
    match Line.ofTrimmed line with
    | .final => []
    | kind => lineNumbers kind ++ clauseNumbers rest

/-- Zeros stand between these clauses, so that the last one is not terminated. -/
def cutClauses (text : List Char) : List (List Int) :=
  (clauseNumbers (trimmedLines text)).splitOn 0

def terminatedClauses (text : List Char) : List (List Int) :=
  (cutClauses text).dropLast

def openClause (text : List Char) : List Int :=
  (cutClauses text).getLastD []

/-- The line with this number is the first that cannot be read, whatever follows it. -/
structure Located (text : List Char) (number : Nat) (fault : DimacsFault) : Prop where
  positive : 0 < number
  inside : number ≤ (trimmedLines text).length
  before : ∀ part, trimmedLines part = (trimmedLines text).take (number - 1) →
    ∃ problem, parse part = .ok problem
  same : ∀ other, (trimmedLines other).take number = (trimmedLines text).take number →
    parse other = .error (.dimacs number fault)
  unended : ∀ line ∈ (trimmedLines text).take (number - 1), line.head? ≠ some '%'

/-- A front part of a text has an earlier part of its problem. -/
structure PartOf (part : List Char) (earlier problem : Dimacs) : Prop where
  clauses : earlier.clauses = terminatedClauses part ++ [openClause part].filter (· ≠ [])
  terminated : terminatedClauses part <+: problem.clauses
  parities : earlier.parities <+: problem.parities

section Lines

/-- Some text at the front is made of any number of whole lines. -/
theorem wholeLines (text : List Char) (count : Nat) :
    ∃ part, part <+: text ∧
      Text.lines (· == '\n') part = (Text.lines (· == '\n') text).take count := by
  induction size : text.length using Nat.strongRecOn generalizing text count with
  | ind length inductionHypothesis =>
      cases count with
      | zero => exact ⟨[], List.nil_prefix, rfl⟩
      | succ count =>
          by_cases broken : '\n' ∈ text
          · obtain ⟨line, rest, rfl, unbroken⟩ := List.eq_append_cons_of_mem broken
            have shorter : rest.length < length := by
              rw [← size, List.length_append, List.length_cons]
              omega
            obtain ⟨part, front, cut⟩ := inductionHypothesis _ shorter rest count rfl
            refine ⟨line ++ '\n' :: part, ?_, ?_⟩
            · rw [List.prefix_append_right_inj]
              exact List.cons_prefix_cons.2 ⟨rfl, front⟩
            · rw [linesBreak (charactersUnbroken unbroken) (beq_self_eq_true _),
                linesBreak (charactersUnbroken unbroken) (beq_self_eq_true _), cut,
                List.take_succ_cons]
          · refine ⟨text, List.prefix_rfl, ?_⟩
            by_cases empty : text = []
            · rw [empty]
              rfl
            · rw [linesLast (charactersUnbroken broken) empty, List.take_succ_cons, List.take_nil]

/-- It does not matter whether a text comes as characters or as bytes. -/
theorem parseBytes (text : List Char) : ofLines (linesOfBytes (encode text)) = parse text := by
  rw [linesOfBytes, linesEncode, List.map_map, parse]
  exact congrArg ofLines (List.map_congr_left fun line _ => encodeDecoded line)

end Lines

section Reading

/-- Each of the lines can be read, and none of them ends the problem. -/
inductive Passes : List (List Char) → Reader → Reader → Prop where
  | nothing {reader : Reader} : Passes [] reader reader
  | line {line : List Char} {lines : List (List Char)} {reader middle after : Reader}
      (read : readLine (Line.ofTrimmed line) reader = .ok (some middle))
      (rest : Passes lines middle after) : Passes (line :: lines) reader after

/-- All lines pass, or some lines pass up to one that ends the problem or cannot be read. -/
inductive Outcome (lines : List (List Char)) (number : Nat) (reader : Reader) :
    Except Error Reader → Prop where
  | all {after : Reader} (passes : Passes lines reader after) :
      Outcome lines number reader (.ok after)
  | final {front rest : List (List Char)} {line : List Char} {after : Reader}
      (cut : lines = front ++ line :: rest) (passes : Passes front reader after)
      (ends : Line.ofTrimmed line = .final) : Outcome lines number reader (.ok after)
  | fault {front rest : List (List Char)} {line : List Char} {after : Reader}
      {fault : DimacsFault} (cut : lines = front ++ line :: rest)
      (passes : Passes front reader after)
      (fails : readLine (Line.ofTrimmed line) after = .error fault) :
      Outcome lines number reader (.error (.dimacs (number + front.length) fault))

theorem Passes.append {front rest : List (List Char)} {reader after : Reader}
    (passes : Passes (front ++ rest) reader after) :
    ∃ middle, Passes front reader middle ∧ Passes rest middle after := by
  induction front generalizing reader with
  | nil => exact ⟨reader, .nothing, passes⟩
  | cons line lines inductionHypothesis =>
      cases passes with
      | line read passes =>
          obtain ⟨middle, front, rest⟩ := inductionHypothesis passes
          exact ⟨middle, .line read front, rest⟩

theorem Passes.unended {lines : List (List Char)} {reader after : Reader}
    (passes : Passes lines reader after) : ∀ line ∈ lines, Line.ofTrimmed line ≠ .final := by
  induction passes with
  | nothing => exact fun _ member => absurd member List.not_mem_nil
  | line read rest inductionHypothesis =>
      rw [List.forall_mem_cons]
      refine ⟨fun final => ?_, inductionHypothesis⟩
      rw [final] at read
      exact nomatch Except.ok.inj read

/-- Lines that pass are left behind. -/
theorem Passes.readLines {lines : List (List Char)} {reader after : Reader}
    (passes : Passes (lines.map trim) reader after) (rest : List (Option (List Char)))
    (number : Nat) :
    Dimacs.readLines (lines.map some ++ rest) number reader =
      Dimacs.readLines rest (number + lines.length) after := by
  induction lines generalizing reader number with
  | nil =>
      cases passes
      rfl
  | cons line lines inductionHypothesis =>
      cases passes with
      | line read passes =>
          rw [List.map_cons, List.cons_append, Dimacs.readLines, read]
          simp only
          rw [inductionHypothesis passes, List.length_cons, Nat.add_assoc, Nat.add_comm 1]

theorem readLinesOutcome (lines : List (List Char)) (number : Nat) (reader : Reader) :
    Outcome (lines.map trim) number reader (readLines (lines.map some) number reader) := by
  induction lines generalizing number reader with
  | nil => exact .all .nothing
  | cons line lines inductionHypothesis =>
      rw [List.map_cons, List.map_cons, readLines]
      cases read : readLine (Line.ofTrimmed (trim line)) reader with
      | error fault => exact .fault rfl .nothing read
      | ok next =>
          cases next with
          | none => exact .final rfl .nothing (readLineFinal read)
          | some middle =>
              have later := inductionHypothesis (number + 1) middle
              simp only
              generalize readLines (lines.map some) (number + 1) middle = result at later
              cases later with
              | all passes => exact .all (.line read passes)
              | final cut passes ends =>
                  exact .final (congrArg _ cut) (.line read passes) ends
              | @fault front rest _ _ _ cut passes fails =>
                  rw [Nat.add_assoc, Nat.add_comm 1]
                  exact .fault (congrArg (trim line :: ·) cut) (.line read passes) fails

/-- The lines decide what comes of reading them. -/
theorem Outcome.readLines {lines : List (List Char)} {number : Nat} {reader : Reader}
    {result : Except Error Reader} (outcome : Outcome (lines.map trim) number reader result) :
    Dimacs.readLines (lines.map some) number reader = result := by
  cases outcome with
  | all passes =>
      have passed := passes.readLines [] number
      rw [List.append_nil] at passed
      exact passed
  | final cut passes ends =>
      obtain ⟨front, others, rfl, rfl, cutRest⟩ := List.map_eq_append_iff.1 cut
      obtain ⟨line, rest, rfl, rfl, rfl⟩ := List.map_eq_cons_iff.1 cutRest
      rw [List.map_append, passes.readLines, List.map_cons, Dimacs.readLines, ends]
      rfl
  | fault cut passes fails =>
      obtain ⟨front, others, rfl, rfl, cutRest⟩ := List.map_eq_append_iff.1 cut
      obtain ⟨line, rest, rfl, rfl, rfl⟩ := List.map_eq_cons_iff.1 cutRest
      rw [List.map_append, passes.readLines, List.map_cons, Dimacs.readLines, fails,
        List.length_map]

theorem Outcome.parse {text : List Char} {result : Except Error Reader}
    (outcome : Outcome (trimmedLines text) 1 {} result) :
    Dimacs.parse text = result.map Reader.finish :=
  congrArg (Except.map Reader.finish) outcome.readLines

theorem parseOutcome (text : List Char) :
    ∃ result, Outcome (trimmedLines text) 1 {} result ∧
      parse text = result.map Reader.finish :=
  ⟨_, readLinesOutcome _ 1 {}, rfl⟩

end Reading

section Clauses

/-- What has been read is cut together with these numbers. -/
def Reader.cut (reader : Reader) (numbers : List Int) : List (List Int) :=
  reader.clauses.toList ++ (reader.clause.toList ++ numbers).splitOn 0

/-- The numbers have been read, and all finished parts are kept. -/
structure Advances (numbers : List Int) (reader after : Reader) : Prop where
  nonzero : 0 ∉ reader.clause.toList → 0 ∉ after.clause.toList
  cut : 0 ∉ reader.clause.toList → ∀ later, after.cut later = reader.cut (numbers ++ later)
  clauses : reader.clauses.toList <+: after.clauses.toList
  parities : reader.parities.toList <+: after.parities.toList

theorem Advances.nothing (reader : Reader) : Advances [] reader reader :=
  ⟨id, fun _ _ => rfl, List.prefix_rfl, List.prefix_rfl⟩

theorem Advances.trans {earlier later : List Int} {reader middle after : Reader}
    (first : Advances earlier reader middle) (second : Advances later middle after) :
    Advances (earlier ++ later) reader after where
  nonzero := second.nonzero ∘ first.nonzero
  cut none rest := by
    rw [second.cut (first.nonzero none), first.cut none, List.append_assoc]
  clauses := first.clauses.trans second.clauses
  parities := first.parities.trans second.parities

/-- A zero ends the clause being read. -/
theorem advancesZero (reader : Reader) : Advances [0] reader
    { reader with clauses := reader.clauses.push reader.clause.toList, clause := #[] } where
  nonzero _ := List.not_mem_nil
  cut none later := by
    simp only [Reader.cut, Array.toList_push, List.append_assoc, List.singleton_append]
    rw [List.splitOn_append_cons_self_of_not_mem none]
    rfl
  clauses := by simp
  parities := List.prefix_rfl

theorem advancesNumber (reader : Reader) {number : Int} (nonzero : number ≠ 0) :
    Advances [number] reader { reader with clause := reader.clause.push number } where
  nonzero := by simp [nonzero.symm]
  cut _ later := by simp [Reader.cut]
  clauses := List.prefix_rfl
  parities := List.prefix_rfl

theorem advancesLiterals {words : List (List Char)} {reader after : Reader}
    (read : readLiterals words reader = .ok after) :
    Advances (words.filterMap Numeral.signed64?) reader after := by
  induction words generalizing reader with
  | nil =>
      obtain rfl := Except.ok.inj read
      exact .nothing reader
  | cons word rest inductionHypothesis =>
      rw [readLiterals] at read
      unfold readInteger at read
      cases known : Numeral.signed64? word with
      | none =>
          rw [known] at read
          contradiction
      | some number =>
          rw [known] at read
          rw [List.filterMap_cons_some known, ← List.singleton_append]
          simp only at read
          split at read
          · next zero =>
              rw [zero]
              exact (advancesZero reader).trans (inductionHypothesis read)
          · next nonzero => exact (advancesNumber reader nonzero).trans (inductionHypothesis read)

theorem advancesLine {line : Line} {reader after : Reader}
    (read : readLine line reader = .ok (some after)) :
    Advances (lineNumbers line) reader after := by
  cases line with
  | final => exact nomatch Except.ok.inj read
  | ignored =>
      obtain rfl := Option.some.inj (Except.ok.inj read)
      exact .nothing reader
  | header header =>
      rw [readLine] at read
      cases known : readHeader header with
      | error fault =>
          rw [known] at read
          contradiction
      | ok count =>
          rw [known] at read
          obtain rfl := Option.some.inj (Except.ok.inj read)
          exact ⟨id, fun _ _ => rfl, List.prefix_rfl, List.prefix_rfl⟩
  | parity body =>
      rw [readLine] at read
      split at read
      · cases known : readParity (Text.words body) #[] true with
        | error fault =>
            rw [known] at read
            contradiction
        | ok parity =>
            rw [known] at read
            obtain rfl := Option.some.inj (Except.ok.inj read)
            exact ⟨id, fun _ _ => rfl, List.prefix_rfl, by simp⟩
      · contradiction
  | literals body =>
      rw [readLine] at read
      cases known : readLiterals (Text.words body) reader with
      | error fault =>
          rw [known] at read
          contradiction
      | ok next =>
          rw [known] at read
          obtain rfl := Option.some.inj (Except.ok.inj read)
          exact advancesLiterals known

theorem clauseNumbersCons {line : List Char} (more : Line.ofTrimmed line ≠ .final)
    (rest : List (List Char)) :
    clauseNumbers (line :: rest) = lineNumbers (Line.ofTrimmed line) ++ clauseNumbers rest := by
  rw [clauseNumbers]
  cases kind : Line.ofTrimmed line with
  | final => exact absurd kind more
  | _ => rfl

/-- Lines that pass are followed by the line that ends the problem or by nothing. -/
theorem Passes.advances {lines : List (List Char)} {reader after : Reader}
    (passes : Passes lines reader after) (rest : List (List Char))
    (ended : clauseNumbers rest = []) :
    Advances (clauseNumbers (lines ++ rest)) reader after := by
  induction passes with
  | @nothing reader =>
      rw [List.nil_append, ended]
      exact .nothing reader
  | @line line lines reader middle after read passes inductionHypothesis =>
      have more := (Passes.line read passes).unended line List.mem_cons_self
      rw [List.cons_append, clauseNumbersCons more]
      exact (advancesLine read).trans inductionHypothesis

/-- The clauses of a problem are what is written, and a last one may lack its zero. -/
theorem Advances.finish {text : List Char} {reader : Reader}
    (advances : Advances (clauseNumbers (trimmedLines text)) {} reader) :
    terminatedClauses text = reader.clauses.toList ∧
      reader.finish.clauses = reader.clauses.toList ++ [openClause text].filter (· ≠ []) := by
  have nonzero : 0 ∉ reader.clause.toList := advances.nonzero List.not_mem_nil
  have cut : reader.clauses.toList ++ [reader.clause.toList] = cutClauses text := by
    have all := advances.cut List.not_mem_nil []
    rw [Reader.cut, List.append_nil, List.append_nil, List.splitOn_eq_singleton nonzero] at all
    exact all
  have last : openClause text = reader.clause.toList := by
    rw [openClause, ← cut, List.getLastD_concat]
  refine ⟨?_, ?_⟩
  · rw [terminatedClauses, ← cut, List.dropLast_concat]
  · rw [last, Reader.finish]
    cases empty : reader.clause.isEmpty with
    | true =>
        rw [Array.isEmpty_iff] at empty
        simp [empty]
    | false =>
        have some : reader.clause ≠ #[] := by simpa using empty
        simp [some]

end Clauses

section Location

/-- The front part of a text has been read, and the rest of the text is read afterwards. -/
structure Continues (part : List Char) (middle after : Reader) : Prop where
  advances : Advances (clauseNumbers (trimmedLines part)) {} middle
  parsed : parse part = .ok middle.finish
  clauses : middle.clauses.toList <+: after.clauses.toList
  parities : middle.parities.toList <+: after.parities.toList

theorem Passes.continues {part : List Char} {rest : List (List Char)} {after : Reader}
    (passes : Passes (trimmedLines part ++ rest) {} after) :
    ∃ middle, Continues part middle after := by
  obtain ⟨middle, front, rest⟩ := passes.append
  have advances := front.advances [] rfl
  have later := rest.advances [] rfl
  rw [List.append_nil] at advances
  exact ⟨middle, advances, (Outcome.all front).parse, later.clauses, later.parities⟩

/-- A front part of a text that can be read ends before the line that ends the problem, or else
has the whole problem. -/
theorem continuesFront {part text : List Char} {after : Reader}
    (outcome : Outcome (trimmedLines text) 1 {} (.ok after))
    (front : trimmedLines part <+: trimmedLines text) :
    ∃ middle, Continues part middle after := by
  obtain ⟨hidden, whole⟩ := front
  cases outcome with
  | all passes =>
      rw [← whole] at passes
      exact passes.continues
  | @final earlier rest line after cut passes ends =>
      rw [cut] at whole
      rcases List.append_eq_append_iff.1 whole with
        ⟨others, same, -⟩ | ⟨others, same, covered⟩
      · rw [same] at passes
        exact passes.continues
      · cases others with
        | nil =>
            rw [List.append_nil] at same
            rw [← same, ← List.append_nil (trimmedLines part)] at passes
            exact passes.continues
        | cons other others =>
            obtain ⟨rfl, -⟩ := List.cons.inj covered
            have ended : clauseNumbers (line :: others) = [] := by
              rw [clauseNumbers, ends]
            have advances := passes.advances _ ended
            rw [← same] at advances
            exact ⟨after, advances, (Outcome.final same passes ends).parse, List.prefix_rfl,
              List.prefix_rfl⟩

theorem Continues.partOf {part : List Char} {middle after : Reader}
    (continues : Continues part middle after) :
    PartOf part middle.finish after.finish := by
  obtain ⟨terminated, clauses⟩ := continues.advances.finish
  rw [← terminated] at clauses
  refine ⟨clauses, ?_, continues.parities⟩
  rw [terminated]
  refine continues.clauses.trans ?_
  rw [Reader.finish]
  split
  · exact List.prefix_rfl
  · rw [Array.toList_push]
    exact List.prefix_append _ _

theorem notFinal {line : List Char} (more : Line.ofTrimmed line ≠ .final) :
    line.head? ≠ some '%' := by
  intro head
  obtain ⟨rest, rfl⟩ := List.head?_eq_some_iff.1 head
  exact more rfl

theorem located {text : List Char} {front rest : List (List Char)} {line : List Char}
    {after : Reader} {fault : DimacsFault} (cut : trimmedLines text = front ++ line :: rest)
    (passes : Passes front {} after)
    (fails : readLine (Line.ofTrimmed line) after = .error fault) :
    Located text (1 + front.length) fault := by
  have before : (trimmedLines text).take (1 + front.length - 1) = front := by
    rw [Nat.add_sub_cancel_left, cut, List.take_left]
  have upTo : (trimmedLines text).take (1 + front.length) = front ++ [line] := by
    rw [cut, ← List.singleton_append, ← List.append_assoc, Nat.add_comm]
    exact List.take_left' (List.length_append ..)
  constructor
  · omega
  · rw [cut, List.length_append, List.length_cons]
    omega
  · intro part same
    rw [before] at same
    exact ⟨after.finish, (Outcome.all (same ▸ passes)).parse⟩
  · intro other same
    rw [upTo] at same
    have others : trimmedLines other =
        front ++ line :: (trimmedLines other).drop (1 + front.length) := by
      rw [← List.singleton_append, ← List.append_assoc, ← same, List.take_append_drop]
    exact (Outcome.fault others passes fails).parse
  · rw [before]
    exact fun line member => notFinal (passes.unended line member)

/-- A text can be read up to its first fault, and its fault does not depend on later lines.

If it can be read at all, then so can all whole lines at its front, and they have the front part
of its problem, but for a clause that they leave open. -/
theorem faultsLocated (text : List Char) :
    ofLines (linesOfBytes (encode text)) = parse text ∧
      (∀ count, ∃ part, part <+: text ∧
        Text.lines (· == '\n') part = (Text.lines (· == '\n') text).take count) ∧
      (∀ error, parse text = .error error →
        ∃ number fault, error = .dimacs number fault ∧ Located text number fault) ∧
      ∀ problem, parse text = .ok problem →
        ∀ part, trimmedLines part <+: trimmedLines text →
          ∃ earlier, parse part = .ok earlier ∧ PartOf part earlier problem := by
  refine ⟨parseBytes text, wholeLines text, ?_, ?_⟩
  · intro error failed
    obtain ⟨result, outcome, parsed⟩ := parseOutcome text
    rw [failed] at parsed
    cases outcome with
    | all => cases parsed
    | final => cases parsed
    | fault cut passes fails =>
        exact ⟨_, _, Except.error.inj parsed, located cut passes fails⟩
  · intro problem succeeded part front
    obtain ⟨result, outcome, parsed⟩ := parseOutcome text
    rw [succeeded] at parsed
    cases result with
    | error => cases parsed
    | ok after =>
        obtain ⟨middle, continues⟩ := continuesFront outcome front
        rw [Except.ok.inj parsed]
        exact ⟨middle.finish, continues.parsed, continues.partOf⟩

/-- The clause that the first line leaves open makes the second line a fault, and no line behind
it matters. -/
def interrupted : List Char :=
  "1 2\nx1 2 0\n%\n".toList

theorem faultsLocatedInterrupted :
    parse interrupted = .error (.dimacs 2 .parityInsideClause) ∧
      Located interrupted 2 .parityInsideClause := by
  have failed : parse interrupted = .error (.dimacs 2 .parityInsideClause) := by rfl
  obtain ⟨number, fault, same, located⟩ := (faultsLocated interrupted).2.2.1 _ failed
  obtain ⟨rfl, rfl⟩ := Error.dimacs.inj same
  exact ⟨failed, located⟩

end Location

end ParitySat.Dimacs
