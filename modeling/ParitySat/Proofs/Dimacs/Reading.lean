/-
This file shows that a problem is read back from every text that renders it, however the text is
laid out.
-/

import ParitySat.Proofs.Dimacs.Rendering
import ParitySat.Proofs.Text.Encoding

namespace ParitySat.Dimacs

open Numeral Text

/-- The numbers of a symbol have 64 bits, and so have the sizes on a line with an x. -/
def Symbol.Bounded : Symbol → Prop
  | .number value => Signed64 value
  | .parity written => ∀ value ∈ written, value ≠ 0 ∧ Signed64 value.natAbs

theorem zeroSigned64 : Signed64 0 := ⟨by decide, by decide⟩

/-- The sizes of the written numbers are the numbers of the line. -/
theorem NegatedIn.bounded {line : ParityLine} {written : List Int}
    (negated : NegatedIn line written)
    (bounded : ∀ number ∈ line.numbers, 0 < number ∧ Signed64 number) :
    ∀ number ∈ written, number ≠ 0 ∧ Signed64 number.natAbs := by
  intro number member
  have listed : (number.natAbs : Int) ∈ line.numbers := by
    rw [← negated.numbers]
    exact List.mem_map_of_mem member
  obtain ⟨positive, small⟩ := bounded _ listed
  exact ⟨by omega, small⟩

theorem Lists.bounded {symbols : List Symbol} {clauses : List (List Int)}
    {parities : List ParityLine} (lists : Lists symbols clauses parities)
    (clausesBounded : ∀ clause ∈ clauses, ∀ number ∈ clause, number ≠ 0 ∧ Signed64 number)
    (paritiesBounded : ∀ line ∈ parities, ∀ number ∈ line.numbers, 0 < number ∧ Signed64 number) :
    ∀ symbol ∈ symbols, symbol.Bounded := by
  induction lists with
  | nothing => exact fun _ member => absurd member List.not_mem_nil
  | unended some =>
      rw [List.forall_mem_map]
      exact fun number member => (clausesBounded _ List.mem_cons_self number member).2
  | clause rest inductionHypothesis =>
      rw [List.forall_mem_cons] at clausesBounded
      rw [List.forall_mem_append, List.forall_mem_map, List.forall_mem_cons]
      exact ⟨fun number member => (clausesBounded.1 number member).2, zeroSigned64,
        inductionHypothesis clausesBounded.2 paritiesBounded⟩
  | parity negated rest inductionHypothesis =>
      rw [List.forall_mem_cons] at paritiesBounded
      rw [List.forall_mem_cons]
      exact ⟨negated.bounded paritiesBounded.1,
        inductionHypothesis clausesBounded paritiesBounded.2⟩

/-- This function is what a line with an x adds, if it is written this way. -/
def parityLine (written : List Int) : ParityLine :=
  ⟨written.map fun number => (number.natAbs : Int), Even (written.countP (· < 0))⟩

theorem NegatedIn.line {line : ParityLine} {written : List Int} (negated : NegatedIn line written) :
    parityLine written = line := by
  obtain ⟨numbers, parity⟩ := line
  obtain ⟨sizes, even⟩ := negated
  rw [parityLine, sizes]
  simp only [even]
  cases parity <;> rfl

/-- A zero ends the clause being read, and a parity constraint never stands inside a clause. -/
def Reader.take (reader : Reader) : Symbol → Option Reader
  | .number value =>
    if value = 0 then
      some { reader with clauses := reader.clauses.push reader.clause.toList, clause := #[] }
    else some { reader with clause := reader.clause.push value }
  | .parity written =>
    if reader.clause.isEmpty then
      some { reader with parities := reader.parities.push (parityLine written) }
    else none

section Line

theorem readIntegerSpelled {token : List Char} {number : Int} (spells : Spells token number)
    (bounded : Signed64 number) : readInteger token = .ok number := by
  rw [readInteger, spells.signed64 bounded]

/-- The words of a line are taken one by one. -/
theorem readLiteralsSpelled {words : List (List Char)} {numbers : List Int}
    (spelled : List.Forall₂ Spells words numbers) (bounded : ∀ number ∈ numbers, Signed64 number)
    {reader after : Reader}
    (taken : (numbers.map Symbol.number).foldlM Reader.take reader = some after) :
    readLiterals words reader = .ok after := by
  induction spelled generalizing reader with
  | nil => exact congrArg _ (Option.some.inj taken)
  | @cons word number words numbers spells spelled inductionHypothesis =>
      rw [List.forall_mem_cons] at bounded
      rw [List.map_cons, List.foldlM_cons, Reader.take] at taken
      rw [readLiterals, readIntegerSpelled spells bounded.1]
      simp only
      split
      · next zero =>
          rw [if_pos zero] at taken
          exact inductionHypothesis bounded.2 taken
      · next nonzero =>
          rw [if_neg nonzero] at taken
          exact inductionHypothesis bounded.2 taken

/-- Every negation is moved to the parity. -/
theorem readParitySpelled {words : List (List Char)} {written : List Int}
    (spelled : List.Forall₂ Spells words (written ++ [0]))
    (bounded : ∀ number ∈ written, number ≠ 0 ∧ Signed64 number.natAbs) (numbers : Array Int)
    (parity : Bool) :
    readParity words numbers parity =
      .ok ⟨numbers.toList ++ (parityLine written).numbers,
        parity == (parityLine written).parity⟩ := by
  induction written generalizing words numbers parity with
  | nil =>
      cases spelled with
      | cons spells spelled =>
          rw [readParity, readIntegerSpelled spells zeroSigned64]
          simp [parityLine]
  | cons number rest inductionHypothesis =>
      rw [List.forall_mem_cons] at bounded
      obtain ⟨⟨nonzero, small⟩, bounded⟩ := bounded
      cases spelled with
      | cons spells spelled =>
          have signed : Signed64 number := by
            obtain ⟨low, high⟩ := small
            exact ⟨by omega, by omega⟩
          rw [readParity, readIntegerSpelled spells signed]
          simp only
          rw [if_neg nonzero, magnitudeInside small, inductionHypothesis spelled bounded]
          have numbersSame : (numbers.push (number.natAbs : Int)).toList ++
              (parityLine rest).numbers =
              numbers.toList ++ (parityLine (number :: rest)).numbers := by
            simp [parityLine]
          have paritySame : ((parity != (number < 0 : Bool)) ==
              (parityLine rest).parity) =
              (parity == (parityLine (number :: rest)).parity) := by
            simp only [parityLine, List.countP_cons]
            by_cases negative : number < 0
            · simp [negative, Nat.even_add_one]
              cases parity <;> simp
            · simp [negative]
          rw [numbersSame, paritySame]

theorem lineLiterals {first : Char} (comment : first ≠ 'c') (final : first ≠ '%')
    (header : first ≠ 'p') (parity : first ≠ 'x') (rest : List Char) :
    Line.ofTrimmed (first :: rest) = .literals (first :: rest) := by
  simp [Line.ofTrimmed, comment, final, header, parity]

/-- A spelling begins like no other kind of line. -/
theorem spelledLine {token : List Char} {number : Int} (spells : Spells token number) :
    ∃ first rest, token = first :: rest ∧
      ∀ others, Line.ofTrimmed (first :: others) = .literals (first :: others) := by
  cases spells with
  | @plain digits some decimal =>
      obtain ⟨first, rest, rfl⟩ := List.exists_cons_of_ne_nil some
      have digit := decimal first List.mem_cons_self
      refine ⟨first, rest, rfl, fun others => lineLiterals ?_ ?_ ?_ ?_ others⟩ <;>
        · rintro rfl
          exact absurd digit (by decide)
  | plus some decimal => exact ⟨_, _, rfl, fun _ => rfl⟩
  | minus some decimal => exact ⟨_, _, rfl, fun _ => rfl⟩

/-- The words of a line are found in what is left of it after trimming. -/
theorem spelledWords {words : List (List Char)} {line : List Char} {numbers : List Int}
    (some : words ≠ []) (spelled : List.Forall₂ Spells words numbers)
    (spaced : Spaced words line) :
    ∃ body, Line.ofTrimmed (trim line) = .literals body ∧ Text.words body = words := by
  cases spaced with
  | nothing => exact absurd rfl some
  | @word blanks word text others blank isWord later apart =>
      cases spelled with
      | cons spells spelled =>
          obtain ⟨first, rest, rfl, literals⟩ := spelledLine spells
          have unindented : Spaced ((first :: rest) :: others) ([] ++ ((first :: rest) ++ text)) :=
            .word (fun _ member => absurd member List.not_mem_nil) isWord later apart
          refine ⟨first :: trimEnd (rest ++ text), ?_, ?_⟩
          · rw [List.cons_append, trimIndented blank (isWord.visible first List.mem_cons_self),
              literals]
          · rw [← unindented.words]
            exact wordsTrimEnd [first] (rest ++ text)

/-- A line is read as it was written. -/
theorem readLineWritten {entry : Entry} {line : List Char} (written : entry.Written line)
    (bounded : ∀ symbol ∈ entry.symbols, symbol.Bounded)
    (counted : ∀ count ∈ entry.variableCount?, (count : Int) < signedBound)
    {reader after : Reader} (taken : entry.symbols.foldlM Reader.take reader = some after) :
    readLine (Line.ofTrimmed (trim line)) reader = .ok (some
      { after with variableCount := entry.variableCount?.getD after.variableCount }) := by
  cases written with
  | blank blank =>
      obtain rfl := Option.some.inj taken
      rw [trimBlank blank]
      rfl
  | comment blank =>
      obtain rfl := Option.some.inj taken
      rw [trimIndented blank (by decide)]
      rfl
  | @header _ count clauseCount text variableCount blank spells spaced =>
      obtain rfl := Option.some.inj taken
      have small := counted variableCount rfl
      have read := readIntegerSpelled spells ⟨by unfold signedBound; omega, small⟩
      rw [trimIndented blank (by decide)]
      simp only [Line.ofTrimmed, readLine, readHeader]
      rw [← List.nil_append (trimEnd text), wordsTrimEnd, List.nil_append, spaced.words]
      simp only [if_true, read]
      rw [if_neg (by omega)]
      rfl
  | @parity _ text words written blank spelled spaced =>
      have small := bounded _ List.mem_cons_self
      rw [Entry.symbols, List.foldlM_cons, Reader.take] at taken
      rw [trimIndented blank (by decide)]
      simp only [Line.ofTrimmed, readLine]
      split at taken
      · next closed =>
          obtain rfl := Option.some.inj taken
          rw [if_pos closed, ← List.nil_append (trimEnd text), wordsTrimEnd, List.nil_append,
            spaced.words, readParitySpelled spelled small]
          simp [Except.map, Entry.variableCount?]
      · cases taken
  | @numbers _ words numbers some spelled spaced =>
      obtain ⟨body, literals, same⟩ := spelledWords some spelled spaced
      have small : ∀ number ∈ numbers, Signed64 number :=
        fun number member => bounded _ (List.mem_map_of_mem member)
      rw [literals, readLine, same, readLiteralsSpelled spelled small taken]
      rfl

end Line

section Lines

/-- The header concerns nothing but the number of variables. -/
def Reader.declare (count : Nat) (reader : Reader) : Reader :=
  { reader with variableCount := count }

theorem takeDeclare (count : Nat) (reader : Reader) (symbol : Symbol) :
    (reader.declare count).take symbol = (reader.take symbol).map (Reader.declare count) := by
  cases symbol with
  | number value => by_cases zero : value = 0 <;> simp [Reader.take, Reader.declare, zero]
  | parity written =>
      cases closed : reader.clause.isEmpty <;> simp [Reader.take, Reader.declare, closed]

theorem takeAllDeclare (count : Nat) {symbols : List Symbol} {reader after : Reader}
    (taken : symbols.foldlM Reader.take reader = some after) :
    symbols.foldlM Reader.take (reader.declare count) = some (after.declare count) := by
  induction symbols generalizing reader with
  | nil =>
      obtain rfl := Option.some.inj taken
      rfl
  | cons symbol rest inductionHypothesis =>
      rw [List.foldlM_cons] at taken ⊢
      rw [takeDeclare]
      cases first : reader.take symbol with
      | none =>
          rw [first] at taken
          cases taken
      | some middle =>
          rw [first] at taken
          exact inductionHypothesis taken

/-- No symbol changes the number of variables. -/
theorem takeAllCount {symbols : List Symbol} {reader after : Reader}
    (taken : symbols.foldlM Reader.take reader = some after) :
    after.variableCount = reader.variableCount := by
  have declared := takeAllDeclare reader.variableCount taken
  rw [show reader.declare reader.variableCount = reader from rfl, taken] at declared
  have same := congrArg Reader.variableCount (Option.some.inj declared)
  exact same

theorem readLinesWritten {entries : List Entry} {lines : List (List Char)}
    (written : List.Forall₂ Entry.Written entries lines)
    (bounded : ∀ symbol ∈ entries.flatMap Entry.symbols, symbol.Bounded)
    (counted : ∀ count ∈ entries.filterMap Entry.variableCount?, (count : Int) < signedBound)
    {reader after : Reader}
    (taken : (entries.flatMap Entry.symbols).foldlM Reader.take reader = some after)
    (rest : List (Option (List Char))) (number : Nat) :
    readLines (lines.map some ++ rest) number reader = readLines rest (number + lines.length)
      (after.declare ((entries.filterMap Entry.variableCount?).getLastD reader.variableCount)) := by
  induction written generalizing reader after number with
  | nil =>
      obtain rfl := Option.some.inj taken
      rfl
  | @cons entry line entries lines written others inductionHypothesis =>
      rw [List.flatMap_cons, List.foldlM_append] at taken
      rw [List.flatMap_cons, List.forall_mem_append] at bounded
      cases first : entry.symbols.foldlM Reader.take reader with
      | none =>
          rw [first] at taken
          cases taken
      | some middle =>
          rw [first] at taken
          have same := takeAllCount first
          have once : ∀ count ∈ entry.variableCount?, (count : Int) < signedBound := by
            intro count known
            exact counted count (List.mem_filterMap.2 ⟨entry, List.mem_cons_self, known⟩)
          have later : ∀ count ∈ entries.filterMap Entry.variableCount?,
              (count : Int) < signedBound := by
            intro count member
            obtain ⟨other, listed, known⟩ := List.mem_filterMap.1 member
            exact counted count (List.mem_filterMap.2 ⟨other, List.mem_cons_of_mem _ listed, known⟩)
          have next := inductionHypothesis bounded.2 later
            (takeAllDeclare (entry.variableCount?.getD middle.variableCount) taken) (number + 1)
          rw [List.map_cons, List.cons_append, readLines,
            readLineWritten written bounded.1 once first]
          simp only
          refine next.trans ?_
          have total : after.variableCount = middle.variableCount := takeAllCount taken
          cases known : entry.variableCount? with
          | none =>
              rw [List.filterMap_cons_none known, List.length_cons, Nat.add_assoc, Nat.add_comm 1]
              rw [Option.getD_none, same]
              rfl
          | some count =>
              rw [List.filterMap_cons_some known, List.getLastD_cons, List.length_cons,
                Nat.add_assoc, Nat.add_comm 1]
              rfl

end Lines

/-- The nonzero numbers join the clause being read. -/
theorem takeNumbers {numbers : List Int} (nonzero : ∀ number ∈ numbers, number ≠ 0)
    (reader : Reader) : (numbers.map Symbol.number).foldlM Reader.take reader =
      some { reader with clause := reader.clause ++ numbers } := by
  induction numbers generalizing reader with
  | nil => simp
  | cons number rest inductionHypothesis =>
      rw [List.forall_mem_cons] at nonzero
      rw [List.map_cons, List.foldlM_cons, Reader.take, if_neg nonzero.1]
      refine (inductionHypothesis nonzero.2 _).trans ?_
      simp

/-- All that is listed is taken, and nothing else. -/
theorem takeLists {symbols : List Symbol} {clauses : List (List Int)}
    {parities : List ParityLine} (lists : Lists symbols clauses parities)
    (nonzero : ∀ clause ∈ clauses, ∀ number ∈ clause, number ≠ 0) {reader : Reader}
    (closed : reader.clause = #[]) :
    ∃ after, symbols.foldlM Reader.take reader = some after ∧
      after.finish = ⟨reader.variableCount, reader.clauses.toList ++ clauses,
        reader.parities.toList ++ parities⟩ := by
  induction lists generalizing reader with
  | nothing => exact ⟨reader, rfl, by simp [Reader.finish, closed]⟩
  | @unended clause some =>
      refine ⟨_, takeNumbers (nonzero clause List.mem_cons_self) reader, ?_⟩
      simp [Reader.finish, closed, some]
  | @clause clause later clauses parities rest inductionHypothesis =>
      rw [List.forall_mem_cons] at nonzero
      obtain ⟨after, taken, finished⟩ := inductionHypothesis nonzero.2
        (show ({ reader with clauses := reader.clauses.push clause, clause := #[] } : Reader).clause
          = #[] from rfl)
      refine ⟨after, ?_, ?_⟩
      · rw [List.foldlM_append, takeNumbers nonzero.1]
        rw [closed]
        simpa [Reader.take] using taken
      · rw [finished]
        simp
  | @parity written line later clauses parities negated rest inductionHypothesis =>
      obtain ⟨after, taken, finished⟩ := inductionHypothesis nonzero
        (show ({ reader with parities := reader.parities.push line } : Reader).clause = #[] from
          closed)
      refine ⟨after, ?_, ?_⟩
      · have empty : reader.clause.isEmpty = true := by simp [closed]
        rw [List.foldlM_cons, Reader.take, if_pos empty, negated.line]
        exact taken
      · rw [finished]
        simp

/-- Behind the lines comes nothing, or a line that hides the rest. -/
theorem Laid.lines {lines : List (List Char)} {text : List Char} (laid : Laid lines text)
    (unbroken : ∀ line ∈ lines, '\n' ∉ line) :
    ∃ hidden, Text.lines (· == '\n') text = lines ++ hidden ∧
      ∀ line ∈ hidden.head?, Line.ofTrimmed (trim line) = .final := by
  induction laid with
  | nothing => exact ⟨[], rfl, fun _ member => by cases member⟩
  | @last line some =>
      have cut := linesLast (charactersUnbroken (unbroken line List.mem_cons_self)) some
      exact ⟨[], cut, fun _ member => by cases member⟩
  | @final indentation hidden blank clean =>
      have visible (rest : List Char) :
          Line.ofTrimmed (trim (indentation ++ '%' :: rest)) = .final := by
        rw [trimIndented blank (by decide)]
        rfl
      by_cases broken : '\n' ∈ hidden
      · obtain ⟨first, rest, rfl, unbroken⟩ := List.eq_append_cons_of_mem broken
        have line : '\n' ∉ indentation ++ '%' :: first := by simp [clean, unbroken]
        have cut := linesBreak (charactersUnbroken line) (beq_self_eq_true '\n') rest
        rw [List.append_assoc, List.cons_append] at cut
        refine ⟨_, cut, ?_⟩
        rintro _ ⟨⟩
        exact visible first
      · have line : '\n' ∉ indentation ++ '%' :: hidden := by simp [clean, broken]
        refine ⟨_, linesLast (charactersUnbroken line) (by simp), ?_⟩
        rintro _ ⟨⟩
        exact visible hidden
  | @line line text lines rest inductionHypothesis =>
      rw [List.forall_mem_cons] at unbroken
      obtain ⟨hidden, cut, final⟩ := inductionHypothesis unbroken.2
      refine ⟨hidden, ?_, final⟩
      rw [linesBreak (charactersUnbroken unbroken.1) (beq_self_eq_true _), cut, List.cons_append]

/-- A line that hides the rest ends the reading. -/
theorem readLinesHidden {hidden : List (List Char)}
    (final : ∀ line ∈ hidden.head?, Line.ofTrimmed (trim line) = .final) (number : Nat)
    (reader : Reader) : readLines (hidden.map some) number reader = .ok reader := by
  cases hidden with
  | nil => rfl
  | cons line others =>
      rw [List.map_cons, readLines, final line rfl]
      rfl

/-- Reading undoes rendering, whichever of the many renderings it is given.

The text may come as characters or as their encoding in bytes. -/
theorem renderingRead {problem : Dimacs} {text : List Char} (wellFormed : problem.WellFormed)
    (renders : Renders problem text) :
    parse text = .ok problem ∧ ofLines (linesOfBytes (encode text)) = .ok problem := by
  have bytes : linesOfBytes (encode text) = (Text.lines (· == '\n') text).map some := by
    rw [linesOfBytes, linesEncode, List.map_map]
    exact List.map_congr_left fun line _ => encodeDecoded line
  rw [bytes, parse, and_self]
  obtain ⟨laid, unbroken, written, header, lists⟩ := renders
  obtain ⟨hidden, cut, final⟩ := laid.lines unbroken
  have bounded := lists.bounded wellFormed.clauses wellFormed.parities
  have nonzero : ∀ clause ∈ problem.clauses, ∀ number ∈ clause, number ≠ 0 :=
    fun clause listed number member => (wellFormed.clauses clause listed number member).1
  have counted : ∀ count ∈ [problem.variableCount], (count : Int) < signedBound := by
    rw [List.forall_mem_singleton]
    exact wellFormed.count
  have closed : ({} : Reader).clause = #[] := rfl
  obtain ⟨after, taken, finished⟩ := takeLists lists nonzero closed
  have read := readLinesWritten written bounded (header ▸ counted) taken (hidden.map some) 1
  rw [ofLines, cut, List.map_append, read, header, readLinesHidden final]
  have declared : (after.declare problem.variableCount).finish =
      { after.finish with variableCount := problem.variableCount } := rfl
  change Except.ok (after.declare problem.variableCount).finish = _
  rw [declared, finished]
  rfl

/-- One clause is broken over lines and lacks its zero, and the last line is hidden. -/
def scattered : List Char :=
  "p cnf 2 1\nx -1 2 0\n 1\nc more\n -2\n%\n0 x".toList

def scatteredProblem : Dimacs := ⟨2, [[1, -2]], [⟨[1, 2], false⟩]⟩

/-- The scattered text is read like the plain one. -/
theorem renderingReadScattered :
    scatteredProblem.WellFormed ∧ Renders scatteredProblem scattered ∧
      parse scattered = .ok scatteredProblem ∧
      ofLines (linesOfBytes (encode scattered)) = .ok scatteredProblem ∧
      parse (render scatteredProblem) = .ok scatteredProblem := by
  have wellFormed : scatteredProblem.WellFormed :=
    ⟨by decide, by simp [scatteredProblem, Signed64, signedBound],
      by simp [scatteredProblem, Signed64, signedBound]⟩
  have written : List.Forall₂ Entry.Written
      [.header 2, .parity [-1, 2], .numbers [1], .nothing, .numbers [-2]]
      ["p cnf 2 1".toList, "x -1 2 0".toList, " 1".toList, "c more".toList, " -2".toList] :=
    .cons (headerLineWritten ⟨2, [[]], []⟩)
      (.cons (.parity blankNil (printedSpells [-1, 2, 0]) (printedSpaced _))
        (.cons (.numbers (List.cons_ne_nil _ _) (printedSpells [1]) (printedSpaced [1]))
          (.cons (.comment blankNil)
            (.cons (.numbers (List.cons_ne_nil _ _) (printedSpells [-2]) (printedSpaced [-2]))
              .nil))))
  have laid : Laid ["p cnf 2 1".toList, "x -1 2 0".toList, " 1".toList, "c more".toList,
      " -2".toList] scattered :=
    .line (.line (.line (.line (.line (.final blankNil List.not_mem_nil)))))
  have negated : NegatedIn ⟨[1, 2], false⟩ [-1, 2] := ⟨rfl, by decide⟩
  have clause : Lists [.number 1, .number (-2)] [[1, -2]] [] :=
    .unended (List.cons_ne_nil 1 [-2])
  have renders : Renders scatteredProblem scattered :=
    .intro laid (by decide) written rfl (.parity negated clause)
  obtain ⟨characters, bytes⟩ := renderingRead wellFormed renders
  have plain : Renders scatteredProblem (render scatteredProblem) :=
    rendersRendered (by simp [scatteredProblem]) (by simp [scatteredProblem])
  exact ⟨wellFormed, renders, characters, bytes, (renderingRead wellFormed plain).1⟩

end ParitySat.Dimacs
