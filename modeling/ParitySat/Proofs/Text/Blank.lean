/-
This file shows that lines and words are cut out of a text as they were written into it.
-/

import ParitySat.Text.Blank

namespace ParitySat.Text

/-- A word has characters, and none of them is blank. -/
structure IsWord (word : List Char) : Prop where
  nonempty : word ≠ []
  visible : ∀ character ∈ word, isBlank character = false

/-- This text is blank all over. -/
def Blank (text : List Char) : Prop :=
  ∀ character ∈ text, isBlank character = true

/-- The words stand in the text with blanks between them and perhaps around them. -/
inductive Spaced : List (List Char) → List Char → Prop where
  | nothing {blanks : List Char} (blank : Blank blanks) : Spaced [] blanks
  | word {blanks word text : List Char} {words : List (List Char)} (blank : Blank blanks)
      (isWord : IsWord word) (later : Spaced words text)
      (apart : ∀ character ∈ text.head?, isBlank character = true) :
      Spaced (word :: words) (blanks ++ (word ++ text))

section Words

theorem wordsFromBlank {blanks : List Char} (blank : Blank blanks) (text : List Char)
    (done : List (List Char)) :
    wordsFrom (blanks ++ text) [] done = wordsFrom text [] done := by
  induction blanks with
  | nil => rfl
  | cons character rest inductionHypothesis =>
      rw [List.cons_append, wordsFrom, if_pos (blank character List.mem_cons_self),
        List.isEmpty_nil, if_pos rfl]
      exact inductionHypothesis fun other member => blank other (List.mem_cons_of_mem _ member)

/-- The characters of a word join what has been read of it. -/
theorem wordsFromVisible {word : List Char}
    (visible : ∀ character ∈ word, isBlank character = false) (text read : List Char)
    (done : List (List Char)) :
    wordsFrom (word ++ text) read done = wordsFrom text (word.reverse ++ read) done := by
  induction word generalizing read with
  | nil => rfl
  | cons character rest inductionHypothesis =>
      rw [List.cons_append, wordsFrom, visible character List.mem_cons_self,
        if_neg Bool.false_ne_true,
        inductionHypothesis fun other member => visible other (List.mem_cons_of_mem _ member),
        List.reverse_cons, List.append_assoc, List.singleton_append]

/-- A blank or the end of the text finishes the word. -/
theorem wordsFromApart {text read : List Char} (some : read ≠ []) (done : List (List Char))
    (apart : ∀ character ∈ text.head?, isBlank character = true) :
    wordsFrom text read done = wordsFrom text [] (read.reverse :: done) := by
  cases text with
  | nil =>
      cases read with
      | nil => exact absurd rfl some
      | cons last earlier => rfl
  | cons character rest =>
      have blank := apart character rfl
      rw [wordsFrom, wordsFrom, if_pos blank, if_pos blank, List.isEmpty_nil, if_pos rfl,
        if_neg (by simpa using some)]

theorem Spaced.wordsFrom {words : List (List Char)} {text : List Char}
    (spaced : Spaced words text) (done : List (List Char)) :
    Text.wordsFrom text [] done = done.reverse ++ words := by
  induction spaced generalizing done with
  | @nothing blanks blank =>
      rw [← List.append_nil blanks, wordsFromBlank blank, Text.wordsFrom, List.append_nil]
  | @word blanks word text words blank isWord later apart inductionHypothesis =>
      have some : word.reverse ++ [] ≠ [] := by simpa using isWord.nonempty
      rw [wordsFromBlank blank, wordsFromVisible isWord.visible, wordsFromApart some _ apart,
        inductionHypothesis, List.append_nil, List.reverse_reverse, List.reverse_cons,
        List.append_assoc, List.singleton_append]

/-- Words are read as they were written. -/
theorem Spaced.words {words : List (List Char)} {text : List Char} (spaced : Spaced words text) :
    Text.words text = words :=
  spaced.wordsFrom []

/-- This function puts a blank in front of every word. -/
def spaced (words : List (List Char)) : List Char :=
  words.flatMap (' ' :: ·)

theorem blankSpace : Blank [' '] := by
  intro character member
  rw [List.mem_singleton.1 member]
  decide

theorem spacedApart (words : List (List Char)) :
    ∀ character ∈ (spaced words).head?, isBlank character = true := by
  cases words with
  | nil => rintro _ ⟨⟩
  | cons word rest =>
      rintro _ ⟨⟩
      decide

theorem spacedSpaced {words : List (List Char)} (isWord : ∀ word ∈ words, IsWord word) :
    Spaced words (spaced words) := by
  induction words with
  | nil => exact .nothing fun _ member => absurd member List.not_mem_nil
  | cons word rest inductionHypothesis =>
      rw [List.forall_mem_cons] at isWord
      exact .word blankSpace isWord.1 (inductionHypothesis isWord.2) (spacedApart rest)

theorem intercalateSpaced (word : List Char) (rest : List (List Char)) :
    [' '].intercalate (word :: rest) = word ++ spaced rest := by
  induction rest generalizing word with
  | nil => simp [spaced]
  | cons other rest inductionHypothesis =>
      rw [List.intercalate_cons_cons, inductionHypothesis other]
      simp [spaced]

/-- One blank between any two words keeps them apart. -/
theorem wordsIntercalate {words : List (List Char)} (isWord : ∀ word ∈ words, IsWord word) :
    Text.words ([' '].intercalate words) = words := by
  cases words with
  | nil => rfl
  | cons word rest =>
      rw [List.forall_mem_cons] at isWord
      have blank : Blank [] := fun _ member => absurd member List.not_mem_nil
      have later := spacedSpaced isWord.2
      rw [intercalateSpaced]
      exact (Spaced.word blank isWord.1 later (spacedApart rest)).words

theorem spacedUnbroken {words : List (List Char)} (isWord : ∀ word ∈ words, IsWord word) :
    '\n' ∉ spaced words := by
  intro member
  obtain ⟨word, listed, member⟩ := List.mem_flatMap.1 member
  rcases List.mem_cons.1 member with impossible | member
  · exact absurd impossible (by decide)
  · exact absurd ((isWord word listed).visible _ member) (by decide)

end Words

section Trim

/-- This function drops blanks at the end. -/
def trimEnd (text : List Char) : List Char :=
  (text.reverse.dropWhile isBlank).reverse

theorem trimEndBlank (text : List Char) :
    ∃ blanks, Blank blanks ∧ text = trimEnd text ++ blanks := by
  refine ⟨(text.reverse.takeWhile isBlank).reverse, ?_, ?_⟩
  · intro character member
    exact List.all_eq_true.1 List.all_takeWhile character (List.mem_reverse.1 member)
  · rw [trimEnd, ← List.reverse_append, List.takeWhile_append_dropWhile, List.reverse_reverse]

/-- Blanks at the end are no word. -/
theorem wordsFromTrimEnd (text read : List Char) (done : List (List Char)) {blanks : List Char}
    (blank : Blank blanks) : wordsFrom (text ++ blanks) read done = wordsFrom text read done := by
  induction text generalizing read done with
  | nil =>
      cases read with
      | nil => exact (Spaced.nothing blank).wordsFrom done |>.trans (List.append_nil _)
      | cons last earlier =>
          have apart : ∀ character ∈ blanks.head?, isBlank character = true :=
            fun character first => blank character (List.mem_of_mem_head? first)
          rw [List.nil_append, wordsFromApart (List.cons_ne_nil _ _) done apart,
            (Spaced.nothing blank).wordsFrom, List.append_nil, wordsFrom]
          exact List.cons_ne_nil _ _
  | cons character rest inductionHypothesis =>
      rw [List.cons_append, wordsFrom, wordsFrom]
      simp only [inductionHypothesis]

/-- Trimming the end leaves the words, whatever stands in front. -/
theorem wordsTrimEnd (front text : List Char) :
    words (front ++ trimEnd text) = words (front ++ text) := by
  obtain ⟨blanks, blank, same⟩ := trimEndBlank text
  have more := wordsFromTrimEnd (front ++ trimEnd text) [] [] blank
  rw [List.append_assoc, ← same] at more
  exact more.symm

/-- A line is trimmed up to its first visible character and behind its last one. -/
theorem trimIndented {blanks : List Char} (blank : Blank blanks) {first : Char}
    (visible : isBlank first = false) (rest : List Char) :
    trim (blanks ++ first :: rest) = first :: trimEnd rest := by
  have front : (blanks ++ first :: rest).dropWhile isBlank = first :: rest := by
    rw [List.dropWhile_append_of_pos blank, List.dropWhile_cons_of_neg (by simp [visible])]
  rw [trim, front, List.reverse_cons, List.dropWhile_append, trimEnd]
  split
  · next empty =>
      rw [List.isEmpty_iff] at empty
      rw [empty, List.dropWhile_cons_of_neg (by simp [visible])]
      rfl
  · rw [List.reverse_append]
    rfl

theorem trimBlank {blanks : List Char} (blank : Blank blanks) : trim blanks = [] := by
  have nothing : blanks.dropWhile isBlank = [] := by
    rw [← List.append_nil blanks, List.dropWhile_append_of_pos blank]
    rfl
  rw [trim, nothing]
  rfl

end Trim

section Lines

variable {α : Type} {isBreak : α → Bool}

theorem linesFromUnits {units : List α} (unbroken : ∀ unit ∈ units, isBreak unit = false)
    (rest line : List α) (done : List (List α)) :
    linesFrom isBreak (units ++ rest) line done =
      linesFrom isBreak rest (units.reverse ++ line) done := by
  induction units generalizing line with
  | nil => rfl
  | cons unit others inductionHypothesis =>
      rw [List.cons_append, linesFrom, unbroken unit List.mem_cons_self,
        if_neg Bool.false_ne_true,
        inductionHypothesis fun other member => unbroken other (List.mem_cons_of_mem _ member),
        List.reverse_cons, List.append_assoc, List.singleton_append]

theorem linesFromDone (units line : List α) (done : List (List α)) :
    linesFrom isBreak units line done = done.reverse ++ linesFrom isBreak units line [] := by
  induction units generalizing line done with
  | nil =>
      cases line with
      | nil => simp [linesFrom]
      | cons last earlier => simp [linesFrom]
  | cons unit rest inductionHypothesis =>
      rw [linesFrom, linesFrom]
      split
      · rw [inductionHypothesis, inductionHypothesis [] [line.reverse]]
        simp
      · exact inductionHypothesis _ _

/-- A line ends at its break. -/
theorem linesBreak {line : List α} (unbroken : ∀ unit ∈ line, isBreak unit = false) {stop : α}
    (breaks : isBreak stop = true) (rest : List α) :
    lines isBreak (line ++ stop :: rest) = line :: lines isBreak rest := by
  rw [lines, linesFromUnits unbroken, linesFrom, if_pos breaks, linesFromDone, List.append_nil,
    List.reverse_reverse]
  rfl

theorem linesLast {line : List α} (unbroken : ∀ unit ∈ line, isBreak unit = false)
    (some : line ≠ []) : lines isBreak line = [line] := by
  have units := linesFromUnits unbroken [] [] []
  rw [List.append_nil, List.append_nil] at units
  rw [lines, units]
  cases reversed : line.reverse with
  | nil => exact absurd (List.reverse_eq_nil_iff.1 reversed) some
  | cons last earlier =>
      rw [linesFrom, ← reversed, List.reverse_cons, List.reverse_nil, List.nil_append,
        List.reverse_reverse]
      exact List.cons_ne_nil _ _

end Lines

end ParitySat.Text
