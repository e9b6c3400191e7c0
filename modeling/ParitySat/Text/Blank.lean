/-
This file cuts text into trimmed lines and words.
-/

namespace ParitySat.Text

/-- These characters have the Unicode property White_Space. -/
def isBlank (character : Char) : Bool :=
  let code := character.toNat
  (0x9 ≤ code && code ≤ 0xD) || code == 0x20 || code == 0x85 || code == 0xA0 ||
    code == 0x1680 || (0x2000 ≤ code && code ≤ 0x200A) || code == 0x2028 || code == 0x2029 ||
    code == 0x202F || code == 0x205F || code == 0x3000

/-- This function drops blanks at both ends. -/
def trim (characters : List Char) : List Char :=
  ((characters.dropWhile isBlank).reverse.dropWhile isBlank).reverse

/-- The word being read and the finished words are kept in reverse. -/
def wordsFrom : List Char → List Char → List (List Char) → List (List Char)
  | [], [], done => done.reverse
  | [], word, done => (word.reverse :: done).reverse
  | character :: rest, word, done =>
    if isBlank character then
      if word.isEmpty then wordsFrom rest [] done else wordsFrom rest [] (word.reverse :: done)
    else wordsFrom rest (character :: word) done

/-- This function lists the maximal parts without blanks. -/
def words (characters : List Char) : List (List Char) :=
  wordsFrom characters [] []

/-- The line being read and the finished lines are kept in reverse. -/
def linesFrom {α : Type} (isBreak : α → Bool) :
    List α → List α → List (List α) → List (List α)
  | [], [], done => done.reverse
  | [], line, done => (line.reverse :: done).reverse
  | unit :: rest, line, done =>
    if isBreak unit then linesFrom isBreak rest [] (line.reverse :: done)
    else linesFrom isBreak rest (unit :: line) done

/-- Every break ends a line, and a last line may lack its break. -/
def lines {α : Type} (isBreak : α → Bool) (units : List α) : List (List α) :=
  linesFrom isBreak units [] []

end ParitySat.Text
