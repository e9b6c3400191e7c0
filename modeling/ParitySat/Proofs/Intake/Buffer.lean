/-
This file shows that a terminated buffer is cut into its longest parts without a zero, and that a
scan by positions meets no item outside the buffer.
-/

import Mathlib.Data.List.Basic
import ParitySat.Intake.Buffer
import ParitySat.Proofs.Checked.Fault
import ParitySat.Traverse

namespace ParitySat

namespace ClauseBuffer

/-- This function lists the longest parts without a zero, but for the empty ones. -/
def parts (items : List Int) : List (List Int) :=
  (items.splitOn 0).filter fun part => !part.isEmpty

/-- Every segment is followed by a zero. -/
inductive Terminated : List Int → Prop where
  | nothing : Terminated []
  | segment {segment rest : List Int} (free : 0 ∉ segment) (later : Terminated rest) :
      Terminated (segment ++ 0 :: rest)

/-- A last zero ends the last segment, and every other zero ends another one. -/
theorem terminatedOfLast (items : List Int) (last : items.getLast?.all (· == 0) = true) :
    Terminated items := by
  induction size : items.length using Nat.strongRecOn generalizing items with
  | ind length inductionHypothesis =>
      by_cases empty : items = []
      · rw [empty]
        exact .nothing
      · have zero : (0 : Int) ∈ items := by
          rw [List.getLast?_eq_some_getLast empty, Option.all_some, beq_iff_eq] at last
          rw [← last]
          exact List.getLast_mem empty
        obtain ⟨segment, rest, rfl, free⟩ := List.eq_append_cons_of_mem zero
        refine .segment free (inductionHypothesis rest.length ?_ rest ?_ rfl)
        · rw [← size, List.length_append, List.length_cons]
          omega
        · cases rest with
          | nil => rfl
          | cons first others =>
              rwa [List.getLast?_append_of_ne_nil _ (List.cons_ne_nil _ _),
                List.getLast?_cons_cons] at last

section Cut

variable {segment : List Int} (free : 0 ∉ segment) (rest : List Int)
include free

theorem partsSegment : parts (segment ++ 0 :: rest) =
    if segment.isEmpty then parts rest else segment :: parts rest := by
  have apart : ∀ item ∈ segment, (item == 0) = false := by
    intro item member
    rw [beq_eq_false_iff_ne]
    rintro rfl
    exact free member
  rw [parts, List.splitOn, List.splitOnP_append_cons_of_forall_mem apart 0 (beq_self_eq_true _),
    List.filter_cons, ← List.splitOn, ← parts]
  cases segment.isEmpty <;> rfl

/-- The items up to the next zero join the segment being read. -/
theorem segmentsFromSegment (read : List Int) (done : List (List Int)) :
    segmentsFrom (segment ++ 0 :: rest) read done =
      if (segment.reverse ++ read).isEmpty then segmentsFrom rest [] done
      else segmentsFrom rest [] ((read.reverse ++ segment) :: done) := by
  induction segment generalizing read with
  | nil => simp [segmentsFrom]
  | cons item others inductionHypothesis =>
      have nonzero : item ≠ 0 := fun zero => free (zero ▸ List.mem_cons_self)
      rw [List.cons_append, segmentsFrom, if_neg nonzero,
        inductionHypothesis fun member => free (List.mem_cons_of_mem _ member)]
      simp

end Cut

/-- Reading a terminated buffer to its end finds its parts. -/
theorem Terminated.segmentsFrom {items : List Int} (terminated : Terminated items)
    (done : List (List Int)) :
    ClauseBuffer.segmentsFrom items [] done = done.reverse ++ parts items := by
  induction terminated generalizing done with
  | nothing => rw [ClauseBuffer.segmentsFrom, parts, List.splitOn_nil]; simp
  | @segment segment rest free later inductionHypothesis =>
      rw [segmentsFromSegment free, partsSegment free]
      cases empty : segment.isEmpty with
      | true => simp [empty, inductionHypothesis]
      | false => simp [empty, inductionHypothesis]

end ClauseBuffer

namespace Checked

/-- This function reads one item of a buffer. -/
def item (items : List Int) (position : Nat) : Except Fault Int :=
  match items[position]? with
  | some value => .ok value
  | none => .error .outOfBounds

theorem itemAt (before : List Int) (value : Int) (later : List Int) :
    item (before ++ value :: later) before.length = .ok value := by
  rw [item, List.getElem?_append_right (Nat.le_refl _), Nat.sub_self]
  rfl

theorem itemInside {items : List Int} {position : Nat} {value : Int}
    (read : item items position = .ok value) : position < items.length := by
  unfold item at read
  split at read
  · next known => exact (List.getElem?_eq_some_iff.1 known).1
  · cases read

/-- The scan for a zero does not ask where the buffer ends. -/
def nextZero (items : List Int) (position : Nat) : Except Fault Nat :=
  match read : item items position with
  | .error fault => .error fault
  | .ok value => if value = 0 then .ok position else nextZero items (position + 1)
termination_by items.length - position
decreasing_by
  have inside := itemInside read
  omega

theorem nextZeroStep (items : List Int) (position : Nat) :
    nextZero items position = (do
      let value ← item items position
      if value = 0 then .ok position else nextZero items (position + 1)) := by
  rw [nextZero]
  split
  · next read => rw [read]; rfl
  · next read => rw [read]; rfl

theorem nextZeroBounds {items : List Int} {position stop : Nat}
    (found : nextZero items position = .ok stop) : position ≤ stop ∧ stop < items.length := by
  fun_induction nextZero items position with
  | case1 position fault read => cases found
  | case2 position read =>
      cases found
      exact ⟨Nat.le_refl _, itemInside read⟩
  | case3 position value read elsewhere inductionHypothesis =>
      obtain ⟨behind, inside⟩ := inductionHypothesis found
      exact ⟨Nat.le_of_succ_le behind, inside⟩

/-- This function skips empty segments and stops behind the zero of the first one that is not. -/
def nextSegment (items : List Int) (position : Nat) : Except Fault (Option (List Int × Nat)) :=
  if position < items.length then
    match found : nextZero items position with
    | .error fault => .error fault
    | .ok stop =>
      if position < stop then do
        let segment ← traverse (item items) (List.range' position (stop - position))
        return some (segment, stop + 1)
      else nextSegment items (stop + 1)
  else .ok none
termination_by items.length - position
decreasing_by
  have bounds := nextZeroBounds found
  omega

theorem nextSegmentStep {items : List Int} {position : Nat} (inside : position < items.length) :
    nextSegment items position = (do
      let stop ← nextZero items position
      if position < stop then do
        let segment ← traverse (item items) (List.range' position (stop - position))
        return some (segment, stop + 1)
      else nextSegment items (stop + 1)) := by
  rw [nextSegment, if_pos inside]
  split
  · next fails => rw [fails]; rfl
  · next found => rw [found]; rfl

/-- A segment that is found lies inside the buffer together with its zero. -/
theorem nextSegmentBounds {items segment : List Int} {position next : Nat}
    (found : nextSegment items position = .ok (some (segment, next))) :
    position < next ∧ next ≤ items.length := by
  fun_induction nextSegment items position with
  | case1 position inside fault missing => cases found
  | case2 position inside stop scanned longer =>
      obtain ⟨-, ends⟩ := nextZeroBounds scanned
      cases read : traverse (item items) (List.range' position (stop - position)) with
      | error fault =>
          rw [read] at found
          cases found
      | ok segment =>
          rw [read] at found
          cases found
          omega
  | case3 position inside stop scanned empty inductionHypothesis =>
      obtain ⟨behind, -⟩ := nextZeroBounds scanned
      obtain ⟨further, ends⟩ := inductionHypothesis found
      exact ⟨by omega, ends⟩
  | case4 position outside => cases found

/-- A zero that is there is found before the buffer ends. -/
theorem nextZeroFinds (before : List Int) {segment : List Int} (free : 0 ∉ segment)
    (rest : List Int) :
    nextZero (before ++ (segment ++ 0 :: rest)) before.length =
      .ok (before.length + segment.length) := by
  induction segment generalizing before with
  | nil =>
      rw [nextZeroStep, List.nil_append, itemAt]
      rfl
  | cons value others inductionHypothesis =>
      have nonzero : value ≠ 0 := fun here => free (here ▸ List.mem_cons_self)
      have later := inductionHypothesis (before ++ [value])
        fun member => free (List.mem_cons_of_mem _ member)
      rw [List.append_assoc, List.singleton_append, List.length_append, List.length_singleton]
        at later
      rw [nextZeroStep, List.cons_append, itemAt, okBind, if_neg nonzero, later, List.length_cons,
        Nat.add_assoc, Nat.add_comm 1]

/-- Without a last zero the scan leaves the buffer. -/
example : nextZero [0, 3, -1] 1 = .error .outOfBounds := by cbv

/-- The items of a segment are read again, one after the other. -/
theorem segmentRead (before segment later : List Int) :
    traverse (item (before ++ (segment ++ later))) (List.range' before.length segment.length) =
      .ok segment := by
  induction segment generalizing before with
  | nil => rfl
  | cons value others inductionHypothesis =>
      have rest := inductionHypothesis (before ++ [value])
      rw [List.append_assoc, List.singleton_append, List.length_append, List.length_singleton]
        at rest
      rw [List.length_cons, List.range'_succ, traverseCons, List.cons_append, itemAt]
      simp only
      rw [rest]
      rfl

/-- What a scan of the remaining items finds, and where it stops. -/
inductive Scanned (before remaining : List Int) : Option (List Int × Nat) → Prop where
  | nothing (empty : ClauseBuffer.parts remaining = []) : Scanned before remaining none
  | found {read segment rest : List Int} (split : remaining = read ++ rest)
      (first : ClauseBuffer.parts remaining = segment :: ClauseBuffer.parts rest)
      (later : ClauseBuffer.Terminated rest) :
      Scanned before remaining (some (segment, (before ++ read).length))

theorem nextSegmentScans {remaining : List Int} (terminated : ClauseBuffer.Terminated remaining)
    (before : List Int) :
    ∃ result, nextSegment (before ++ remaining) before.length = .ok result ∧
      Scanned before remaining result := by
  induction terminated generalizing before with
  | nothing =>
      refine ⟨none, ?_, .nothing rfl⟩
      rw [nextSegment, List.append_nil, if_neg (Nat.lt_irrefl _)]
  | @segment segment rest free later inductionHypothesis =>
      have inside : before.length < (before ++ (segment ++ 0 :: rest)).length := by
        rw [List.length_append, List.length_append, List.length_cons]
        omega
      have parts := ClauseBuffer.partsSegment free rest
      rw [nextSegmentStep inside, nextZeroFinds before free, okBind]
      cases segment with
      | nil =>
          obtain ⟨result, same, scanned⟩ := inductionHypothesis (before ++ [0])
          rw [List.length_append, List.length_singleton, List.append_assoc] at same
          refine ⟨result, (if_neg (Nat.lt_irrefl _)).trans same, ?_⟩
          cases scanned with
          | nothing empty => exact .nothing (parts.trans empty)
          | @found read segment rest split first later =>
              rw [List.append_assoc]
              exact .found (congrArg (0 :: ·) split) (parts.trans first) later
      | cons value others =>
          have longer : before.length < before.length + (value :: others).length :=
            Nat.lt_add_of_pos_right (Nat.succ_pos _)
          have stop : before.length + (value :: others).length + 1 =
              (before ++ (value :: others ++ [0])).length := by
            simp [Nat.add_assoc]
          rw [if_pos longer, Nat.add_sub_cancel_left, segmentRead, okBind, stop]
          exact ⟨_, rfl, .found (List.append_cons _ _ _) parts later⟩

end Checked

end ParitySat
