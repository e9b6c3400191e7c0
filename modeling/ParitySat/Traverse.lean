/-
This file runs a fallible function over a list up to its first failure.
-/

namespace ParitySat

/-- The values found so far are kept in reverse. -/
def traverseFrom {α β ε : Type} (read : α → Except ε β) :
    List α → List β → Except ε (List β)
  | [], done => .ok done.reverse
  | first :: rest, done =>
    match read first with
    | .error error => .error error
    | .ok value => traverseFrom read rest (value :: done)

/-- The first failure is the result, and otherwise the list of all values. -/
def traverse {α β ε : Type} (read : α → Except ε β) (elements : List α) : Except ε (List β) :=
  traverseFrom read elements []

theorem traverseFromReverse {α β ε : Type} (read : α → Except ε β) (elements : List α)
    (done : List β) :
    traverseFrom read elements done =
      (traverse read elements).map (done.reverse ++ ·) := by
  induction elements generalizing done with
  | nil => simp [traverseFrom, traverse, Except.map]
  | cons first rest inductionHypothesis =>
      simp only [traverse, traverseFrom]
      cases read first with
      | error error => rfl
      | ok value =>
          simp only []
          rw [inductionHypothesis, inductionHypothesis [value]]
          cases traverse read rest <;> simp [Except.map]

@[simp] theorem traverseNil {α β ε : Type} (read : α → Except ε β) :
    traverse read [] = .ok [] := rfl

theorem traverseCons {α β ε : Type} (read : α → Except ε β) (first : α) (rest : List α) :
    traverse read (first :: rest) =
      match read first with
      | .error error => .error error
      | .ok value => (traverse read rest).map (value :: ·) := by
  simp only [traverse, traverseFrom]
  cases read first with
  | error error => rfl
  | ok value =>
      simp only []
      rw [traverseFromReverse]
      rfl

/-- A success has one value for every element. -/
theorem traverseLength {α β ε : Type} {read : α → Except ε β} {elements : List α}
    {values : List β} (success : traverse read elements = .ok values) :
    values.length = elements.length := by
  induction elements generalizing values with
  | nil =>
      rw [traverseNil] at success
      cases success
      rfl
  | cons first rest inductionHypothesis =>
      rw [traverseCons] at success
      cases head : read first with
      | error error => simp [head] at success
      | ok value =>
          cases tail : traverse read rest with
          | error error => simp [head, tail, Except.map] at success
          | ok found =>
              simp only [head, tail, Except.map, Except.ok.injEq] at success
              rw [← success, List.length_cons, List.length_cons, inductionHypothesis tail]

/-- Every value of a success has been read from an element. -/
theorem traverseMember {α β ε : Type} {read : α → Except ε β} {elements : List α}
    {values : List β} (success : traverse read elements = .ok values) :
    ∀ value ∈ values, ∃ element ∈ elements, read element = .ok value := by
  induction elements generalizing values with
  | nil =>
      cases success
      exact fun _ member => absurd member List.not_mem_nil
  | cons first rest inductionHypothesis =>
      rw [traverseCons] at success
      cases head : read first with
      | error error => simp [head] at success
      | ok value =>
          cases tail : traverse read rest with
          | error error => simp [head, tail, Except.map] at success
          | ok found =>
              simp only [head, tail, Except.map, Except.ok.injEq] at success
              rw [← success, List.forall_mem_cons]
              refine ⟨⟨first, List.mem_cons_self, head⟩, fun other member => ?_⟩
              obtain ⟨element, listed, same⟩ := inductionHypothesis tail other member
              exact ⟨element, List.mem_cons_of_mem first listed, same⟩

end ParitySat
