/-
This file lets a run end with a fault where an index is out of bounds or a promise is broken.
-/

namespace ParitySat

/-- Each of these ends a run at once, and the last two are limits of the words in use. -/
inductive Fault where
  | outOfBounds
  | reassigned
  | exhaustedTrail
  | unexplained
  | shortClause
  | openLevel
  | overflow
  | manyAtoms
  | manyRestarts
  deriving DecidableEq, Repr

namespace Checked

/-- This function breaks the run off unless the condition holds. -/
def require (condition : Prop) [Decidable condition] (fault : Fault) : Except Fault Unit :=
  if condition then .ok () else .error fault

/-- This function breaks the run off unless the array has an entry at the index. -/
def within {α : Type} (entries : Array α) (index : Nat) : Except Fault Unit :=
  require (index < entries.size) .outOfBounds

theorem requireMet {condition : Prop} [Decidable condition] {fault : Fault} (met : condition) :
    require condition fault = .ok () :=
  if_pos met

theorem withinMet {α : Type} {entries : Array α} {index : Nat} (inside : index < entries.size) :
    within entries index = .ok () :=
  requireMet inside

section Bind

variable {α β : Type}

@[simp] theorem okBind (value : α) (next : α → Except Fault β) :
    (Except.ok value >>= next) = next value := rfl

@[simp] theorem pureOk (value : α) : (pure value : Except Fault α) = .ok value := rfl

/-- This function checks one element after the other. -/
def each (check : α → Except Fault Unit) : List α → Except Fault Unit
  | [] => .ok ()
  | first :: rest => do
    check first
    each check rest

theorem eachMet {check : α → Except Fault Unit} {elements : List α}
    (met : ∀ element ∈ elements, check element = .ok ()) : each check elements = .ok () := by
  induction elements with
  | nil => rfl
  | cons first rest inductionHypothesis =>
      rw [each, met first List.mem_cons_self, okBind]
      exact inductionHypothesis fun element member => met element (List.mem_cons_of_mem _ member)

/-- A fold meets no fault while the invariant holds. -/
theorem foldMet (invariant : β → Prop) {check : β → α → Except Fault β} {plain : β → α → β}
    {elements : List α}
    (met : ∀ state, invariant state → ∀ element ∈ elements,
      check state element = .ok (plain state element) ∧ invariant (plain state element))
    {start : β} (initial : invariant start) :
    elements.foldlM check start = .ok (elements.foldl plain start) := by
  induction elements generalizing start with
  | nil => rfl
  | cons first rest inductionHypothesis =>
      obtain ⟨same, next⟩ := met start initial first List.mem_cons_self
      rw [List.foldlM_cons, same, okBind, List.foldl_cons]
      exact inductionHypothesis
        (fun state holds element member => met state holds element (List.mem_cons_of_mem _ member))
        next

end Bind

/-- The checked run has the plain result, or its fault says what the plain run goes beyond. -/
inductive Agrees {α : Type} (beyond : Fault → Prop) (plain : α) : Except Fault α → Prop where
  | same : Agrees beyond plain (.ok plain)
  | faulty {fault : Fault} (reason : beyond fault) : Agrees beyond plain (.error fault)

namespace Agrees

variable {α β : Type} {beyond : Fault → Prop} {plain : α} {checked : Except Fault α}

theorem ofEq (same : checked = .ok plain) : Agrees beyond plain checked :=
  same ▸ .same

theorem mono (agrees : Agrees beyond plain checked) {further : Fault → Prop}
    (weaker : ∀ fault, beyond fault → further fault) : Agrees further plain checked := by
  cases agrees with
  | same => exact .same
  | faulty reason => exact .faulty (weaker _ reason)

theorem bind (agrees : Agrees beyond plain checked) {result : β} {next : α → Except Fault β}
    (follows : Agrees beyond result (next plain)) : Agrees beyond result (checked >>= next) := by
  cases agrees with
  | same => exact follows
  | faulty reason => exact .faulty reason

theorem each {check : α → Except Fault Unit} {elements : List α}
    (agrees : ∀ element ∈ elements, Agrees beyond () (check element)) :
    Agrees beyond () (Checked.each check elements) := by
  induction elements with
  | nil => exact .same
  | cons first rest inductionHypothesis =>
      exact (agrees first List.mem_cons_self).bind
        (inductionHypothesis fun element member => agrees element (List.mem_cons_of_mem _ member))

end Agrees

end Checked

end ParitySat
