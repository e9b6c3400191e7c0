/-
This file shows that a batch of clauses does the same as its clauses one by one.
-/

import ParitySat.Backend.Scripted
import ParitySat.Proofs.Backend.Native
import ParitySat.Proofs.Intake.Buffer
import ParitySat.Proofs.Session.Call

namespace ParitySat

/-- The clauses that a buffer holds, as a caller would list them. -/
def ClauseBuffer.listed (buffer : ClauseBuffer) : List (List HostLiteral) :=
  (parts buffer.items).map (·.map HostLiteral.integer)

namespace ClauseBuffer

/-- A buffer is terminated if it is empty or ends in a zero. -/
theorem isTerminatedIff (buffer : ClauseBuffer) :
    buffer.isTerminated = true ↔ buffer.items = [] ∨ buffer.items.getLast? = some 0 := by
  unfold isTerminated
  cases known : buffer.items.getLast? with
  | none => simpa using List.getLast?_eq_none_iff.1 known
  | some last =>
      have full : buffer.items ≠ [] := by
        intro empty
        rw [empty] at known
        cases known
      simp [full]

theorem segmentsListed {buffer : ClauseBuffer} (terminated : Terminated buffer.items) :
    buffer.segments.map (·.map HostLiteral.integer) = buffer.listed := by
  rw [segments, terminated.segmentsFrom, List.reverse_nil, List.nil_append, listed]

end ClauseBuffer

variable {β : Type} [Backend β]

namespace Checked

/-- This function reads the last item of a buffer that is not empty. -/
def terminated (items : List Int) : Except Fault Bool :=
  if items.isEmpty then return true
  else do
    let last ← item items (items.length - 1)
    return last = 0

/-- Every segment is submitted before the next one is looked for. -/
def addFrom (items : List Int) (position : Nat) (session : Session β) :
    Except Fault (Except Error Unit × Session β) :=
  match found : nextSegment items position with
  | .error fault => .error fault
  | .ok none => .ok (.ok (), session)
  | .ok (some (segment, next)) =>
    have := nextSegmentBounds found
    match (Session.addClause (segment.map HostLiteral.integer)).on session with
    | (.error error, after) => .ok (.error error, after)
    | (.ok (), after) => addFrom items next after
termination_by items.length - position

/-- The last item is read before any segment is. -/
def addBuffer (items : List Int) (reserved : Nat) (session : Session β) :
    Except Fault (Except Error Unit × Session β) := do
  let reservedSession := { session with backend := Backend.reserve reserved session.backend }
  if ← terminated items then addFrom items 0 reservedSession
  else return (.error (.malformedBuffer .unterminated), reservedSession)

theorem addFromStep (items : List Int) (position : Nat) (session : Session β) :
    addFrom items position session = (do
      match ← nextSegment items position with
      | none => return (.ok (), session)
      | some (segment, next) =>
        match (Session.addClause (segment.map HostLiteral.integer)).on session with
        | (.error error, after) => return (.error error, after)
        | (.ok (), after) => addFrom items next after) := by
  rw [addFrom]
  split
  · next fails => rw [fails]; rfl
  · next nothing => rw [nothing]; rfl
  · next found =>
      simp only [found, okBind]
      split
      · rfl
      · rfl

/-- No read fails while the rest of the buffer is terminated. -/
theorem addFromSafe {remaining : List Int} (terminated : ClauseBuffer.Terminated remaining)
    (before : List Int) (session : Session β) :
    addFrom (before ++ remaining) before.length session =
      .ok ((Session.addEach ((ClauseBuffer.parts remaining).map
        (·.map HostLiteral.integer))).on session) := by
  induction listed : ClauseBuffer.parts remaining generalizing before remaining session with
  | nil =>
      obtain ⟨result, found, scanned⟩ := nextSegmentScans terminated before
      rw [addFromStep, found, okBind]
      cases scanned with
      | nothing empty => rfl
      | found split first later =>
          rw [listed] at first
          cases first
  | cons segment others inductionHypothesis =>
      obtain ⟨result, found, scanned⟩ := nextSegmentScans terminated before
      rw [addFromStep, found, okBind]
      cases scanned with
      | nothing empty =>
          rw [listed] at empty
          cases empty
      | @found read _ rest split first later =>
          rw [listed] at first
          obtain ⟨rfl, rfl⟩ := List.cons.inj first
          simp only [List.map_cons, Session.addEach, Call.onBind]
          generalize (Session.addClause (segment.map HostLiteral.integer)).on session = ended
          obtain ⟨result, after⟩ := ended
          cases result with
          | error error => rfl
          | ok done =>
              rw [split, ← List.append_assoc]
              exact inductionHypothesis later (before ++ read) after rfl

theorem terminatedSafe (buffer : ClauseBuffer) :
    terminated buffer.items = .ok buffer.isTerminated := by
  unfold terminated
  cases known : buffer.items.reverse with
  | nil =>
      rw [List.reverse_eq_nil_iff] at known
      rw [ClauseBuffer.isTerminated, known]
      rfl
  | cons last earlier =>
      rw [List.reverse_eq_cons_iff] at known
      have final := itemAt earlier.reverse last []
      rw [ClauseBuffer.isTerminated, known, List.getLast?_concat, List.length_append,
        List.length_singleton, Nat.add_sub_cancel, final, okBind]
      simp [BEq.beq]

end Checked

/-- A backend counts its atoms as it is asked to, as long as it serves. -/
structure Backend.Counts (serves : β → Prop) : Prop where
  added : ∀ count backend, serves backend → serves (addAtoms count backend) ∧
    atomCount (addAtoms count backend) = atomCount backend + count
  kept : ∀ literals backend, serves backend →
    (∀ literal ∈ literals, literal.atom < atomCount backend) →
    serves (addClause literals backend) ∧
      atomCount (addClause literals backend) = atomCount backend

namespace Session

/-- This call adds the clauses one at a time, after the variables that are reserved. -/
def addOneByOne (clauses : List (List HostLiteral)) (reserved : Nat) : Call β Unit := do
  reserve reserved
  clauses.forM addClause

/-- This function submits clauses that are decoded already. -/
def submitEach (clauses : List (List Literal)) (backend : β) : β :=
  clauses.foldl (fun backend literals => submit literals backend) backend

/-- All the clauses are submitted, or those before the first invalid one. -/
inductive Ingested (clauses : List (List HostLiteral)) (backend : β) :
    Except Error Unit → β → Prop where
  | all {decoded : List (List Literal)} (valid : traverse Intake.clause clauses = .ok decoded) :
      Ingested clauses backend (.ok ()) (submitEach decoded backend)
  | before {valid later : List (List HostLiteral)} {invalid : List HostLiteral}
      {decoded : List (List Literal)} {error : Error} (split : clauses = valid ++ invalid :: later)
      (accepted : traverse Intake.clause valid = .ok decoded)
      (rejected : Intake.clause invalid = .error error) :
      Ingested clauses backend (.error error) (submitEach decoded backend)

theorem addEachOneByOne (clauses : List (List HostLiteral)) :
    (addEach clauses : Call β Unit) = clauses.forM addClause := by
  induction clauses with
  | nil => rfl
  | cons first rest inductionHypothesis =>
      rw [addEach, inductionHypothesis]
      rfl

theorem onAddClause (literals : List HostLiteral) (session : Session β) :
    (addClause literals : Call β Unit).on session =
      match Intake.clause literals with
      | .error error => (.error error, session)
      | .ok decoded => (.ok (), { session with backend := submit decoded session.backend }) := by
  rw [addClause, Call.onBind, Call.onLift]
  cases Intake.clause literals <;> rfl

/-- Nothing but the backend changes, and it sees the clauses before the first invalid one. -/
theorem addEachIngests (clauses : List (List HostLiteral)) (session : Session β) :
    ∃ result backend, (addEach clauses).on session = (result, { session with backend }) ∧
      Ingested clauses session.backend result backend := by
  induction clauses generalizing session with
  | nil =>
      have nothing : Ingested [] session.backend (.ok ()) (submitEach [] session.backend) :=
        .all rfl
      exact ⟨_, _, rfl, nothing⟩
  | cons first rest inductionHypothesis =>
      rw [addEach, Call.onBind, onAddClause]
      cases decoded : Intake.clause first with
      | error error =>
          have stopped : Ingested (first :: rest) session.backend (.error error)
              (submitEach [] session.backend) := .before (List.nil_append _).symm rfl decoded
          exact ⟨_, _, rfl, stopped⟩
      | ok literals =>
          obtain ⟨result, backend, same, ingested⟩ :=
            inductionHypothesis { session with backend := submit literals session.backend }
          refine ⟨result, backend, same, ?_⟩
          cases ingested with
          | @all others valid =>
              have further : traverse Intake.clause (first :: rest) = .ok (literals :: others) := by
                rw [traverseCons, decoded, valid]
                rfl
              exact .all further
          | @before valid later invalid others error split accepted rejected =>
              have further :
                  traverse Intake.clause (first :: valid) = .ok (literals :: others) := by
                rw [traverseCons, decoded, accepted]
                rfl
              exact .before (congrArg (first :: ·) split) further rejected

theorem onAddClauses (batch : ClauseBatch) (reserved : Nat) (session : Session β) :
    (addClauses batch reserved : Call β Unit).on session =
      match batch.clauses with
      | .error error =>
        (.error error, { session with backend := Backend.reserve reserved session.backend })
      | .ok clauses => (addEach clauses).on
        { session with backend := Backend.reserve reserved session.backend } := by
  rw [addClauses, Call.onBind, reserve, onUpdate]
  simp only
  rw [Call.onBind, Call.onLift]
  cases batch.clauses <;> rfl

theorem onAddOneByOne (clauses : List (List HostLiteral)) (reserved : Nat)
    (session : Session β) : (addOneByOne clauses reserved).on session =
      (addEach clauses).on
        { session with backend := Backend.reserve reserved session.backend } := by
  rw [addOneByOne, Call.onBind, reserve, onUpdate, addEachOneByOne]

section Count

variable {serves : β → Prop} (counts : Backend.Counts serves) {backend : β}
  (serving : serves backend)
include counts serving

theorem reserveCounts (count : Nat) : serves (Backend.reserve count backend) ∧
    Backend.atomCount (Backend.reserve count backend) = max (Backend.atomCount backend) count := by
  unfold Backend.reserve
  split
  · next fewer =>
      obtain ⟨serves, grown⟩ := counts.added (count - Backend.atomCount backend) backend serving
      exact ⟨serves, by rw [grown]; omega⟩
  · next enough => exact ⟨serving, by omega⟩

omit counts serving in
theorem grownCountBounds (atoms : List Nat) (count : Nat) :
    count ≤ Engine.grownCount atoms count ∧
      ∀ atom ∈ atoms, atom < Engine.grownCount atoms count := by
  induction atoms generalizing count with
  | nil => exact ⟨Nat.le_refl _, fun _ member => absurd member List.not_mem_nil⟩
  | cons first rest inductionHypothesis =>
      obtain ⟨longer, inside⟩ := inductionHypothesis (max count (first + 1))
      change count ≤ Engine.grownCount rest (max count (first + 1)) ∧
        ∀ atom ∈ first :: rest, atom < Engine.grownCount rest (max count (first + 1))
      refine ⟨by omega, List.forall_mem_cons.2 ⟨by omega, inside⟩⟩

omit counts serving [Backend β] in
theorem grownCountCapacity {atoms : List Nat} (some : atoms ≠ []) (count : Nat) :
    max count (Intake.maximumAtom atoms + 1) = Engine.grownCount atoms count := by
  cases atoms with
  | nil => exact absurd rfl some
  | cons first rest =>
      rw [Intake.maximumAtom, List.foldl_cons, Nat.zero_max, ← Engine.grownCountMaximum]
      rfl

/-- A submitted clause creates the atoms up to its greatest one. -/
theorem submitCounts (literals : List Literal) : serves (submit literals backend) ∧
    Backend.atomCount (submit literals backend) =
      Engine.grownCount (literals.map Literal.atom) (Backend.atomCount backend) := by
  cases literals with
  | nil => exact counts.kept [] backend serving fun _ member => absurd member List.not_mem_nil
  | cons literal rest =>
      have nonempty : (literal :: rest).map Literal.atom ≠ [] := List.cons_ne_nil _ _
      have created := reserveCounts counts serving
        (Intake.maximumAtom ((literal :: rest).map Literal.atom) + 1)
      rw [grownCountCapacity nonempty] at created
      have inside := (grownCountBounds ((literal :: rest).map Literal.atom)
        (Backend.atomCount backend)).2
      rw [← created.2] at inside
      obtain ⟨serves, same⟩ := counts.kept (literal :: rest) _ created.1 fun literal member =>
        inside literal.atom (List.mem_map_of_mem member)
      exact ⟨serves, same.trans created.2⟩

/-- The variables are the earlier ones and those of the submitted clauses. -/
theorem submitEachCounts (clauses : List (List Literal)) :
    Backend.atomCount (submitEach clauses backend) =
      Engine.grownCount (clauses.flatten.map Literal.atom) (Backend.atomCount backend) := by
  induction clauses generalizing backend with
  | nil => rfl
  | cons first rest inductionHypothesis =>
      obtain ⟨serves, grown⟩ := submitCounts counts serving first
      rw [submitEach, List.foldl_cons, ← submitEach, inductionHypothesis serves, grown,
        List.flatten_cons, List.map_append, Engine.grownCount, Engine.grownCount,
        Engine.grownCount, List.foldl_append]

end Count

/-- What a batch of clauses does to a session, whatever backend it has.

A part of a buffer is a longest run of items without a zero, and it has at least one item. -/
structure AddsBatches (session : Session β) (reserved : Nat) : Prop where
  terminated : ∀ buffer : ClauseBuffer, buffer.items = [] ∨ buffer.items.getLast? = some 0 →
    Checked.addBuffer buffer.items reserved session =
        .ok ((addOneByOne buffer.listed reserved).on session) ∧
      (addClauses (.buffer buffer) reserved).on session =
        (addOneByOne buffer.listed reserved).on session ∧
      (addClauses (.buffer buffer) reserved).on session =
        (addClauses (.list buffer.listed) reserved).on session
  unterminated : ∀ buffer : ClauseBuffer, ¬(buffer.items = [] ∨ buffer.items.getLast? = some 0) →
    Checked.addBuffer buffer.items reserved session =
        .ok ((addClauses (.buffer buffer) reserved).on session) ∧
      (addClauses (.buffer buffer) reserved).on session =
        (.error (.malformedBuffer .unterminated),
          { session with backend := Backend.reserve reserved session.backend })
  list : ∀ clauses, (addClauses (.list clauses) reserved).on session =
    (addOneByOne clauses reserved).on session
  submitted : ∀ clauses, ∃ result backend,
    (addOneByOne clauses reserved).on session = (result, { session with backend }) ∧
      Ingested clauses (Backend.reserve reserved session.backend) result backend
  grown : ∀ serves : β → Prop, Backend.Counts serves → serves session.backend →
    ∀ decoded : List (List Literal),
      Backend.atomCount (submitEach decoded (Backend.reserve reserved session.backend)) =
        Engine.grownCount (decoded.flatten.map Literal.atom) (max session.atomCount reserved)

/-- A buffer, the list of its parts and these parts one by one are the same to a session. -/
theorem batchesAgree (session : Session β) (reserved : Nat) : AddsBatches session reserved where
  terminated buffer ends := by
    have marked := buffer.isTerminatedIff.2 ends
    have terminated := ClauseBuffer.terminatedOfLast buffer.items marked
    have clauses : buffer.clauses = .ok buffer.listed := by
      rw [ClauseBuffer.clauses, if_pos marked, ClauseBuffer.segmentsListed terminated]
    have safe := Checked.addFromSafe terminated []
      { session with backend := Backend.reserve reserved session.backend }
    refine ⟨?_, ?_, ?_⟩
    · rw [Checked.addBuffer, Checked.terminatedSafe, Checked.okBind, if_pos marked, onAddOneByOne]
      exact safe
    · rw [onAddClauses, onAddOneByOne, ClauseBatch.clauses, clauses]
    · rw [onAddClauses, onAddClauses, ClauseBatch.clauses, ClauseBatch.clauses, clauses]
  unterminated buffer endless := by
    have unmarked := fun marked => endless (buffer.isTerminatedIff.1 marked)
    have rejected : buffer.clauses = .error (.malformedBuffer .unterminated) := by
      rw [ClauseBuffer.clauses, if_neg unmarked]
    rw [Checked.addBuffer, Checked.terminatedSafe, Checked.okBind, if_neg unmarked, onAddClauses,
      ClauseBatch.clauses, rejected]
    exact ⟨rfl, rfl⟩
  list clauses := by rw [onAddClauses, onAddOneByOne, ClauseBatch.clauses]
  submitted clauses := by
    rw [onAddOneByOne]
    exact addEachIngests clauses _
  grown serves counts serving decoded := by
    obtain ⟨serving, grown⟩ := reserveCounts counts serving reserved
    rw [submitEachCounts counts serving, grown, atomCount]

/-- The buffer begins with a zero, and its second part is out of range. -/
def mixedBuffer : ClauseBuffer :=
  ⟨.long, [0, 3, -1, 0, 0, 7, 1073741824, 0, 2, 0]⟩

/-- Only the part before the invalid one is submitted, and only its variables are created. -/
theorem batchesAgreeMixed :
    let session : Session ScriptedBackend := ofBackend {}
    Checked.addBuffer mixedBuffer.items 2 session =
        .ok ((addOneByOne mixedBuffer.listed 2).on session) ∧
      ((addOneByOne mixedBuffer.listed 2).on session).1 =
        .error (.invalidLiteral "1073741824" .outOfRange) ∧
      ((addOneByOne mixedBuffer.listed 2).on session).2.backend.clauses =
        #[[⟨2, false⟩, ⟨0, true⟩]] ∧
      ((addOneByOne mixedBuffer.listed 2).on session).2.atomCount = 3 :=
  ⟨((batchesAgree (ofBackend ({} : ScriptedBackend)) 2).terminated mixedBuffer (.inr rfl)).1, rfl,
    rfl, rfl⟩

end Session

/-- The prepared backend counts its atoms in every state. -/
theorem ScriptedBackend.counts : Backend.Counts fun _ : ScriptedBackend => True where
  added _ _ _ := ⟨trivial, rfl⟩
  kept _ _ _ _ := ⟨trivial, rfl⟩

/-- The engine counts its atoms after any requests. -/
theorem Engine.counts : Backend.Counts fun engine : Engine =>
    ∃ constraints, Faithful constraints engine where
  added count engine := by
    rintro ⟨constraints, faithful⟩
    have performed : (Request.addAtoms count).perform engine =
        .ok (.done, addAtoms count engine) := rfl
    exact ⟨⟨_, (faithful.perform performed).faithful⟩, atomCountAddAtoms count engine⟩
  kept literals engine := by
    rintro ⟨constraints, faithful⟩ inside
    have submitted := faithful.valid.addClause literals
    refine ⟨⟨_, (faithful.submit (.clause literals) submitted).faithful⟩, ?_⟩
    refine submitted.count.trans (grownCountSame ?_)
    exact List.forall_mem_map.2 inside

end ParitySat
