/-
This file shows that a call with a literal it refuses names the first one and leaves no trace.
-/

import ParitySat.Proofs.Backend.Scripted
import ParitySat.Proofs.Engine.Soundness
import ParitySat.Proofs.HostLiteral
import ParitySat.Proofs.Session.Batches
import ParitySat.Session.Enumeration

namespace ParitySat

open Engine

namespace HostLiteral

/-- A parity constraint also refuses a negated literal. -/
inductive RefusedInParity : HostLiteral → Error → Prop where
  | literal {value : HostLiteral} {error : Error} (refused : Refused value error) :
      RefusedInParity value error
  | negated {value : Int} (below : value < 0) (inside : minimumExternal ≤ value) :
      RefusedInParity (.integer value) (.negatedInParity value)

/-- An assumption is also refused if its variable does not exist. -/
inductive RefusedAsAssumption (atomCount : Nat) : HostLiteral → Error → Prop where
  | literal {value : HostLiteral} {error : Error} (refused : Refused value error) :
      RefusedAsAssumption atomCount value error
  | unknown {value : Int} (inside : minimumExternal ≤ value ∧ value ≤ maximumExternal)
      (beyond : atomCount < value.natAbs) :
      RefusedAsAssumption atomCount (.integer value) (.unknownVariable value.natAbs)

theorem parityAtomRefused (value : HostLiteral) (error : Error) :
    Intake.parityAtom value = .error error ↔ RefusedInParity value error := by
  constructor
  · intro failed
    have decoded := value.decodeDecoded
    unfold Intake.parityAtom at failed
    generalize value.decode = result at decoded failed
    cases decoded with
    | refused refused =>
        cases failed
        exact .literal refused
    | @accepted literal inside =>
        simp only at failed
        split at failed
        · next negated =>
            cases failed
            refine .negated ?_ inside.1
            rw [Literal.external, if_pos negated]
            omega
        · cases failed
  · intro refused
    cases refused with
    | literal refused => rw [Intake.parityAtom, refused.decode]
    | @negated value below inside =>
        have range : 0 < maximumExternal := by decide
        have signed : Literal.external ⟨value.natAbs - 1, true⟩ = value := by
          rw [Literal.external, if_pos rfl]
          simp only
          omega
        rw [Intake.parityAtom, decodeInside (by omega) ⟨inside, by omega⟩, decide_eq_true below]
        simp only [if_pos, signed]

theorem assumptionRefused (atomCount : Nat) (value : HostLiteral) (error : Error) :
    Intake.assumption atomCount value = .error error ↔
      RefusedAsAssumption atomCount value error := by
  constructor
  · intro failed
    have decoded := value.decodeDecoded
    unfold Intake.assumption at failed
    generalize value.decode = result at decoded failed
    cases decoded with
    | refused refused =>
        cases failed
        exact .literal refused
    | @accepted literal inside =>
        simp only at failed
        split at failed
        · cases failed
        · next beyond =>
            cases failed
            have number : literal.external.natAbs = literal.atom + 1 := by
              unfold Literal.external
              split <;> omega
            have refused : RefusedAsAssumption atomCount (.integer literal.external)
              (.unknownVariable literal.external.natAbs) := .unknown inside (by omega)
            rwa [number] at refused
  · intro refused
    cases refused with
    | literal refused => rw [Intake.assumption, refused.decode]
    | @unknown value inside beyond =>
        have number : ((value.natAbs - 1 : Nat) : Int) + 1 = value.natAbs := by omega
        rw [Intake.assumption, decodeInside (by omega) inside]
        simp only
        rw [if_neg (by omega), number]

end HostLiteral

/-- The elements before the refused one are accepted. -/
def FirstRefused {α : Type} (refused : α → Error → Prop) (elements : List α) (error : Error) :
    Prop :=
  ∃ before element after, elements = before ++ element :: after ∧
    (∀ earlier ∈ before, ∀ other, ¬refused earlier other) ∧ refused element error

/-- A list fails with the error of its first element that fails. -/
theorem traverseRefused {α β : Type} {read : α → Except Error β} {refused : α → Error → Prop}
    (exact : ∀ element error, read element = .error error ↔ refused element error)
    (elements : List α) (error : Error) :
    traverse read elements = .error error ↔ FirstRefused refused elements error := by
  induction elements with
  | nil =>
      refine ⟨nofun, ?_⟩
      rintro ⟨before, element, after, split, -⟩
      exact absurd split (by simp)
  | cons first rest inductionHypothesis =>
      rw [traverseCons]
      constructor
      · intro failed
        cases head : read first with
        | error fault =>
            rw [head] at failed
            cases failed
            exact ⟨[], first, rest, rfl, by simp, (exact first error).1 head⟩
        | ok value =>
            rw [head] at failed
            cases tail : traverse read rest with
            | ok values =>
                rw [tail] at failed
                cases failed
            | error fault =>
                rw [tail] at failed
                cases failed
                obtain ⟨before, element, after, rfl, accepted, offends⟩ :=
                  inductionHypothesis.1 tail
                refine ⟨first :: before, element, after, rfl, ?_, offends⟩
                refine List.forall_mem_cons.2 ⟨fun other refuses => ?_, accepted⟩
                rw [(exact first other).2 refuses] at head
                cases head
      · rintro ⟨before, element, after, split, accepted, offends⟩
        cases before with
        | nil =>
            obtain ⟨rfl, rfl⟩ := List.cons.inj split
            rw [(exact first error).2 offends]
        | cons earlier before =>
            obtain ⟨rfl, rfl⟩ := List.cons.inj split
            obtain ⟨accepts, accepted⟩ := List.forall_mem_cons.1 accepted
            cases head : read first with
            | error fault => exact absurd ((exact first fault).1 head) (accepts fault)
            | ok value =>
                rw [inductionHypothesis.2 ⟨before, element, after, rfl, accepted, offends⟩]
                rfl

namespace Intake

theorem clauseRefused (literals : List HostLiteral) (error : Error) :
    clause literals = .error error ↔ FirstRefused HostLiteral.Refused literals error :=
  traverseRefused HostLiteral.decodeRefused literals error

theorem parityRefused (literals : List HostLiteral) (error : Error) :
    parity literals = .error error ↔ FirstRefused HostLiteral.RefusedInParity literals error :=
  traverseRefused HostLiteral.parityAtomRefused literals error

theorem assumptionsRefused (atomCount : Nat) (literals : List HostLiteral) (error : Error) :
    assumptions atomCount literals = .error error ↔
      FirstRefused (HostLiteral.RefusedAsAssumption atomCount) literals error :=
  traverseRefused (HostLiteral.assumptionRefused atomCount) literals error

/-- An accepted assumption mentions an existing atom. -/
theorem assumptionsInside {atomCount : Nat} {literals : List HostLiteral}
    {decoded : List Literal} (accepted : assumptions atomCount literals = .ok decoded) :
    ∀ literal ∈ decoded, literal.atom < atomCount := by
  intro literal member
  obtain ⟨value, -, read⟩ := traverseMember accepted literal member
  unfold assumption at read
  split at read
  · cases read
  · split at read
    · next inside =>
        cases read
        exact inside
    · cases read

end Intake

/-- These errors are about a literal of the caller. -/
def Error.aboutLiteral : Error → Bool
  | .invalidLiteral _ _ => true
  | .negatedInParity _ => true
  | .unknownVariable _ => true
  | _ => false

namespace Call

variable {β α γ : Type}

/-- This call does not find fault with a literal. -/
def Blameless (call : Call β α) : Prop :=
  ∀ session error after, call.on session = (.error error, after) → error.aboutLiteral = false

theorem Blameless.bind {call : Call β α} {next : α → Call β γ} (first : call.Blameless)
    (second : ∀ value, (next value).Blameless) : (call >>= next).Blameless := by
  intro session error after called
  rw [onBind] at called
  generalize ended : call.on session = outcome at called
  obtain ⟨result, middle⟩ := outcome
  cases result with
  | error fault =>
      cases called
      exact first session error after ended
  | ok value => exact second value middle error after called

theorem blamelessLift {result : Except Error α}
    (lifted : ∀ error, result = .error error → error.aboutLiteral = false) :
    (liftM result : Call β α).Blameless := by
  intro session error after called
  rw [onLift] at called
  exact lifted error (congrArg Prod.fst called)

theorem blamelessPure (value : α) : (pure value : Call β α).Blameless := nofun

theorem blamelessGet : (get : Call β (Session β)).Blameless := nofun

theorem blamelessUpdate (change : β → β) : (Session.update change).Blameless := nofun

end Call

/-- An illegal byte of a model is no fault of the caller. -/
theorem bytesBlameless {model : List UInt8} {error : Error}
    (failed : Truth.ofBytes model = .error error) : error.aboutLiteral = false := by
  have exact : ∀ byte error, Truth.ofByte byte = .error error ↔ Truth.ofByte byte = .error error :=
    fun _ _ => Iff.rfl
  obtain ⟨-, byte, -, -, -, illegal⟩ := (traverseRefused exact model error).1 failed
  unfold Truth.ofByte at illegal
  split at illegal
  all_goals cases illegal
  rfl

theorem denseBlameless {model : List UInt8} {error : Error}
    (failed : DenseSolution.ofModel model = .error error) : error.aboutLiteral = false := by
  unfold DenseSolution.ofModel at failed
  split at failed
  · next illegal =>
      cases failed
      exact bytesBlameless illegal
  · cases failed

theorem solutionBlameless {model : List UInt8} {format : SolutionFormat} {error : Error}
    (failed : Solution.ofModel model format = .error error) : error.aboutLiteral = false := by
  cases format with
  | dense =>
      rw [Solution.ofModel] at failed
      cases presented : DenseSolution.ofModel model with
      | error fault =>
          rw [presented] at failed
          cases failed
          exact denseBlameless presented
      | ok solution =>
          rw [presented] at failed
          cases failed
  | raw =>
      rw [Solution.ofModel, RawSolution.ofModel] at failed
      split at failed
      · next illegal =>
          cases failed
          exact bytesBlameless illegal
      · cases failed

namespace Session

variable {β : Type} [Backend β]

theorem runBlameless (environment : Environment) (assumptions : List Literal) :
    (run environment assumptions : Call β Verdict).Blameless := by
  intro session error after called
  rw [onRun] at called
  cases answered : Backend.solve environment assumptions session.backend with
  | error stuck =>
      rw [answered] at called
      cases called
      rfl
  | ok result =>
      rw [answered] at called
      obtain ⟨illegal, -⟩ := Prod.mk.inj called
      unfold Verdict.ofByte at illegal
      split at illegal
      all_goals cases illegal
      rfl

theorem solutionCallBlameless (format : SolutionFormat) :
    (solution format : Call β Solution).Blameless := by
  refine Call.blamelessGet.bind fun session => ?_
  exact Call.blamelessLift fun error failed => solutionBlameless failed

theorem enumerateFromBlameless (environment : Environment) (selected : List Literal)
    (format : SolutionFormat) (rounds : Nat) (found : Array Solution) :
    (enumerateFrom environment selected format rounds found : Call β (Array Solution)).Blameless
    := by
  induction rounds generalizing found with
  | zero => exact Call.blamelessPure found
  | succ rounds inductionHypothesis =>
      unfold enumerateFrom
      refine (runBlameless environment []).bind fun verdict => ?_
      cases verdict with
      | satisfiable =>
          refine (solutionCallBlameless format).bind fun presented => ?_
          simp only
          split
          · refine Call.blamelessGet.bind fun session => ?_
            exact (Call.blamelessUpdate _).bind fun _ => inductionHypothesis _
          · exact inductionHypothesis _
      | unsatisfiable => exact Call.blamelessPure found
      | unknown =>
          intro session error after called
          cases called
          rfl

/-- This is how a call treats the literals that it refuses. -/
structure Rejects {β α : Type} (session : Session β) (refused : HostLiteral → Error → Prop)
    (call : List HostLiteral → Call β α) : Prop where
  untouched : ∀ literals error, FirstRefused refused literals error →
    (call literals).on session = (.error error, session)
  named : ∀ literals error after, (call literals).on session = (.error error, after) →
    error.aboutLiteral = true → FirstRefused refused literals error

/-- A call that decodes its literals before anything else rejects them without a trace. -/
theorem Rejects.ofDecoding {β α γ : Type} {session : Session β}
    {refused : HostLiteral → Error → Prop} {call : List HostLiteral → Call β α}
    {decoding : List HostLiteral → Except Error γ} {rest : γ → Call β α}
    (exact : ∀ literals error,
      decoding literals = .error error ↔ FirstRefused refused literals error)
    (begun : ∀ literals, (call literals).on session =
      (liftM (decoding literals) >>= rest).on session)
    (blameless : ∀ decoded, (rest decoded).Blameless) : Rejects session refused call where
  untouched literals error first := by
    rw [begun, Call.onBind, Call.onLift, (exact literals error).2 first]
  named literals error after called about := by
    rw [begun, Call.onBind, Call.onLift] at called
    cases decoded : decoding literals with
    | error fault =>
        rw [decoded] at called
        cases called
        exact (exact literals error).1 decoded
    | ok values =>
        rw [decoded] at called
        have innocent := blameless values session error after called
        rw [about] at innocent
        cases innocent

/-- The backend is asked for a search and for nothing else, and it sees existing atoms only. -/
structure Searched (session : Session β) (environment : Environment) (literals : List HostLiteral)
    (after : Session β) : Prop where
  searched : ∃ assumptions byte,
    Intake.assumptions session.atomCount literals = .ok assumptions ∧
      (∀ literal ∈ assumptions, literal.atom < session.atomCount) ∧
      Backend.solve environment assumptions session.backend = .ok (byte, after.backend)
  traversing : after.traversing = session.traversing

/-- What a session does with literals that it refuses and with assumptions that it accepts. -/
structure Guards (session : Session β) : Prop where
  clause : session.Rejects HostLiteral.Refused addClause
  parity : ∀ odd, session.Rejects HostLiteral.RefusedInParity fun literals => addParity literals odd
  assumptions : ∀ environment,
    session.Rejects (HostLiteral.RefusedAsAssumption session.atomCount) (solve environment)
  selection : ∀ environment maximum format, session.Rejects HostLiteral.Refused
    fun literals => enumerate environment maximum literals format
  searched : ∀ environment literals answer after,
    (solve environment literals).on session = (.ok answer, after) →
      session.Searched environment literals after

theorem clauseRejects (session : Session β) : session.Rejects HostLiteral.Refused addClause :=
  .ofDecoding Intake.clauseRefused (fun _ => rfl) fun _ => Call.blamelessUpdate _

theorem parityRejects (session : Session β) (odd : Bool) :
    session.Rejects HostLiteral.RefusedInParity fun literals => addParity literals odd :=
  .ofDecoding Intake.parityRefused (fun _ => rfl) fun _ => Call.blamelessUpdate _

/-- This call is the part of a search that follows the decoding. -/
def answer (environment : Environment) (assumptions : List Literal) :
    Call β (Verdict × Option DenseSolution) := do
  let verdict ← run environment assumptions
  if verdict = .satisfiable then
    let model := Backend.model (← get).backend
    return (verdict, some (← DenseSolution.ofModel model.toList))
  else return (verdict, none)

theorem onSolve (environment : Environment) (literals : List HostLiteral) (session : Session β) :
    (solve environment literals).on session =
      (liftM (Intake.assumptions session.atomCount literals) >>= answer environment).on session :=
  rfl

theorem answerBlameless (environment : Environment) (assumptions : List Literal) :
    (answer environment assumptions : Call β (Verdict × Option DenseSolution)).Blameless := by
  refine (runBlameless environment assumptions).bind fun verdict => ?_
  split
  · refine Call.blamelessGet.bind fun session => ?_
    refine (Call.blamelessLift fun error failed => denseBlameless failed).bind fun solution => ?_
    exact Call.blamelessPure _
  · exact Call.blamelessPure _

theorem assumptionsReject (environment : Environment) (session : Session β) :
    session.Rejects (HostLiteral.RefusedAsAssumption session.atomCount) (solve environment) :=
  .ofDecoding (Intake.assumptionsRefused session.atomCount)
    (fun literals => onSolve environment literals session) (answerBlameless environment)

/-- This call is the part of an enumeration that follows the decoding. -/
def collect (environment : Environment) (maximum : Nat) (format : SolutionFormat)
    (selected : List Literal) : Call β (List Solution) := do
  if !selected.isEmpty then
    ensureCapacity (Intake.maximumAtom (selected.map Literal.atom))
  return (← enumerateFrom environment selected format maximum #[]).toList

theorem onEnumerateDecoded (environment : Environment) (maximum : Nat) (literals : List HostLiteral)
    (format : SolutionFormat) (session : Session β) :
    (enumerate environment maximum literals format).on session =
      (liftM (Intake.clause literals) >>= collect environment maximum format).on session :=
  rfl

theorem selectionRejects (environment : Environment) (maximum : Nat) (format : SolutionFormat)
    (session : Session β) : session.Rejects HostLiteral.Refused
      fun literals => enumerate environment maximum literals format := by
  refine .ofDecoding Intake.clauseRefused
    (fun literals => onEnumerateDecoded environment maximum literals format session)
    fun selected => ?_
  unfold collect
  split
  · refine (Call.blamelessUpdate _).bind fun _ => ?_
    exact (enumerateFromBlameless _ _ _ _ _).bind fun _ => Call.blamelessPure _
  · exact (enumerateFromBlameless _ _ _ _ _).bind fun _ => Call.blamelessPure _

/-- Whatever the verdict is, nothing follows the search that changes the session. -/
theorem answerSearched {environment : Environment} {assumptions : List Literal}
    {session after : Session β} {answered : Verdict × Option DenseSolution}
    (called : (answer environment assumptions).on session = (.ok answered, after)) :
    after.traversing = session.traversing ∧
      ∃ byte, Backend.solve environment assumptions session.backend = .ok (byte, after.backend) := by
  unfold answer at called
  rw [Call.onBind, onRun] at called
  cases solved : Backend.solve environment assumptions session.backend with
  | error stuck =>
      rw [solved] at called
      cases called
  | ok result =>
      obtain ⟨byte, backend⟩ := result
      rw [solved] at called
      simp only at called
      cases decoded : Verdict.ofByte byte with
      | error illegal =>
          rw [decoded] at called
          cases called
      | ok verdict =>
          rw [decoded] at called
          simp only at called
          split at called
          · rw [Call.onBind, Call.onGet] at called
            simp only at called
            rw [Call.onBind, Call.onLift] at called
            cases presented : DenseSolution.ofModel (Backend.model backend).toList with
            | error illegal =>
                rw [presented] at called
                cases called
            | ok solution =>
                rw [presented] at called
                cases called
                exact ⟨rfl, byte, rfl⟩
          · cases called
            exact ⟨rfl, byte, rfl⟩

theorem solveSearched {environment : Environment} {literals : List HostLiteral}
    {session after : Session β} {answered : Verdict × Option DenseSolution}
    (called : (solve environment literals).on session = (.ok answered, after)) :
    session.Searched environment literals after := by
  rw [onSolve, Call.onBind, Call.onLift] at called
  cases decoded : Intake.assumptions session.atomCount literals with
  | error error =>
      rw [decoded] at called
      cases called
  | ok assumptions =>
      rw [decoded] at called
      obtain ⟨traversing, byte, solved⟩ := answerSearched called
      exact ⟨⟨assumptions, byte, decoded, Intake.assumptionsInside decoded, solved⟩, traversing⟩

theorem sessionGuards (session : Session β) : session.Guards where
  clause := clauseRejects session
  parity := parityRejects session
  assumptions environment := assumptionsReject environment session
  selection environment maximum format := selectionRejects environment maximum format session
  searched _ _ _ _ called := solveSearched called

/-- A search that succeeds does not create a variable. -/
def KeepsAtoms (session : Session β) : Prop :=
  ∀ environment literals answered after,
    (solve environment literals).on session = (.ok answered, after) →
      after.atomCount = session.atomCount

/-- The prepared backend creates no variable for a search. -/
theorem scriptedKeepsAtoms (session : Session ScriptedBackend) : session.KeepsAtoms := by
  intro environment literals answered after called
  obtain ⟨assumptions, byte, -, -, solved⟩ := (solveSearched called).searched
  have same : session.backend.answer assumptions = (byte, after.backend) := Except.ok.inj solved
  rw [ScriptedBackend.answerScripted] at same
  obtain ⟨-, ended⟩ := Prod.mk.inj same
  change after.backend.atomCount = session.backend.atomCount
  rw [← ended]

/-- The engine creates the assumed variables, and the session has seen that they exist. -/
theorem engineKeepsAtoms {options : Options} {requests : List Request}
    {session : Session Engine}
    (reached : Engine.run requests (ofOptions options) = .ok session.backend) :
    session.KeepsAtoms := by
  intro environment literals answered after called
  obtain ⟨assumptions, byte, -, inside, solved⟩ := (solveSearched called).searched
  have searched := (reachedFaithful reached).valid.solve environment assumptions
  rw [solveBytes] at solved
  cases answer : session.backend.solve environment assumptions with
  | error stuck =>
      rw [answer] at solved
      cases solved
  | ok result =>
      rw [answer] at solved searched
      obtain ⟨-, ended⟩ := Prod.mk.inj (Except.ok.inj solved)
      change after.backend.atomCount = session.backend.atomCount
      rw [← ended, searched.count]
      exact grownCountSame (List.forall_mem_map.2 inside)

/-- Whatever a caller passes, a list with a refused literal fails with the error of its first refused
literal and leaves the session as it was, and a search that succeeds is all that its backend is asked
for, so it creates no variable. -/
theorem refusalLeavesNoTrace :
    (∀ {β : Type} [Backend β] (session : Session β), session.Guards) ∧
      (∀ session : Session ScriptedBackend, session.KeepsAtoms) ∧
      ∀ {options : Options} {requests : List Request} {session : Session Engine},
        Engine.run requests (ofOptions options) = .ok session.backend →
          session.KeepsAtoms :=
  ⟨fun session => sessionGuards session, scriptedKeepsAtoms, engineKeepsAtoms⟩

/-- This session has two variables, and its first answer has a model for them. -/
def scriptedPair : Session ScriptedBackend :=
  ofBackend { atomCount := 2, answers := [{ byte := 0, model := #[0, 1] }] }

/-- This session has two variables, and its engine searches by itself. -/
def nativePair : Session Engine :=
  ofBackend (addAtoms 2 (ofOptions {}))

theorem refusalLeavesNoTracePair :
    (addParity [.integer 1, .integer (-2), .other "x"] true).on scriptedPair =
        (.error (.negatedInParity (-2)), scriptedPair) ∧
      (solve stillEnvironment [.integer (-2), .integer 3, .integer 0]).on scriptedPair =
        (.error (.unknownVariable 3), scriptedPair) ∧
      (solve stillEnvironment [.integer (-2)]).on scriptedPair =
        (.ok (.satisfiable, some ⟨[none, some true, some false]⟩),
          ((solve stillEnvironment [.integer (-2)]).on scriptedPair).2) ∧
      ((solve stillEnvironment [.integer (-2)]).on scriptedPair).2.atomCount = 2 ∧
      Engine.run [.addAtoms 2] (ofOptions {}) = .ok nativePair.backend ∧
      (solve stillEnvironment [.integer (-2)]).on nativePair =
        (.ok (.satisfiable, some ⟨[none, some false, some false]⟩),
          ((solve stillEnvironment [.integer (-2)]).on nativePair).2) ∧
      ((solve stillEnvironment [.integer (-2)]).on nativePair).2.atomCount = 2 := by
  have guards : scriptedPair.Guards := refusalLeavesNoTrace.1 scriptedPair
  have scripted : (solve stillEnvironment [.integer (-2)]).on scriptedPair =
      (.ok (.satisfiable, some ⟨[none, some true, some false]⟩),
        ((solve stillEnvironment [.integer (-2)]).on scriptedPair).2) := rfl
  have reached : Engine.run [.addAtoms 2] (ofOptions {}) = .ok nativePair.backend := rfl
  have native : (solve stillEnvironment [.integer (-2)]).on nativePair =
      (.ok (.satisfiable, some ⟨[none, some false, some false]⟩),
        ((solve stillEnvironment [.integer (-2)]).on nativePair).2) :=
    Prod.ext (by decide +kernel) rfl
  refine ⟨(guards.parity true).untouched _ _ ⟨[.integer 1], .integer (-2), [.other "x"], rfl, ?_,
      .negated (by decide) (by decide)⟩,
    (guards.assumptions stillEnvironment).untouched _ _ ⟨[.integer (-2)], .integer 3, [.integer 0],
      rfl, ?_, .unknown (by decide) (by decide)⟩, scripted,
    refusalLeavesNoTrace.2.1 scriptedPair _ _ _ _ scripted, reached, native,
    refusalLeavesNoTrace.2.2 reached _ _ _ _ native⟩
  · rw [List.forall_mem_singleton]
    intro other refused
    have accepted := (HostLiteral.parityAtomRefused _ _).2 refused
    cases accepted
  · rw [List.forall_mem_singleton]
    intro other refused
    have accepted := (HostLiteral.assumptionRefused _ _ _).2 refused
    cases accepted

end Session

end ParitySat
