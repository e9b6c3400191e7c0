/-
This file shows that an enumeration follows a script of prepared answers round by round.
-/

import Mathlib.Data.List.Forall2
import ParitySat.Proofs.Backend.Scripted
import ParitySat.Proofs.Engine.Soundness
import ParitySat.Proofs.Session.Batches
import ParitySat.Proofs.Solution
import ParitySat.Session.Enumeration

namespace ParitySat

open Engine ScriptedBackend

/-- An answer counts as a solution if it is satisfiable and its model has truth values only. -/
def ScriptedAnswer.Solves (answer : ScriptedAnswer) : Prop :=
  answer.byte = 0 ∧ ∀ byte ∈ answer.model.toList, byte ≤ 2

/-- The clause has one literal for every selected one that is not negated, and this literal is
negated if the model is true there. -/
def Bans (selected : List Literal) (model : Array UInt8) (banned : List Literal) : Prop :=
  List.Forall₂ (fun literal ban => ban.atom = literal.atom ∧
    (ban.negated = true ↔ model[literal.atom]? = some 0))
    (selected.filter fun literal => !literal.negated) banned

theorem blockingClauseBans (selected : List Literal) (model : Array UInt8) :
    Bans selected model (blockingClause selected model) := by
  unfold Bans blockingClause
  rw [List.forall₂_map_right_iff, List.forall₂_same]
  intro literal member
  refine ⟨rfl, ?_⟩
  rw [beq_iff_eq, Array.getD_eq_getD_getElem?]
  cases known : model[literal.atom]? with
  | none => simp
  | some byte => simp

/-- The solutions are the models of the first rounds. -/
def Presented (format : SolutionFormat) (answers : Nat → ScriptedAnswer) (rounds : Nat)
    (solutions : List Solution) : Prop :=
  List.Forall₂ (fun round solution =>
    Solution.ofModel (answers round).model.toList format = .ok solution)
    (List.range rounds) solutions

/-- The clauses ban the models of the first rounds. -/
def Submitted (selected : List Literal) (answers : Nat → ScriptedAnswer) (rounds : Nat)
    (bans : List (List Literal)) : Prop :=
  List.Forall₂ (fun round banned => Bans selected (answers round).model banned)
    (List.range rounds) bans

/-- What is listed for later rounds is listed for all if the first round joins them. -/
theorem forall₂Round {α : Type} {property : Nat → α → Prop} {rounds : Nat} {first : α}
    {rest : List α} (holds : property 0 first)
    (later : List.Forall₂ (fun round => property (round + 1)) (List.range rounds) rest) :
    List.Forall₂ property (List.range (rounds + 1)) (first :: rest) := by
  rw [List.range_succ_eq_map]
  exact .cons holds (List.forall₂_map_left_iff.2 later)

/-- All rounds up to this one have a solution, and this one is not too late. -/
def Arrives (answers : Nat → ScriptedAnswer) (maximum round : Nat) : Prop :=
  round < maximum ∧ ∀ earlier < round, (answers earlier).Solves

/-- The result after the given number of searches, in addition to what had been found before. -/
inductive Followed (format : SolutionFormat) (answers : Nat → ScriptedAnswer) (maximum : Nat)
    (found : List Solution) : Except Error (List Solution) → Nat → Prop where
  | complete {solutions : List Solution}
      (solved : ∀ round < maximum, (answers round).Solves)
      (presented : Presented format answers maximum solutions) :
      Followed format answers maximum found (.ok (found ++ solutions)) maximum
  | unsatisfiable {round : Nat} {solutions : List Solution}
      (arrives : Arrives answers maximum round) (byte : (answers round).byte = 1)
      (presented : Presented format answers round solutions) :
      Followed format answers maximum found (.ok (found ++ solutions)) (round + 1)
  | undetermined {round : Nat} (arrives : Arrives answers maximum round)
      (byte : (answers round).byte = 2) :
      Followed format answers maximum found (.error (.undetermined (found.length + round)))
        (round + 1)
  | illegalAnswer {round : Nat} (arrives : Arrives answers maximum round)
      (illegal : 2 < (answers round).byte) :
      Followed format answers maximum found
        (.error (.illegalBackend (.answer (answers round).byte))) (round + 1)
  | illegalModel {round : Nat} {illegal : UInt8} (arrives : Arrives answers maximum round)
      (byte : (answers round).byte = 0)
      (first : (answers round).model.toList.find? (2 < ·) = some illegal) :
      Followed format answers maximum found (.error (.illegalBackend (.truthValue illegal)))
        (round + 1)

theorem Arrives.later {answers : Nat → ScriptedAnswer} {maximum round : Nat}
    (solves : (answers 0).Solves)
    (arrives : Arrives (fun search => answers (search + 1)) maximum round) :
    Arrives answers (maximum + 1) (round + 1) := by
  refine ⟨Nat.succ_lt_succ arrives.1, fun earlier before => ?_⟩
  cases earlier with
  | zero => exact solves
  | succ earlier => exact arrives.2 earlier (Nat.lt_of_succ_lt_succ before)

/-- A first round with a solution puts it before those of the later rounds. -/
theorem Followed.later {format : SolutionFormat} {answers : Nat → ScriptedAnswer} {maximum : Nat}
    {found : List Solution} {solution : Solution} {result : Except Error (List Solution)}
    {rounds : Nat} (solves : (answers 0).Solves)
    (presented : Solution.ofModel (answers 0).model.toList format = .ok solution)
    (followed : Followed format (fun search => answers (search + 1)) maximum (found ++ [solution])
      result rounds) :
    Followed format answers (maximum + 1) found result (rounds + 1) := by
  cases followed with
  | complete solved others =>
      rw [List.append_assoc]
      refine .complete (fun round before => ?_) (forall₂Round presented others)
      cases round with
      | zero => exact solves
      | succ round => exact solved round (Nat.lt_of_succ_lt_succ before)
  | unsatisfiable arrives byte others =>
      rw [List.append_assoc]
      exact .unsatisfiable (arrives.later solves) byte (forall₂Round presented others)
  | undetermined arrives byte =>
      rw [List.length_append, List.length_singleton, Nat.add_assoc, Nat.add_comm 1]
      exact .undetermined (arrives.later solves) byte
  | illegalAnswer arrives illegal => exact .illegalAnswer (arrives.later solves) illegal
  | illegalModel arrives byte first => exact .illegalModel (arrives.later solves) byte first

/-- There is a search if and only if one is allowed. -/
theorem Followed.searches {format : SolutionFormat} {answers : Nat → ScriptedAnswer}
    {maximum : Nat} {found : List Solution} {result : Except Error (List Solution)} {rounds : Nat}
    (followed : Followed format answers maximum found result rounds) :
    0 < rounds ↔ 0 < maximum := by
  have allowed {round : Nat} (arrives : Arrives answers maximum round) :
      0 < round + 1 ↔ 0 < maximum :=
    ⟨fun _ => Nat.zero_lt_of_lt arrives.1, fun _ => Nat.succ_pos round⟩
  cases followed with
  | complete solved presented => exact Iff.rfl
  | unsatisfiable arrives byte presented => exact allowed arrives
  | undetermined arrives byte => exact allowed arrives
  | illegalAnswer arrives illegal => exact allowed arrives
  | illegalModel arrives byte first => exact allowed arrives

/-- These calls search so many times and submit the clauses in between. -/
def conversation : Nat → List (List Literal) → List Issued
  | 0, _ => []
  | _ + 1, bans => alternation bans

namespace Session

/-- This function is the session after its next search. -/
def searched (session : Session ScriptedBackend) : Session ScriptedBackend :=
  { session with backend := (session.backend.answer []).2 }

theorem answersSearched (session : Session ScriptedBackend) :
    session.searched.backend.answers = session.backend.answers.tail := by
  rw [searched, answerScripted]

theorem modelSearched (session : Session ScriptedBackend) :
    Backend.model session.searched.backend = (scripted session.backend.answers 0).model := by
  rw [searched, answerScripted]
  rfl

theorem onScriptedRun (environment : Environment) (session : Session ScriptedBackend) :
    (run environment []).on session =
      (Verdict.ofByte (scripted session.backend.answers 0).byte, session.searched) := by
  have solved : Backend.solve environment [] session.backend =
    Except.ok (session.backend.answer []) := rfl
  rw [onRun, solved, searched, answerScripted]

/-- This function is the session before its next search, after one with a model. -/
def following (selected : List Literal) (rounds : Nat) (session : Session ScriptedBackend) :
    Session ScriptedBackend :=
  { session.searched with
    backend := if 0 < rounds then
        Backend.addClause (blockingClause selected (scripted session.backend.answers 0).model)
          session.searched.backend
      else session.searched.backend }

theorem answersFollowing (selected : List Literal) (rounds : Nat)
    (session : Session ScriptedBackend) :
    (session.following selected rounds).backend.answers = session.backend.answers.tail := by
  unfold following
  split
  · exact session.answersSearched
  · exact session.answersSearched

section Round

variable (environment : Environment) (selected : List Literal) (format : SolutionFormat)
  (rounds : Nat) (found : Array Solution) {session : Session ScriptedBackend}

theorem onRoundIllegal {error : Error}
    (illegal : Verdict.ofByte (scripted session.backend.answers 0).byte = .error error) :
    (enumerateFrom environment selected format (rounds + 1) found).on session =
      (.error error, session.searched) := by
  rw [enumerateFrom, Call.onBind, onScriptedRun, illegal]

theorem onRoundUnsatisfiable (byte : (scripted session.backend.answers 0).byte = 1) :
    (enumerateFrom environment selected format (rounds + 1) found).on session =
      (.ok found, session.searched) := by
  rw [enumerateFrom, Call.onBind, onScriptedRun, byte]
  rfl

theorem onRoundUndetermined (byte : (scripted session.backend.answers 0).byte = 2) :
    (enumerateFrom environment selected format (rounds + 1) found).on session =
      (.error (.undetermined found.size), session.searched) := by
  rw [enumerateFrom, Call.onBind, onScriptedRun, byte]
  rfl

theorem onRoundIllegalModel {error : Error}
    (byte : (scripted session.backend.answers 0).byte = 0)
    (illegal : Solution.ofModel (scripted session.backend.answers 0).model.toList format =
      .error error) :
    (enumerateFrom environment selected format (rounds + 1) found).on session =
      (.error error, session.searched) := by
  have satisfiable : Verdict.ofByte 0 = .ok .satisfiable := rfl
  rw [enumerateFrom, Call.onBind, onScriptedRun, byte, satisfiable]
  simp only
  rw [Call.onBind, onSolution, modelSearched, illegal]

/-- A solution is banned before the next search, unless this search was the last one. -/
theorem onRoundSolved {solution : Solution}
    (byte : (scripted session.backend.answers 0).byte = 0)
    (presented : Solution.ofModel (scripted session.backend.answers 0).model.toList format =
      .ok solution) :
    (enumerateFrom environment selected format (rounds + 1) found).on session =
      (enumerateFrom environment selected format rounds (found.push solution)).on
        (session.following selected rounds) := by
  have satisfiable : Verdict.ofByte 0 = .ok .satisfiable := rfl
  rw [enumerateFrom, Call.onBind, onScriptedRun, byte, satisfiable]
  simp only
  rw [Call.onBind, onSolution, modelSearched, presented, following]
  simp only
  by_cases more : 0 < rounds
  · rw [if_pos more, if_pos more, Call.onBind, Call.onGet]
    simp only
    rw [Call.onBind, onUpdate, modelSearched]
  · rw [if_neg more, if_neg more]

end Round

/-- A first answer without a solution ends the rounds. -/
theorem roundEnds (environment : Environment) (selected : List Literal) (format : SolutionFormat)
    (rounds : Nat) (found : Array Solution) (session : Session ScriptedBackend)
    (unsolved : ¬(scripted session.backend.answers 0).Solves) :
    ∃ result,
      (enumerateFrom environment selected format (rounds + 1) found).on session =
        (result, session.searched) ∧
      Followed format (scripted session.backend.answers) (rounds + 1) found.toList
        (result.map Array.toList) 1 := by
  have arrives : Arrives (scripted session.backend.answers) (rounds + 1) 0 :=
    ⟨Nat.succ_pos rounds, fun _ below => absurd below (Nat.not_lt_zero _)⟩
  by_cases illegal : 2 < (scripted session.backend.answers 0).byte
  · have refused : Verdict.ofByte (scripted session.backend.answers 0).byte =
        .error (.illegalBackend (.answer (scripted session.backend.answers 0).byte)) := by
      rw [Verdict.ofByte, illegalByte illegal]
    exact ⟨_, onRoundIllegal _ _ _ _ _ refused, .illegalAnswer arrives illegal⟩
  · rcases (legalByte _).1 (UInt8.not_lt.1 illegal) with byte | byte | byte
    · have presented := solutionFinds (scripted session.backend.answers 0).model.toList format
      split at presented
      · next fault first =>
          exact ⟨_, onRoundIllegalModel _ _ _ _ _ byte presented,
            .illegalModel arrives byte first⟩
      · next legal =>
          refine absurd ⟨byte, fun value member => UInt8.not_lt.1 ?_⟩ unsolved
          simpa using List.find?_eq_none.1 legal value member
    · have exhausted : Followed format (scripted session.backend.answers) (rounds + 1)
        found.toList (.ok (found.toList ++ [])) 1 := .unsatisfiable arrives byte .nil
      rw [List.append_nil] at exhausted
      exact ⟨_, onRoundUnsatisfiable _ _ _ _ _ byte, exhausted⟩
    · have undetermined : Followed format (scripted session.backend.answers) (rounds + 1)
        found.toList (.error (.undetermined (found.toList.length + 0))) 1 :=
          .undetermined arrives byte
      exact ⟨_, onRoundUndetermined _ _ _ _ _ byte, undetermined⟩

/-- A model with legal bytes is presented in every format. -/
theorem presentedModel {answer : ScriptedAnswer} (solves : answer.Solves)
    (format : SolutionFormat) :
    ∃ solution, Solution.ofModel answer.model.toList format = .ok solution := by
  have presented := solutionFinds answer.model.toList format
  split at presented
  · next fault first =>
      have illegal : 2 < fault := by simpa using List.find?_some first
      exact absurd (solves.2 fault (List.mem_of_find?_eq_some first)) (UInt8.not_le.2 illegal)
  · exact presented

/-- The rounds follow the script, and they leave behind what their calls do to the backend. -/
theorem enumerateFromFollows (environment : Environment) (selected : List Literal)
    (format : SolutionFormat) (maximum : Nat) (found : Array Solution)
    (session : Session ScriptedBackend) :
    ∃ result rounds bans,
      (enumerateFrom environment selected format maximum found).on session =
        (result, { session with backend := issue (conversation rounds bans) session.backend }) ∧
      Followed format (scripted session.backend.answers) maximum found.toList
        (result.map Array.toList) rounds ∧
      Submitted selected (scripted session.backend.answers) (rounds - 1) bans := by
  induction maximum generalizing found session with
  | zero =>
      refine ⟨.ok found, 0, [], rfl, ?_, .nil⟩
      have complete : Followed format (scripted session.backend.answers) 0 found.toList
        (.ok (found.toList ++ [])) 0 :=
          .complete (fun _ below => absurd below (Nat.not_lt_zero _)) .nil
      rwa [List.append_nil] at complete
  | succ maximum inductionHypothesis =>
      by_cases solves : (scripted session.backend.answers 0).Solves
      · obtain ⟨solution, presented⟩ := presentedModel solves format
        rw [onRoundSolved _ _ _ _ _ solves.1 presented]
        obtain ⟨result, rounds, bans, called, followed, submitted⟩ :=
          inductionHypothesis (found.push solution) (session.following selected maximum)
        rw [answersFollowing, scriptedTail] at followed submitted
        rw [Array.toList_push] at followed
        have whole := followed.later solves presented
        have searches := followed.searches
        rw [called]
        cases maximum with
        | zero =>
            obtain rfl : rounds = 0 := by omega
            exact ⟨result, 1, [], rfl, whole, .nil⟩
        | succ maximum =>
            obtain ⟨others, rfl⟩ : ∃ others, rounds = others + 1 := ⟨rounds - 1, by omega⟩
            exact ⟨result, others + 2, _ :: bans, rfl, whole,
              forall₂Round (blockingClauseBans selected _) submitted⟩
      · obtain ⟨result, called, followed⟩ :=
          roundEnds environment selected format maximum found session solves
        exact ⟨result, 1, [], called, followed, .nil⟩

/-- The variables are created by one call, unless nothing is selected. -/
def growth (selected : List Literal) : List Issued :=
  if selected.isEmpty then [] else [.grow (Intake.maximumAtom (selected.map Literal.atom))]

theorem issueGrowth (selected : List Literal) (backend : ScriptedBackend) :
    issue (growth selected) backend =
      { backend with
        atomCount := grownCount (selected.map Literal.atom) backend.atomCount } := by
  cases selected with
  | nil => rfl
  | cons first rest =>
      have capacity := grownCountCapacity (List.cons_ne_nil first.atom (rest.map Literal.atom))
        backend.atomCount
      rw [List.map_cons, ← capacity]
      change Backend.reserve (Intake.maximumAtom (first.atom :: rest.map Literal.atom) + 1) backend =
        _
      generalize Intake.maximumAtom (first.atom :: rest.map Literal.atom) + 1 = count
      unfold Backend.reserve
      split
      · next fewer =>
          have grown : backend.atomCount + (count - backend.atomCount) =
              max backend.atomCount count := by
            change backend.atomCount < count at fewer
            omega
          rw [← grown]
          rfl
      · next enough =>
          have kept : max backend.atomCount count = backend.atomCount := by
            change ¬backend.atomCount < count at enough
            omega
          rw [kept]

/-- A selection that is decoded is created before the rounds begin. -/
theorem onEnumerateScripted {selected : List HostLiteral} {literals : List Literal}
    (decoded : Intake.clause selected = .ok literals) (environment : Environment) (maximum : Nat)
    (format : SolutionFormat) (session : Session ScriptedBackend) :
    (enumerate environment maximum selected format).on session =
      match (enumerateFrom environment literals format maximum #[]).on
        { session with backend := issue (growth literals) session.backend } with
      | (result, after) => (result.map Array.toList, after) := by
  have begun : (enumerate environment maximum selected format).on session =
      (enumerateFrom environment literals format maximum #[] >>= fun found =>
        pure found.toList).on
        { session with backend := issue (growth literals) session.backend } := by
    rw [enumerate, Call.onBind, decoded, Call.onLift]
    cases literals with
    | nil => rfl
    | cons first rest => rfl
  rw [begun, Call.onBind]
  generalize (enumerateFrom environment literals format maximum #[]).on
    { session with backend := issue (growth literals) session.backend } = outcome
  obtain ⟨result, after⟩ := outcome
  cases result <;> rfl

/-- What an enumeration with so many searches leaves behind. -/
structure Conversed (selected : List Literal) (before after : Session ScriptedBackend)
    (rounds : Nat) (bans : List (List Literal)) : Prop where
  calls : after = { before with
    backend := issue (growth selected ++ conversation rounds bans) before.backend }
  count : bans.length = rounds - 1
  submitted : Submitted selected (scripted before.backend.answers) (rounds - 1) bans
  covered : before.atomCount ≤ after.atomCount ∧
    ∀ literal ∈ selected, literal.atom < after.atomCount
  backend : after.backend = { before.backend with
    atomCount := grownCount (selected.map Literal.atom) before.atomCount
    clauses := before.backend.clauses ++ bans.toArray
    solveCalls := before.backend.solveCalls ++ Array.replicate rounds []
    answers := before.backend.answers.drop rounds
    model := if rounds = 0 then before.backend.model
      else (scripted before.backend.answers (rounds - 1)).model }

theorem issueConversation {rounds : Nat} {bans : List (List Literal)}
    (count : bans.length = rounds - 1) (backend : ScriptedBackend) :
    issue (conversation rounds bans) backend =
      { backend with
        clauses := backend.clauses ++ bans.toArray
        solveCalls := backend.solveCalls ++ Array.replicate rounds []
        answers := backend.answers.drop rounds
        model := if rounds = 0 then backend.model
          else (scripted backend.answers (rounds - 1)).model } := by
  cases rounds with
  | zero =>
      obtain rfl := List.length_eq_zero_iff.1 count
      simp [conversation, issue]
  | succ rounds =>
      have length : bans.length = rounds := count
      rw [conversation, issueAlternation, length]
      rfl

theorem Conversed.ofCalls {selected : List Literal} {before : Session ScriptedBackend}
    {rounds : Nat} {bans : List (List Literal)}
    (submitted : Submitted selected (scripted before.backend.answers) (rounds - 1) bans) :
    Conversed selected before { before with
      backend := issue (growth selected ++ conversation rounds bans) before.backend } rounds
      bans := by
  have count : bans.length = rounds - 1 := by
    rw [← submitted.length_eq, List.length_range]
  have performed : issue (growth selected ++ conversation rounds bans) before.backend =
      { before.backend with
        atomCount := grownCount (selected.map Literal.atom) before.atomCount
        clauses := before.backend.clauses ++ bans.toArray
        solveCalls := before.backend.solveCalls ++ Array.replicate rounds []
        answers := before.backend.answers.drop rounds
        model := if rounds = 0 then before.backend.model
          else (scripted before.backend.answers (rounds - 1)).model } := by
    rw [issueAppend, issueConversation count, issueGrowth]
    rfl
  refine ⟨rfl, count, submitted, ?_, performed⟩
  rw [performed]
  obtain ⟨longer, inside⟩ := grownCountBounds (selected.map Literal.atom) before.atomCount
  exact ⟨longer, fun literal member => inside _ (List.mem_map_of_mem member)⟩

/-- Whatever the script is, the selected variables are created first, and the rounds follow it: a
solution for every model with legal bytes, a clause between two searches that bans the model found,
and an end as the first other answer demands. -/
theorem enumerationFollowsScript {selected : List HostLiteral} {literals : List Literal}
    (decoded : Intake.clause selected = .ok literals) (environment : Environment) (maximum : Nat)
    (format : SolutionFormat) (session : Session ScriptedBackend) :
    ∃ result after rounds bans,
      (enumerate environment maximum selected format).on session = (result, after) ∧
      Followed format (scripted session.backend.answers) maximum [] result rounds ∧
      Conversed literals session after rounds bans := by
  obtain ⟨result, rounds, bans, called, followed, submitted⟩ :=
    enumerateFromFollows environment literals format maximum #[]
      { session with backend := issue (growth literals) session.backend }
  have answers : (issue (growth literals) session.backend).answers = session.backend.answers := by
    rw [issueGrowth]
  rw [answers] at followed submitted
  refine ⟨result.map Array.toList, _, rounds, bans, ?_, followed, .ofCalls submitted⟩
  rw [onEnumerateScripted decoded, called, issueAppend]

/-- The first model is too short for the selection, and the third answer is unknown. -/
def interruptedScript : Session ScriptedBackend :=
  ofBackend { answers := [{ byte := 0, model := #[1, 0] }, { byte := 0, model := #[0, 1, 1, 0] }] }

theorem enumerationFollowsScriptInterrupted :
    ∃ after rounds bans,
      (enumerate stillEnvironment 5 [.integer 2, .integer (-7), .integer 4, .integer 2] .raw).on
        interruptedScript = (.error (.undetermined 2), after) ∧
      Followed .raw (scripted interruptedScript.backend.answers) 5 [] (.error (.undetermined 2))
        rounds ∧
      Conversed [⟨1, false⟩, ⟨6, true⟩, ⟨3, false⟩, ⟨1, false⟩] interruptedScript after rounds
        bans ∧
      rounds = 3 ∧ bans = [[⟨1, true⟩, ⟨3, false⟩, ⟨1, true⟩], [⟨1, false⟩, ⟨3, true⟩, ⟨1, false⟩]] ∧
      after.atomCount = 7 := by
  obtain ⟨result, after, rounds, bans, called, followed, conversed⟩ :=
    @enumerationFollowsScript [.integer 2, .integer (-7), .integer 4, .integer 2]
      [⟨1, false⟩, ⟨6, true⟩, ⟨3, false⟩, ⟨1, false⟩] rfl stillEnvironment 5 .raw interruptedScript
  have failed : _ = result := congrArg Prod.fst called
  have ended : _ = after := congrArg Prod.snd called
  obtain rfl : result = .error (.undetermined 2) := by
    rw [← failed]
    decide +kernel
  have searches : after.backend.solveCalls.size = 3 := by
    rw [← ended]
    decide +kernel
  have clauses : after.backend.clauses.toList =
      [[⟨1, true⟩, ⟨3, false⟩, ⟨1, true⟩], [⟨1, false⟩, ⟨3, true⟩, ⟨1, false⟩]] := by
    rw [← ended]
    decide +kernel
  have count : after.atomCount = 7 := by
    rw [← ended]
    decide +kernel
  rw [conversed.backend] at searches clauses
  refine ⟨after, rounds, bans, called, followed, conversed, ?_, ?_, count⟩
  · simpa [interruptedScript, ofBackend] using searches
  · simpa [interruptedScript, ofBackend] using clauses

end Session

end ParitySat
