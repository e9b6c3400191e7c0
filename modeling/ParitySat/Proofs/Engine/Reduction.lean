/-
This file shows that the deletion of learnt clauses leaves every reference to a surviving clause
intact.
-/

import ParitySat.Engine.Learning
import ParitySat.Proofs.Engine.Extension

namespace ParitySat

namespace Engine

/-- A clause that is not deleted survives. -/
def survives (clause : Clause) : Bool :=
  !clause.deleted

/-- The surviving clauses take consecutive slots. -/
def slots : List Clause → Nat → List (Option Nat)
  | [], _ => []
  | clause :: rest, next =>
    if clause.deleted then none :: slots rest next else some next :: slots rest (next + 1)

theorem relocationsEq (clauses : List Clause) :
    (relocations clauses).toList = slots clauses 0 := by
  have general (rest : List Clause) (table : Array (Option Nat)) (next : Nat) :
      (rest.foldl (fun (state : Array (Option Nat) × Nat) clause =>
        if clause.deleted then (state.1.push none, state.2)
        else (state.1.push (some state.2), state.2 + 1)) (table, next)).1.toList =
        table.toList ++ slots rest next := by
    induction rest generalizing table next with
    | nil => simp [slots]
    | cons clause rest inductionHypothesis =>
        rw [List.foldl_cons, slots]
        split <;> rw [inductionHypothesis] <;> simp
  exact general clauses #[] 0

/-- A slot holds the clause that it is assigned to. -/
theorem slotsFound {clauses : List Clause} {start index slot : Nat}
    (found : (slots clauses start)[index]? = some (some slot)) :
    start ≤ slot ∧ ∃ clause, clauses[index]? = some clause ∧ clause.deleted = false ∧
      (clauses.filter survives)[slot - start]? = some clause := by
  induction clauses generalizing start index with
  | nil => simp [slots] at found
  | cons first rest inductionHypothesis =>
      rw [slots] at found
      cases deleted : first.deleted with
      | true =>
          rw [deleted, if_pos rfl] at found
          cases index with
          | zero => simp at found
          | succ index =>
              obtain ⟨above, clause, atIndex, live, kept⟩ := inductionHypothesis found
              refine ⟨above, clause, atIndex, live, ?_⟩
              rw [List.filter_cons_of_neg (by simp [survives, deleted])]
              exact kept
      | false =>
          rw [deleted, if_neg Bool.false_ne_true] at found
          rw [List.filter_cons_of_pos (by simp [survives, deleted])]
          cases index with
          | zero =>
              obtain rfl : start = slot := by simpa using found
              exact ⟨Nat.le_refl _, first, rfl, deleted, by simp⟩
          | succ index =>
              obtain ⟨above, clause, atIndex, live, kept⟩ := inductionHypothesis found
              refine ⟨by omega, clause, atIndex, live, ?_⟩
              obtain ⟨offset, rfl⟩ : ∃ offset, slot = start + 1 + offset := ⟨slot - (start + 1), by omega⟩
              have shifted : start + 1 + offset - start = offset + 1 := by omega
              rw [Nat.add_sub_cancel_left] at kept
              rw [shifted, List.getElem?_cons_succ]
              exact kept

/-- No slot is assigned twice. -/
theorem slotsInjective {clauses : List Clause} {start first second slot : Nat}
    (atFirst : (slots clauses start)[first]? = some (some slot))
    (atSecond : (slots clauses start)[second]? = some (some slot)) : first = second := by
  induction clauses generalizing start first second with
  | nil => simp [slots] at atFirst
  | cons clause rest inductionHypothesis =>
      rw [slots] at atFirst atSecond
      cases deleted : clause.deleted with
      | true =>
          rw [deleted, if_pos rfl] at atFirst atSecond
          cases first with
          | zero => simp at atFirst
          | succ first =>
              cases second with
              | zero => simp at atSecond
              | succ second => rw [inductionHypothesis atFirst atSecond]
      | false =>
          rw [deleted, if_neg Bool.false_ne_true] at atFirst atSecond
          cases first with
          | zero =>
              obtain rfl : start = slot := by simpa using atFirst
              cases second with
              | zero => rfl
              | succ second =>
                  have above := (slotsFound atSecond).1
                  omega
          | succ first =>
              cases second with
              | zero =>
                  obtain rfl : start = slot := by simpa using atSecond
                  have above := (slotsFound atFirst).1
                  omega
              | succ second => rw [inductionHypothesis atFirst atSecond]

/-- Every slot is assigned to some clause. -/
theorem slotsOnto {clauses : List Clause} (start : Nat) {position : Nat} {clause : Clause}
    (found : (clauses.filter survives)[position]? = some clause) :
    ∃ index : Nat, (slots clauses start)[index]? = some (some (start + position)) := by
  induction clauses generalizing start position with
  | nil => simp at found
  | cons first rest inductionHypothesis =>
      rw [slots]
      cases deleted : first.deleted with
      | true =>
          rw [List.filter_cons_of_neg (by simp [survives, deleted])] at found
          simp only [if_true]
          obtain ⟨index, atIndex⟩ := inductionHypothesis start found
          exact ⟨index + 1, by rwa [List.getElem?_cons_succ]⟩
      | false =>
          rw [List.filter_cons_of_pos (by simp [survives, deleted])] at found
          simp only [Bool.false_eq_true, if_false]
          cases position with
          | zero => exact ⟨0, rfl⟩
          | succ position =>
              obtain ⟨index, atIndex⟩ := inductionHypothesis (start + 1) found
              refine ⟨index + 1, ?_⟩
              rw [List.getElem?_cons_succ, atIndex, Nat.add_right_comm, Nat.add_assoc]

theorem slotsLive {clauses : List Clause} (start : Nat) {index : Nat} {clause : Clause}
    (found : clauses[index]? = some clause) (live : clause.deleted = false) :
    ∃ slot, (slots clauses start)[index]? = some (some slot) := by
  induction clauses generalizing start index with
  | nil => simp at found
  | cons first rest inductionHypothesis =>
      rw [slots]
      cases index with
      | zero =>
          obtain rfl : first = clause := by simpa using found
          exact ⟨start, by rw [live]; rfl⟩
      | succ index =>
          split
          · exact inductionHypothesis start found
          · exact inductionHypothesis (start + 1) found

theorem tableFound {clauses : List Clause} {reference slot : Nat} :
    (relocations clauses).getD reference none = some slot ↔
      (slots clauses 0)[reference]? = some (some slot) := by
  rw [← relocationsEq, Array.getElem?_toList, Array.getD_eq_getD_getElem?]
  cases (relocations clauses)[reference]? <;> simp

/-- An injective renaming keeps the number of occurrences. -/
theorem countRenamed {rename : Nat → Option Nat} {old new : Nat} (same : rename old = some new)
    (injective : ∀ other, rename other = some new → other = old) (references : List Nat) :
    (references.filterMap rename).count new = references.count old := by
  induction references with
  | nil => rfl
  | cons first rest inductionHypothesis =>
      rw [List.filterMap_cons, List.count_cons]
      cases renamed : rename first with
      | none =>
          have different : first ≠ old := fun equal => by simp [equal, same] at renamed
          simp [different, inductionHypothesis]
      | some slot =>
          rw [List.count_cons, inductionHypothesis]
          by_cases equal : first = old
          · rw [equal, same] at renamed
            simp [equal, Option.some.inj renamed]
          · have different : slot ≠ new := fun hit => equal (injective first (hit ▸ renamed))
            simp [equal, different]

end Engine

/-- This function stores the surviving clauses without gaps. -/
def Network.compact (network : Network) : Network :=
  { network with
    store := {
      clauses := (network.store.clauses.toList.filter Engine.survives).toArray
      watches := (network.store.watches.toList.map fun references =>
        Engine.relocate (Engine.relocations network.store.clauses.toList)
          references.toList).toArray }
    trail := { network.trail with
      atoms := (network.trail.atoms.toList.map fun state =>
        { state with
          reason := Engine.relocateReason (Engine.relocations network.store.clauses.toList)
            state.reason }).toArray } }

namespace Network

/-- This function is the new reference of a surviving clause. -/
def renamed (network : Network) (reference : Nat) : Option Nat :=
  (Engine.relocations network.store.clauses.toList).getD reference none

/-- Only learnt clauses that are no reasons are marked as deleted. -/
structure Marks (before marked : Network) : Prop where
  trail : marked.trail = before.trail
  parities : marked.parities = before.parities
  watches : marked.store.watches = before.store.watches
  size : marked.store.clauses.size = before.store.clauses.size
  kept : ∀ reference, (marked.store.clause reference).deleted = false →
    marked.store.clause reference = before.store.clause reference
  originals : ∀ reference, (before.store.clause reference).learnt = false →
    (marked.store.clause reference).deleted = false
  reasons : ∀ literal ∈ before.trail.literals.toList, ∀ reference,
    before.trail.reason literal.atom = some (.clause reference) →
      (marked.store.clause reference).deleted = false

theorem atomCompact (network : Network) (atom : Nat) :
    network.compact.trail.atom atom =
      { network.trail.atom atom with
        reason := Engine.relocateReason (Engine.relocations network.store.clauses.toList)
          (network.trail.reason atom) } := by
  simp only [compact, Trail.atom, Trail.reason, Array.getD_eq_getD_getElem?]
  by_cases inside : atom < network.trail.atoms.size
  · simp [inside]
  · simp [inside, Engine.relocateReason]

theorem watchersCompact (network : Network) (literal : Literal) :
    (network.compact.store.watchers literal).toList =
      (network.store.watchers literal).toList.filterMap network.renamed := by
  have lists : network.renamed = fun reference =>
      (Engine.relocations network.store.clauses.toList).getD reference none := rfl
  simp only [compact, ClauseStore.watchers, Array.getD_eq_getD_getElem?, lists]
  by_cases inside : literal.index < network.store.watches.size
  · simp [inside, Engine.relocate]
  · simp [inside]

theorem renamedOnto {network : Network} {new : Nat}
    (inside : new < network.compact.store.clauses.size) :
    ∃ old, network.renamed old = some new := by
  have found : (network.store.clauses.toList.filter Engine.survives)[new]? = some _ :=
    List.getElem?_eq_getElem inside
  obtain ⟨old, atOld⟩ := Engine.slotsOnto 0 found
  rw [Nat.zero_add] at atOld
  exact ⟨old, Engine.tableFound.2 atOld⟩

section Compact

variable {before marked : Network} (marks : Marks before marked)
include marks

/-- A renamed clause is the one that was stored under the old reference. -/
theorem renamedFound {old new : Nat} (same : marked.renamed old = some new) :
    new < marked.compact.store.clauses.size ∧
      marked.compact.store.clause new = before.store.clause old ∧
      old < before.store.clauses.size := by
  obtain ⟨-, clause, found, live, kept⟩ := Engine.slotsFound (Engine.tableFound.1 same)
  rw [Nat.sub_zero] at kept
  have stored : marked.store.clause old = clause := by
    rw [Array.getElem?_toList] at found
    rw [ClauseStore.clause, Array.getD_eq_getD_getElem?, found, Option.getD_some]
  have inside := (List.getElem?_eq_some_iff.1 found).1
  rw [Array.length_toList, marks.size] at inside
  refine ⟨(List.getElem?_eq_some_iff.1 kept).1, ?_, inside⟩
  rw [← stored] at live
  rw [← marks.kept old live, stored, ClauseStore.clause, Array.getD_eq_getD_getElem?, compact,
    List.getElem?_toArray, kept, Option.getD_some]

theorem renamedLive {old : Nat} (inside : old < before.store.clauses.size)
    (live : (marked.store.clause old).deleted = false) :
    ∃ new, marked.renamed old = some new := by
  have within : old < marked.store.clauses.size := by
    rw [marks.size]
    exact inside
  have found : marked.store.clauses.toList[old]? = some (marked.store.clause old) := by
    simp [ClauseStore.clause, within]
  obtain ⟨new, atNew⟩ := Engine.slotsLive 0 found live
  exact ⟨new, Engine.tableFound.2 atNew⟩

theorem watchingCompact {atoms : Nat} (watching : before.store.Watching atoms) :
    marked.compact.store.Watching atoms where
  width := by
    simp [compact, marks.watches, watching.width]
  proper new inside := by
    obtain ⟨old, same⟩ := renamedOnto inside
    obtain ⟨-, stored, oldInside⟩ := renamedFound marks same
    rw [ClauseStore.literalsEq, stored]
    exact watching.proper old oldInside
  live new := by
    by_cases inside : new < marked.compact.store.clauses.size
    · obtain ⟨old, same⟩ := renamedOnto inside
      obtain ⟨-, stored, -⟩ := renamedFound marks same
      rw [stored]
      exact watching.live old
    · rw [ClauseStore.clauseOutside (Nat.not_lt.1 inside)]
      rfl
  watched new literal := by
    have lists : marked.store.watchers literal = before.store.watchers literal := by
      rw [ClauseStore.watchers, marks.watches, ClauseStore.watchers]
    rw [watchersCompact, lists]
    by_cases inside : new < marked.compact.store.clauses.size
    · obtain ⟨old, same⟩ := renamedOnto inside
      obtain ⟨-, stored, -⟩ := renamedFound marks same
      rw [Engine.countRenamed same, watching.watched, ClauseStore.literalsEq,
        ClauseStore.literalsEq, stored]
      intro other hit
      exact Engine.slotsInjective (Engine.tableFound.1 hit) (Engine.tableFound.1 same)
    · rw [ClauseStore.literalsEq, ClauseStore.clauseOutside (Nat.not_lt.1 inside)]
      have absent : new ∉ (before.store.watchers literal).toList.filterMap marked.renamed := by
        intro member
        obtain ⟨old, -, same⟩ := List.mem_filterMap.1 member
        exact inside (renamedFound marks same).1
      rw [List.count_eq_zero.2 absent]
      rfl

theorem alikeCompact : before.trail.Alike marked.compact.trail where
  literals := by simp only [compact, marks.trail]
  limits := by simp only [compact, marks.trail]
  head := by simp only [compact, marks.trail]
  value atom := by
    rw [Trail.atomValue, atomCompact, marks.trail]
    rfl
  level atom := by
    rw [Trail.atomLevel, atomCompact, marks.trail]
    rfl

theorem atomCountCompact : marked.compact.atomCount = before.atomCount := by
  simp [atomCount, compact, marks.trail]

/-- Nothing is lost with the deleted clauses. -/
theorem compactInherits (shaped : before.Shaped) : before.Inherits marked.compact where
  alike := alikeCompact marks
  atoms := Nat.le_of_eq (atomCountCompact marks).symm
  watching := by
    rw [atomCountCompact marks]
    exact watchingCompact marks shaped.store
  listing := by
    rw [atomCountCompact marks, compact, marks.parities]
    exact shaped.parities
  constraints := by rw [compact, marks.parities]
  clauses new inside := by
    obtain ⟨old, same⟩ := renamedOnto inside
    obtain ⟨-, stored, oldInside⟩ := renamedFound marks same
    exact ⟨old, oldInside, stored⟩
  originals old inside original := by
    obtain ⟨new, same⟩ := renamedLive marks inside (marks.originals old original)
    obtain ⟨newInside, stored, -⟩ := renamedFound marks same
    exact ⟨new, newInside, stored⟩
  free atom unset := by
    rw [Trail.reason, atomCompact, marks.trail, unset]
    rfl
  reasons literal member cause known := by
    have reason : marked.compact.trail.reason literal.atom = Engine.relocateReason
        (Engine.relocations marked.store.clauses.toList) (some cause) := by
      rw [Trail.reason, atomCompact, marks.trail, known]
    cases cause with
    | parity index =>
        refine ⟨_, reason, fun position forced => ?_⟩
        refine forcesParityAlike (alikeCompact marks) ?_ forced
        rw [compact, marks.parities]
    | clause old =>
        obtain ⟨position, found⟩ := List.mem_iff_getElem?.1 member
        obtain ⟨-, rest, literals, -⟩ := (shaped.reasons position literal found).forced known
        obtain ⟨new, same⟩ := renamedLive marks (ClauseStore.insideOfCons literals)
          (marks.reasons literal member old known)
        obtain ⟨-, stored, -⟩ := renamedFound marks same
        refine ⟨.clause new, ?_, fun position forced => ?_⟩
        · rw [reason, Engine.relocateReason]
          rw [renamed] at same
          rw [same]
          rfl
        · refine forcesClauseAlike (alikeCompact marks) ?_ forced
          rw [ClauseStore.literalsEq, stored, ClauseStore.literalsEq]

end Compact

end Network

namespace Engine

theorem insertRankedPermutes (clause : Nat → Clause) (reference : Nat) (references : List Nat) :
    List.Perm (insertRanked clause reference references) (reference :: references) := by
  induction references with
  | nil => exact List.Perm.refl _
  | cons first rest inductionHypothesis =>
      rw [insertRanked]
      split
      · exact (inductionHypothesis.cons first).trans (List.Perm.swap reference first rest)
      · exact List.Perm.refl _

/-- The ranking neither loses nor repeats a reference. -/
theorem rankedPermutes (clause : Nat → Clause) (references : List Nat) :
    List.Perm (ranked clause references) references := by
  induction references with
  | nil => exact List.Perm.refl _
  | cons first rest inductionHypothesis =>
      exact (insertRankedPermutes clause first (ranked clause rest)).trans
        (inductionHypothesis.cons first)

/-- This function marks clauses as deleted. -/
def markAll (victims : List Nat) (clauses : Array Clause) : Array Clause :=
  victims.foldl (fun clauses reference => clauses.modify reference Clause.markDeleted) clauses

/-- A clause keeps its contents, or it is a victim and deleted. -/
theorem markAllSpec (victims : List Nat) (clauses : Array Clause) :
    (markAll victims clauses).size = clauses.size ∧ ∀ reference,
      (markAll victims clauses).getD reference default = clauses.getD reference default ∨
        (reference ∈ victims ∧ ((markAll victims clauses).getD reference default).deleted = true) := by
  induction victims generalizing clauses with
  | nil => exact ⟨rfl, fun _ => Or.inl rfl⟩
  | cons first rest inductionHypothesis =>
      obtain ⟨size, marked⟩ := inductionHypothesis (clauses.modify first Clause.markDeleted)
      rw [markAll, List.foldl_cons]
      change _ ∧ ∀ reference, (markAll rest _).getD reference default = _ ∨
        _ ∧ ((markAll rest _).getD reference default).deleted = true
      refine ⟨size.trans Array.size_modify, fun reference => ?_⟩
      rcases marked reference with same | ⟨member, deleted⟩
      · rw [same]
        by_cases own : first = reference
        · subst own
          by_cases inside : first < clauses.size
          · refine Or.inr ⟨List.mem_cons_self, ?_⟩
            simp [Array.getElem_modify, inside, Clause.markDeleted]
          · refine Or.inl ?_
            simp [inside]
        · refine Or.inl ?_
          simp [Array.getD_eq_getD_getElem?, Array.getElem?_modify, own]
      · exact Or.inr ⟨List.mem_cons_of_mem _ member, deleted⟩

/-- The reason of a literal of the trail is locked. -/
theorem lockedReason {network : Network} (shaped : network.Shaped) {literal : Literal}
    (member : literal ∈ network.trail.literals.toList) {reference : Nat}
    (known : network.trail.reason literal.atom = some (.clause reference)) :
    locked network reference = true := by
  obtain ⟨position, found⟩ := List.mem_iff_getElem?.1 member
  obtain ⟨-, rest, literals, -⟩ := (shaped.reasons position literal found).forced known
  have isTrue := (shaped.trail.truth literal).2 member
  rw [locked, literals]
  simp [isTrue, known]

/-- The ranking lists the learnt clauses, and its first half is at risk. -/
def ranking (engine : Engine) : List Nat :=
  ranked engine.network.store.clause engine.learnts.toList

def victims (engine : Engine) : List Nat :=
  (engine.ranking.take (engine.ranking.length / 2)).filter (disposable engine.network)

def survivors (engine : Engine) : List Nat :=
  (engine.ranking.take (engine.ranking.length / 2)).filter
      (fun reference => !disposable engine.network reference) ++
    engine.ranking.drop (engine.ranking.length / 2)

/-- The victims are marked before the store is compacted. -/
def condemned (engine : Engine) : Network :=
  { engine.network with
    store := { engine.network.store with
      clauses := markAll engine.victims engine.network.store.clauses } }

theorem networkReduce (engine : Engine) : engine.reduce.network = engine.condemned.compact := rfl

theorem learntsReduce (engine : Engine) :
    engine.reduce.learnts.toList = engine.survivors.filterMap engine.condemned.renamed := rfl

section Reduce

variable {engine : Engine} (shaped : engine.network.Shaped)
  (learnts : ∀ reference ∈ engine.learnts.toList,
    (engine.network.store.clause reference).learnt = true)
include shaped learnts

/-- No reason of the trail is a victim. -/
theorem reduceMarks : Network.Marks engine.network engine.condemned := by
  obtain ⟨size, spec⟩ := markAllSpec engine.victims engine.network.store.clauses
  have contents (reference : Nat) : engine.condemned.store.clause reference =
      engine.network.store.clause reference ∨
        (reference ∈ engine.victims ∧
          (engine.condemned.store.clause reference).deleted = true) := spec reference
  refine ⟨rfl, rfl, rfl, size, fun reference live => ?_, fun reference original => ?_,
    fun literal member reference known => ?_⟩
  · rcases contents reference with same | ⟨-, deleted⟩
    · exact same
    · rw [deleted] at live
      contradiction
  · rcases contents reference with same | ⟨victim, -⟩
    · rw [same]
      exact shaped.store.live reference
    · have inRanking := List.mem_of_mem_take (List.mem_filter.1 victim).1
      have learnt := learnts reference ((rankedPermutes _ _).mem_iff.1 inRanking)
      rw [original] at learnt
      contradiction
  · rcases contents reference with same | ⟨victim, -⟩
    · rw [same]
      exact shaped.store.live reference
    · have unlocked := (List.mem_filter.1 victim).2
      have isLocked : locked engine.network reference = true := lockedReason shaped member known
      simp only [disposable, isLocked, Bool.not_true, Bool.and_false, Bool.false_eq_true]
        at unlocked

/-- A reduction drops nothing but learnt clauses that are no reasons. -/
theorem reduceInherits :
    engine.network.Inherits engine.reduce.network ∧
      ∀ reference ∈ engine.reduce.learnts.toList,
        (engine.reduce.network.store.clause reference).learnt = true := by
  have marks := reduceMarks shaped learnts
  refine ⟨Network.compactInherits marks shaped, fun reference member => ?_⟩
  rw [learntsReduce] at member
  obtain ⟨old, listed, same⟩ := List.mem_filterMap.1 member
  have inRanking : old ∈ engine.ranking := by
    rcases List.mem_append.1 listed with kept | dropped
    · exact List.mem_of_mem_take (List.mem_filter.1 kept).1
    · exact List.mem_of_mem_drop dropped
  obtain ⟨-, stored, -⟩ := Network.renamedFound marks same
  rw [networkReduce, stored]
  exact learnts old ((rankedPermutes _ _).mem_iff.1 inRanking)

end Reduce

end Engine

end ParitySat
