/-
This file shows that every clause is watched by its first two literals and by no other one, and
that every parity constraint is listed under its atoms only.
-/

import ParitySat.Engine.Store

namespace ParitySat

/-- A stored clause has at least two literals, and their atoms are distinct and exist. -/
structure Clause.Proper (atoms : Nat) (literals : List Literal) : Prop where
  long : 2 ≤ literals.length
  distinct : (literals.map Literal.atom).Nodup
  inside : ∀ literal ∈ literals, literal.atom < atoms

theorem Clause.Proper.permute {atoms : Nat} {before after : List Literal}
    (proper : Clause.Proper atoms before) (permuted : List.Perm after before) :
    Clause.Proper atoms after where
  long := by
    rw [permuted.length_eq]
    exact proper.long
  distinct := ((permuted.map Literal.atom).nodup_iff).2 proper.distinct
  inside literal member := proper.inside literal (permuted.mem_iff.1 member)

theorem Clause.Proper.nodup {atoms : Nat} {literals : List Literal}
    (proper : Clause.Proper atoms literals) : literals.Nodup :=
  (List.pairwise_map.1 proper.distinct).imp fun different same =>
    different (congrArg Literal.atom same)

theorem Clause.holdsPerm (assignment : Nat → Bool) {first second : List Literal}
    (permuted : List.Perm first second) :
    Clause.holds assignment first = Clause.holds assignment second := by
  rw [Bool.eq_iff_iff]
  simp only [Clause.holds, List.any_eq_true]
  constructor
  · rintro ⟨literal, member, isTrue⟩
    exact ⟨literal, permuted.mem_iff.1 member, isTrue⟩
  · rintro ⟨literal, member, isTrue⟩
    exact ⟨literal, permuted.mem_iff.2 member, isTrue⟩

theorem Clause.Proper.grow {atoms more : Nat} {literals : List Literal}
    (proper : Clause.Proper atoms literals) (larger : atoms ≤ more) :
    Clause.Proper more literals where
  long := proper.long
  distinct := proper.distinct
  inside literal member := Nat.lt_of_lt_of_le (proper.inside literal member) larger

namespace ClauseStore

/-- A reference outside the store names an empty clause. -/
def clause (store : ClauseStore) (reference : Nat) : Clause :=
  store.clauses.getD reference default

theorem literalsEq (store : ClauseStore) (reference : Nat) :
    store.literals reference = (store.clause reference).literals := rfl

@[simp] theorem literalsDefault : (default : Clause).literals = [] := rfl

theorem clauseOutside {store : ClauseStore} {reference : Nat}
    (outside : store.clauses.size ≤ reference) : store.clause reference = default := by
  simp [clause, Nat.not_lt.2 outside]

theorem clauseStored {store : ClauseStore} {reference : Nat}
    (inside : reference < store.clauses.size) :
    store.clauses[reference]? = some (store.clause reference) := by
  rw [clause, Array.getD, dif_pos inside]
  exact Array.getElem?_eq_getElem inside

/-- The stored clauses are those with a reference inside the store. -/
theorem memberClause {store : ClauseStore} {stored : Clause} :
    stored ∈ store.clauses.toList ↔
      ∃ reference, reference < store.clauses.size ∧ store.clause reference = stored := by
  rw [Array.mem_toList_iff, Array.mem_iff_getElem?]
  constructor
  · rintro ⟨reference, found⟩
    obtain ⟨inside, -⟩ := Array.getElem?_eq_some_iff.1 found
    exact ⟨reference, inside, Option.some.inj ((clauseStored inside).symm.trans found)⟩
  · rintro ⟨reference, inside, rfl⟩
    exact ⟨reference, clauseStored inside⟩

theorem insideOfMember {store : ClauseStore} {reference : Nat} {literal : Literal}
    (member : literal ∈ store.literals reference) : reference < store.clauses.size := by
  by_cases inside : reference < store.clauses.size
  · exact inside
  · rw [literalsEq, clauseOutside (Nat.not_lt.1 inside)] at member
    exact absurd member List.not_mem_nil

theorem insideOfCons {store : ClauseStore} {reference : Nat} {first : Literal}
    {rest : List Literal} (same : store.literals reference = first :: rest) :
    reference < store.clauses.size := by
  have member : first ∈ store.literals reference := by
    rw [same]
    exact List.mem_cons_self
  exact insideOfMember member

theorem clauseSetLiterals (store : ClauseStore) (reference : Nat) (literals : List Literal)
    (other : Nat) :
    (store.setLiterals reference literals).clause other =
      if reference = other ∧ other < store.clauses.size then
        { store.clause other with literals }
      else store.clause other := by
  by_cases same : reference = other
  · subst same
    by_cases inside : reference < store.clauses.size
    · simp [setLiterals, clause, inside, Array.getElem_modify]
    · simp [setLiterals, clause, inside]
  · simp [setLiterals, clause, Array.getElem?_modify, same]

@[simp] theorem sizeSetLiterals (store : ClauseStore) (reference : Nat) (literals : List Literal) :
    (store.setLiterals reference literals).clauses.size = store.clauses.size := by
  simp [setLiterals]

theorem watchersSetWatchers (store : ClauseStore) (literal : Literal) (references : Array Nat)
    (inside : literal.index < store.watches.size) (other : Literal) :
    (store.setWatchers literal references).watchers other =
      if literal = other then references else store.watchers other := by
  simp only [setWatchers, watchers, Array.getD_eq_getD_getElem?, Array.getElem?_setIfInBounds]
  by_cases same : literal = other
  · subst same
    simp [inside]
  · have different : literal.index ≠ other.index := fun equal =>
      same (Literal.indexInjective equal)
    simp [same, different]

theorem watchersWatch (store : ClauseStore) (literal : Literal) (reference : Nat)
    (inside : literal.index < store.watches.size) (other : Literal) :
    (store.watch literal reference).watchers other =
      if literal = other then (store.watchers other).push reference else store.watchers other := by
  simp only [watch, watchers, Array.getD_eq_getD_getElem?, Array.getElem?_modify]
  by_cases same : literal = other
  · subst same
    simp [inside]
  · have different : literal.index ≠ other.index := fun equal =>
      same (Literal.indexInjective equal)
    simp [same, different]

/-- A watcher of a literal is a clause with this literal at one of its first two places. -/
structure Watching (store : ClauseStore) (atoms : Nat) : Prop where
  width : store.watches.size = 2 * atoms
  proper : ∀ reference, reference < store.clauses.size →
    Clause.Proper atoms (store.literals reference)
  live : ∀ reference, (store.clause reference).deleted = false
  watched : ∀ reference literal, (store.watchers literal).toList.count reference =
    ((store.literals reference).take 2).count literal

theorem indexInside {atoms : Nat} {literal : Literal} (inside : literal.atom < atoms) :
    literal.index < 2 * atoms := by
  simp only [Literal.index]
  have sign := Bool.toNat_lt literal.negated
  omega

namespace Watching

variable {store : ClauseStore} {atoms : Nat} (watching : store.Watching atoms)
include watching

/-- Every stored clause has two watches and further literals. -/
theorem split {reference : Nat} (inside : reference < store.clauses.size) :
    ∃ first second rest, store.literals reference = first :: second :: rest := by
  have long := (watching.proper reference inside).long
  match store.literals reference, long with
  | first :: second :: rest, _ => exact ⟨first, second, rest, rfl⟩

theorem properOfCons {reference : Nat} {first : Literal} {rest : List Literal}
    (same : store.literals reference = first :: rest) :
    Clause.Proper atoms (first :: rest) := by
  rw [← same]
  exact watching.proper reference (insideOfCons same)

/-- A watcher contains the literal it watches among its first two literals. -/
theorem watcher {reference : Nat} {literal : Literal}
    (member : reference ∈ store.watchers literal) :
    literal ∈ (store.literals reference).take 2 := by
  have counted := watching.watched reference literal
  have positive := List.count_pos_iff.2 (Array.mem_toList_iff.2 member)
  rw [counted] at positive
  exact List.count_pos_iff.1 positive

/-- Both watches of a clause list it. -/
theorem listed {reference : Nat} {literal : Literal}
    (member : literal ∈ (store.literals reference).take 2) :
    reference ∈ store.watchers literal := by
  have counted := watching.watched reference literal
  have positive := List.count_pos_iff.2 member
  rw [← counted] at positive
  exact Array.mem_toList_iff.1 (List.count_pos_iff.1 positive)

/-- Only stored clauses watch. -/
theorem stored {references : Array Nat} (listed : references ∈ store.watches) {reference : Nat}
    (member : reference ∈ references) : reference < store.clauses.size := by
  obtain ⟨slot, inside, rfl⟩ := Array.mem_iff_getElem.1 listed
  obtain ⟨literal, same⟩ := Literal.indexSurjective slot
  have watcher : reference ∈ store.watchers literal := by
    simpa [watchers, same, inside] using member
  exact insideOfMember (List.mem_of_mem_take (watching.watcher watcher))

end Watching

theorem emptyWatching : ClauseStore.empty.Watching 0 where
  width := rfl
  proper reference inside := absurd inside (by simp [empty])
  live reference := by
    rw [clauseOutside (by simp [empty])]
    rfl
  watched reference literal := by
    rw [literalsEq, clauseOutside (by simp [empty])]
    simp [empty, watchers]

/-- Two new literals have no watchers. -/
theorem Watching.grow {store : ClauseStore} {atoms : Nat} (watching : store.Watching atoms) :
    store.grow.Watching (atoms + 1) where
  width := by
    simp only [ClauseStore.grow, Array.size_push, watching.width]
    omega
  proper reference inside := (watching.proper reference inside).grow (Nat.le_succ atoms)
  live := watching.live
  watched reference literal := by
    have same : store.grow.watchers literal = store.watchers literal := by
      simp only [watchers, ClauseStore.grow, Array.getD_eq_getD_getElem?, Array.getElem?_push]
      grind
    rw [same]
    exact watching.watched reference literal

theorem clausesAdd (store : ClauseStore) (clause : Clause) :
    (store.add clause).clauses = store.clauses.push clause := by
  unfold ClauseStore.add
  split <;> rfl

theorem clauseAdd (store : ClauseStore) (clause : Clause) (reference : Nat) :
    (store.add clause).clause reference =
      if reference = store.clauses.size then clause else store.clause reference := by
  simp only [ClauseStore.clause, clausesAdd, Array.getD_eq_getD_getElem?, Array.getElem?_push]
  split <;> rfl

theorem watchersAdd (store : ClauseStore) (clause : Clause) {first second : Literal}
    {rest : List Literal} (same : clause.literals = first :: second :: rest)
    (different : first ≠ second) (firstInside : first.index < store.watches.size)
    (secondInside : second.index < store.watches.size) (literal : Literal) :
    ((store.add clause).watchers literal).toList = (store.watchers literal).toList ++
      (if literal ∈ [first, second] then [store.clauses.size] else []) := by
  unfold ClauseStore.add
  rw [same]
  simp only
  rw [watchersWatch _ _ _ (by simpa [watch] using secondInside),
    watchersWatch _ _ _ (by simpa using firstInside)]
  have plain : ClauseStore.watchers { store with clauses := store.clauses.push clause } literal =
      store.watchers literal := rfl
  rw [plain]
  by_cases isFirst : first = literal
  · have notSecond : second ≠ literal := fun equal => different (isFirst.trans equal.symm)
    simp [isFirst, notSecond]
  · by_cases isSecond : second = literal
    · simp [isFirst, isSecond]
    · simp [isFirst, isSecond, Ne.symm isFirst, Ne.symm isSecond]

theorem widthAdd (store : ClauseStore) (clause : Clause) :
    (store.add clause).watches.size = store.watches.size := by
  unfold ClauseStore.add
  split <;> simp [watch]

/-- A new clause is watched by its first two literals. -/
theorem Watching.add {store : ClauseStore} {atoms : Nat} (watching : store.Watching atoms)
    {clause : Clause} (proper : Clause.Proper atoms clause.literals)
    (live : clause.deleted = false) : (store.add clause).Watching atoms := by
  obtain ⟨first, second, rest, same⟩ : ∃ first second rest,
      clause.literals = first :: second :: rest := by
    match clause.literals, proper.long with
    | first :: second :: rest, _ => exact ⟨first, second, rest, rfl⟩
  have nodup := proper.nodup
  rw [same] at nodup
  have different : first ≠ second := fun equal => by simp [equal] at nodup
  have firstInside : first.index < store.watches.size := by
    rw [watching.width]
    exact indexInside (proper.inside first (by simp [same]))
  have secondInside : second.index < store.watches.size := by
    rw [watching.width]
    exact indexInside (proper.inside second (by simp [same]))
  refine ⟨?_, ?_, ?_, ?_⟩
  · rw [widthAdd, watching.width]
  · intro reference inside
    rw [clausesAdd, Array.size_push] at inside
    rw [literalsEq, clauseAdd]
    by_cases last : reference = store.clauses.size
    · rw [if_pos last]
      exact proper
    · rw [if_neg last]
      exact watching.proper reference (by omega)
  · intro reference
    rw [clauseAdd]
    split
    · exact live
    · exact watching.live reference
  · intro reference literal
    rw [watchersAdd store clause same different firstInside secondInside, List.count_append,
      watching.watched, literalsEq, literalsEq, clauseAdd]
    by_cases last : reference = store.clauses.size
    · rw [if_pos last, clauseOutside (Nat.le_of_eq last.symm), same, last]
      by_cases isFirst : literal = first
      · simp [isFirst, Ne.symm different]
      · by_cases isSecond : literal = second
        · simp [isSecond, different]
        · simp [isFirst, isSecond, Ne.symm isFirst, Ne.symm isSecond]
    · rw [if_neg last]
      split
      · simp [Ne.symm last]
      · simp

/-- The literals of a clause may be permuted if its first two literals stay the same. -/
theorem Watching.permute {store : ClauseStore} {atoms : Nat} (watching : store.Watching atoms)
    {reference : Nat} {literals : List Literal}
    (permuted : List.Perm literals (store.literals reference))
    (watches : List.Perm (literals.take 2) ((store.literals reference).take 2)) :
    (store.setLiterals reference literals).Watching atoms where
  width := watching.width
  proper other inside := by
    rw [sizeSetLiterals] at inside
    rw [literalsEq, clauseSetLiterals]
    split
    · next same =>
        rw [← same.1] at inside
        exact (watching.proper reference inside).permute permuted
    · exact watching.proper other inside
  live other := by
    rw [clauseSetLiterals]
    split <;> exact watching.live other
  watched other literal := by
    have same : (store.setLiterals reference literals).watchers literal =
        store.watchers literal := rfl
    rw [same, watching.watched, literalsEq _ other, literalsEq _ other, clauseSetLiterals]
    split
    · next equal =>
        obtain ⟨rfl, -⟩ := equal
        exact (watches.count_eq literal).symm
    · rfl

/-- A clause may give up one of its watches for another one of its literals. -/
theorem Watching.exchange {store after : ClauseStore} {atoms : Nat}
    (watching : store.Watching atoms) {reference : Nat} {left first watched : Literal}
    {others : List Literal} {kept rest : List Nat}
    (before : (store.watchers left).toList = kept ++ reference :: rest)
    (watches : List.Perm ((store.literals reference).take 2) [first, left])
    (permuted : List.Perm (first :: watched :: others) (store.literals reference))
    (different : watched ≠ left)
    (size : after.clauses.size = store.clauses.size)
    (clauses : ∀ other, after.clause other = if other = reference then
      { store.clause other with literals := first :: watched :: others } else store.clause other)
    (width : after.watches.size = store.watches.size)
    (watchers : ∀ literal, (after.watchers literal).toList =
      if literal = left then kept ++ rest
      else if literal = watched then (store.watchers literal).toList ++ [reference]
      else (store.watchers literal).toList) : after.Watching atoms where
  width := width.trans watching.width
  proper other inside := by
    rw [size] at inside
    rw [literalsEq, clauses]
    split
    · next same =>
        rw [same] at inside
        exact (watching.proper reference inside).permute permuted
    · exact watching.proper other inside
  live other := by
    rw [clauses]
    split <;> exact watching.live other
  watched other literal := by
    have old := watching.watched other literal
    have inside : reference < store.clauses.size :=
      insideOfMember (permuted.mem_iff.1 List.mem_cons_self)
    have nodup := ((watching.proper reference inside).permute permuted).nodup
    have firstDifferent : first ≠ watched := fun same => by simp [same] at nodup
    rw [literalsEq _ other, clauses, watchers]
    by_cases own : other = reference
    · subst own
      rw [if_pos rfl]
      simp only [List.take_succ_cons, List.take_zero]
      rw [watches.count_eq] at old
      by_cases isLeft : literal = left
      · subst isLeft
        rw [before] at old
        rw [if_pos rfl]
        simp only [List.count_append, List.count_cons, List.count_nil, beq_iff_eq,
          beq_self_eq_true] at old ⊢
        grind
      · rw [if_neg isLeft]
        by_cases isWatched : literal = watched
        · subst isWatched
          rw [if_pos rfl, List.count_append, old]
          simp [Ne.symm different, firstDifferent]
        · rw [if_neg isWatched, old]
          simp [List.count_cons, Ne.symm isLeft, Ne.symm isWatched]
    · rw [if_neg own, ← literalsEq, ← old]
      by_cases isLeft : literal = left
      · subst isLeft
        rw [if_pos rfl, before]
        simp [Ne.symm own]
      · rw [if_neg isLeft]
        split
        · simp [List.count_append, Ne.symm own]
        · rfl

end ClauseStore

namespace ParityStore

/-- A parity constraint is listed under its atoms, which are distinct and exist. -/
structure Listing (store : ParityStore) (atoms : Nat) : Prop where
  width : store.occurrences.size = atoms
  long : ∀ index, index < store.constraints.size → 2 ≤ (store.constraint index).atoms.length
  distinct : ∀ index, (store.constraint index).atoms.Nodup
  inside : ∀ index, ∀ atom ∈ (store.constraint index).atoms, atom < atoms
  listed : ∀ index atom, (store.occurrencesOf atom).toList.count index =
    (store.constraint index).atoms.count atom

theorem constraintOutside {store : ParityStore} {index : Nat}
    (outside : store.constraints.size ≤ index) : store.constraint index = default := by
  simp [constraint, Nat.not_lt.2 outside]

@[simp] theorem atomsDefault : (default : ParityConstraint).atoms = [] := rfl

theorem constraintStored {store : ParityStore} {index : Nat}
    (inside : index < store.constraints.size) :
    store.constraints[index]? = some (store.constraint index) := by
  rw [constraint, Array.getD, dif_pos inside]
  exact Array.getElem?_eq_getElem inside

/-- The stored constraints are those with an index inside the store. -/
theorem memberConstraint {store : ParityStore} {stored : ParityConstraint} :
    stored ∈ store.constraints.toList ↔
      ∃ index, index < store.constraints.size ∧ store.constraint index = stored := by
  rw [Array.mem_toList_iff, Array.mem_iff_getElem?]
  constructor
  · rintro ⟨index, found⟩
    obtain ⟨inside, -⟩ := Array.getElem?_eq_some_iff.1 found
    exact ⟨index, inside, Option.some.inj ((constraintStored inside).symm.trans found)⟩
  · rintro ⟨index, inside, rfl⟩
    exact ⟨index, constraintStored inside⟩

theorem insideOfMember {store : ParityStore} {index atom : Nat}
    (member : atom ∈ (store.constraint index).atoms) : index < store.constraints.size := by
  by_cases inside : index < store.constraints.size
  · exact inside
  · rw [constraintOutside (Nat.not_lt.1 inside)] at member
    exact absurd member List.not_mem_nil

theorem Listing.occurs {store : ParityStore} {atoms : Nat} (listing : store.Listing atoms)
    {index atom : Nat} : index ∈ store.occurrencesOf atom ↔
      atom ∈ (store.constraint index).atoms := by
  rw [← Array.mem_toList_iff, ← List.count_pos_iff, listing.listed, List.count_pos_iff]

theorem emptyListing : ParityStore.empty.Listing 0 where
  width := rfl
  long index inside := absurd inside (by simp [empty])
  distinct index := by
    rw [constraintOutside (by simp [empty])]
    exact List.nodup_nil
  inside index atom member := by
    rw [constraintOutside (by simp [empty])] at member
    exact absurd member List.not_mem_nil
  listed index atom := by
    rw [constraintOutside (by simp [empty])]
    simp [empty, occurrencesOf]

theorem Listing.grow {store : ParityStore} {atoms : Nat} (listing : store.Listing atoms) :
    store.grow.Listing (atoms + 1) where
  width := by simp [ParityStore.grow, listing.width]
  long := listing.long
  distinct := listing.distinct
  inside index atom member := Nat.lt_succ_of_lt (listing.inside index atom member)
  listed index atom := by
    have same : store.grow.occurrencesOf atom = store.occurrencesOf atom := by
      simp only [occurrencesOf, ParityStore.grow, Array.getD_eq_getD_getElem?, Array.getElem?_push]
      grind
    rw [same]
    exact listing.listed index atom

theorem occurrencesAdd (index : Nat) (atoms : List Nat) (occurrences : Array (Array Nat))
    (inside : ∀ atom ∈ atoms, atom < occurrences.size) (atom other : Nat) :
    ((atoms.foldl (fun occurrences atom => occurrences.modify atom (·.push index))
      occurrences).getD atom #[]).toList.count other =
        (occurrences.getD atom #[]).toList.count other +
          if other = index then atoms.count atom else 0 := by
  induction atoms generalizing occurrences with
  | nil => simp
  | cons first rest inductionHypothesis =>
      rw [List.foldl_cons, inductionHypothesis _ (by
        intro next member
        simpa using inside next (List.mem_cons_of_mem _ member))]
      have firstInside := inside first List.mem_cons_self
      simp only [Array.getD_eq_getD_getElem?, Array.getElem?_modify]
      by_cases same : first = atom
      · subst same
        by_cases own : other = index
        · simp [firstInside, own, List.count_append]
          omega
        · simp [firstInside, own, Ne.symm own, List.count_append]
      · simp [same]

/-- A new parity constraint is listed under its atoms. -/
theorem Listing.add {store : ParityStore} {atoms : Nat} (listing : store.Listing atoms)
    {constraint : ParityConstraint} (long : 2 ≤ constraint.atoms.length)
    (distinct : constraint.atoms.Nodup) (inside : ∀ atom ∈ constraint.atoms, atom < atoms) :
    (store.add constraint).Listing atoms ∧
      ∀ index, (store.add constraint).constraint index =
        if index = store.constraints.size then constraint else store.constraint index := by
  have stored (index : Nat) : (store.add constraint).constraint index =
      if index = store.constraints.size then constraint else store.constraint index := by
    simp only [ParityStore.constraint, ParityStore.add, Array.getD_eq_getD_getElem?,
      Array.getElem?_push]
    split <;> rfl
  have width (atoms : List Nat) (occurrences : Array (Array Nat)) :
      (atoms.foldl (fun occurrences atom => occurrences.modify atom
        (·.push store.constraints.size)) occurrences).size = occurrences.size := by
    induction atoms generalizing occurrences with
    | nil => rfl
    | cons first rest inductionHypothesis =>
        rw [List.foldl_cons, inductionHypothesis]
        simp
  refine ⟨⟨?_, ?_, ?_, ?_, ?_⟩, stored⟩
  · exact (width _ _).trans listing.width
  · intro index within
    rw [stored]
    split
    · exact long
    · next older =>
        simp only [ParityStore.add, Array.size_push] at within
        exact listing.long index (by omega)
  · intro index
    rw [stored]
    split
    · exact distinct
    · exact listing.distinct index
  · intro index atom member
    rw [stored] at member
    split at member
    · exact inside atom member
    · exact listing.inside index atom member
  · intro index atom
    rw [stored]
    have old := listing.listed index atom
    have added := occurrencesAdd store.constraints.size constraint.atoms store.occurrences
      (fun other member => listing.width ▸ inside other member) atom index
    simp only [occurrencesOf] at old
    simp only [occurrencesOf, ParityStore.add]
    rw [added, old]
    by_cases last : index = store.constraints.size
    · rw [if_pos last, if_pos last, constraintOutside (Nat.le_of_eq last.symm)]
      simp
    · rw [if_neg last, if_neg last, Nat.add_zero]

end ParityStore

end ParitySat
