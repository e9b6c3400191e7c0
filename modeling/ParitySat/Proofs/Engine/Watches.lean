/-
This file shows that a visit to the watchers of a false literal finds every conflict and every
forced literal among them.
-/

import ParitySat.Proofs.Engine.Network

namespace ParitySat

/-- The clause has these two watches, in one order or the other. -/
def Clause.Paired (literals : List Literal) (first second : Literal) (rest : List Literal) : Prop :=
  literals = first :: second :: rest ∨ literals = second :: first :: rest

namespace Clause.Paired

variable {literals rest : List Literal} {first second : Literal}
  (paired : Clause.Paired literals first second rest)
include paired

theorem permuted : List.Perm (first :: second :: rest) literals := by
  rcases paired with rfl | rfl
  · exact List.Perm.refl _
  · exact List.Perm.swap _ _ _

theorem watches : List.Perm (literals.take 2) [first, second] := by
  rcases paired with rfl | rfl
  · exact List.Perm.refl _
  · exact List.Perm.swap _ _ _

/-- A first literal that is not the second watch stays the first. -/
theorem leading {literal : Literal} {others : List Literal} (same : literals = literal :: others)
    (different : literal ≠ second) : literal = first := by
  rcases paired with rfl | rfl
  · exact (List.cons.inj same).1.symm
  · exact absurd (List.cons.inj same).1.symm different

end Clause.Paired

/-- After the orientation the false literal is the second one. -/
theorem Clause.orientPaired {falseLiteral : Literal} {literals : List Literal}
    (long : 2 ≤ literals.length) (nodup : literals.Nodup)
    (watched : falseLiteral ∈ literals.take 2) :
    ∃ first rest, orient falseLiteral literals = first :: falseLiteral :: rest ∧
      Clause.Paired literals first falseLiteral rest ∧ first ≠ falseLiteral := by
  match literals, long with
  | one :: two :: rest, _ =>
      have different : one ≠ two := fun same => by simp [same] at nodup
      rw [orient]
      by_cases swap : one = falseLiteral
      · subst swap
        exact ⟨two, rest, if_pos rfl, Or.inr rfl, Ne.symm different⟩
      · have second : two = falseLiteral := by
          simpa [Ne.symm swap, eq_comm] using watched
        subst second
        exact ⟨one, rest, if_neg swap, Or.inl rfl, different⟩

theorem Trail.memberInitialSucc {trail : Trail} {bound : Nat} {last literal : Literal}
    (found : trail.literals.toList[bound]? = some last) :
    literal ∈ trail.initial (bound + 1) ↔ literal ∈ trail.initial bound ∨ literal = last := by
  rw [memberInitial, memberInitial]
  constructor
  · rintro ⟨position, below, same⟩
    by_cases end_ : position = bound
    · subst end_
      rw [found] at same
      exact Or.inr (Option.some.inj same).symm
    · exact Or.inl ⟨position, by omega, same⟩
  · rintro (⟨position, below, same⟩ | rfl)
    · exact ⟨position, by omega, same⟩
    · exact ⟨bound, Nat.lt_succ_self bound, found⟩

namespace ClauseStore

/-- Only the literals of this clause have changed. -/
structure Reorders (before after : ClauseStore) (reference : Nat) (literals : List Literal) :
    Prop where
  size : after.clauses.size = before.clauses.size
  clauses : ∀ other, after.clause other = if other = reference then
    { before.clause other with literals } else before.clause other

section Reorders

variable {before after : ClauseStore} {reference : Nat} {literals : List Literal}
  (reorders : before.Reorders after reference literals)
include reorders

theorem Reorders.own : after.literals reference = literals := by
  rw [literalsEq, reorders.clauses, if_pos rfl]

theorem Reorders.others {other : Nat} (different : other ≠ reference) :
    after.literals other = before.literals other := by
  rw [literalsEq, reorders.clauses, if_neg different]
  rfl

end Reorders

theorem reordersSet {store : ClauseStore} {reference : Nat}
    (inside : reference < store.clauses.size) (literals : List Literal) :
    store.Reorders (store.setLiterals reference literals) reference literals where
  size := sizeSetLiterals store reference literals
  clauses other := by
    rw [clauseSetLiterals]
    by_cases same : reference = other
    · subst same
      simp [inside]
    · simp [same, Ne.symm same]

end ClauseStore

namespace Network

theorem quietOfPair {network : Network} {bound reference : Nat} {first second : Literal}
    {rest : List Literal} (same : network.store.literals reference = first :: second :: rest)
    (left : network.Guards bound first second) (right : network.Guards bound second first) :
    network.Quiet bound reference := by
  intro one two others equal
  rw [same] at equal
  obtain ⟨rfl, rfl, -⟩ : first = one ∧ second = two ∧ rest = others := by simpa using equal
  exact ⟨left, right⟩

/-- The watches guard each other in whatever order they stand. -/
theorem Quiet.pair {network : Network} {bound reference : Nat}
    (quiet : network.Quiet bound reference) {first second : Literal} {rest : List Literal}
    (paired : Clause.Paired (network.store.literals reference) first second rest) :
    network.Guards bound first second ∧ network.Guards bound second first := by
  rcases paired with same | same
  · exact quiet first second rest same
  · exact (quiet second first rest same).symm

/-- A clause that keeps its literals stays quiet. -/
theorem Quiet.transfer {network : Network} {store : ClauseStore} {bound reference : Nat}
    (quiet : network.Quiet bound reference)
    (same : store.literals reference = network.store.literals reference) :
    { network with store }.Quiet bound reference := by
  intro first second rest equal
  exact quiet first second rest (same ▸ equal)

section Visit

variable {network : Network} {bound : Nat} {falseLiteral : Literal} (shaped : network.Shaped)
  (early : ∀ limit ∈ network.trail.limits.toList, limit ≤ bound)
  (found : network.trail.literals.toList[bound]? = some falseLiteral.negate)
include shaped found

theorem falseAbsent : falseLiteral ∉ network.trail.literals.toList := by
  have absent := shaped.trail.consistent (List.mem_of_getElem? found)
  rwa [Literal.negateNegate] at absent

/-- A clause with a true first watch is quiet after the visit. -/
theorem quietTrue {reference : Nat} {first : Literal} {rest : List Literal}
    (same : network.store.literals reference = first :: falseLiteral :: rest)
    (isTrue : first ∈ network.trail.literals.toList)
    (early : ∀ limit ∈ network.trail.limits.toList, limit ≤ bound) :
    network.Quiet (bound + 1) reference := by
  refine quietOfPair same ?_ ?_
  · intro member
    exact absurd (Trail.initialMember member) (shaped.trail.consistent isTrue)
  · intro _
    refine ⟨isTrue, ?_⟩
    -- The false literal belongs to the current level, and no level is greater.
    have level := shaped.trail.levels bound _ found
    rw [Literal.atomNegate] at level
    have all : network.trail.limits.toList.countP (· ≤ bound) =
        network.trail.limits.toList.length := by
      rw [List.countP_eq_length]
      intro limit member
      simpa using early limit member
    have current : network.trail.atomLevel falseLiteral.atom = network.trail.level := by
      rw [level, Trail.levelAt, all]
      simp [Trail.level]
    rw [current]
    exact shaped.trail.levelLe isTrue

/-- A first watch that the false literal guarded has not been visited as a false one. -/
theorem firstUnvisited {reference : Nat} {first : Literal} {rest : List Literal}
    (quiet : network.Quiet bound reference)
    (paired : Clause.Paired (network.store.literals reference) first falseLiteral rest)
    (different : first ≠ falseLiteral) : first.negate ∉ network.trail.initial (bound + 1) := by
  rw [Trail.memberInitialSucc found]
  rintro (earlier | last)
  · exact falseAbsent shaped found ((quiet.pair paired).1 earlier).1
  · have same := congrArg Literal.negate last
    rw [Literal.negateNegate, Literal.negateNegate] at same
    exact different same

end Visit

/-- This function stores the literals of a clause in another order. -/
def reorder (network : Network) (reference : Nat) (literals : List Literal) : Network :=
  { network with store := network.store.setLiterals reference literals }

/-- A clause may change the order of its literals if its first literal is not true. -/
theorem rearrangedOne {network : Network} {store : ClauseStore} {reference : Nat}
    {literals : List Literal} (reorders : network.store.Reorders store reference literals)
    (permuted : List.Perm literals (network.store.literals reference))
    (leading : ∀ literal rest, network.store.literals reference = literal :: rest →
      literal ∈ network.trail.literals.toList → ∃ others, literals = literal :: others) :
    Rearranged network.trail network.store store where
  size := reorders.size
  permuted other := by
    by_cases same : other = reference
    · subst same
      rw [reorders.own]
      exact permuted
    · rw [reorders.others same]
  alike other := by
    rw [ClauseStore.literalsEq, reorders.clauses]
    split <;> rfl
  leading other literal rest equal member := by
    by_cases same : other = reference
    · subst same
      rw [reorders.own]
      exact leading literal rest equal member
    · exact ⟨rest, (reorders.others same).trans equal⟩

end Network

/-- A clause that leaves the list of the false literal is watched by another literal instead. -/
theorem ClauseStore.Watching.move {store : ClauseStore} {atoms reference : Nat} {kept : Array Nat}
    {remaining : List Nat} {first falseLiteral watched : Literal} {rest others : List Literal}
    (watching : (store.setWatchers falseLiteral
      (kept ++ (reference :: remaining).toArray)).Watching atoms)
    (known : falseLiteral.atom < atoms)
    (paired : Clause.Paired (store.literals reference) first falseLiteral rest)
    (permuted : List.Perm (first :: watched :: others) (store.literals reference))
    (different : watched ≠ falseLiteral) :
    (((store.setLiterals reference (first :: watched :: others)).watch watched
      reference).setWatchers falseLiteral (kept ++ remaining.toArray)).Watching atoms := by
  let moved := (store.setLiterals reference (first :: watched :: others)).watch watched reference
  have inside : reference < store.clauses.size :=
    insideOfMember (permuted.mem_iff.1 List.mem_cons_self)
  have proper := (watching.proper reference inside).permute permuted
  have width : store.watches.size = 2 * atoms := by
    simpa [setWatchers] using watching.width
  have falseIndex : falseLiteral.index < store.watches.size := by
    rw [width]
    exact indexInside known
  have movedIndex : falseLiteral.index < moved.watches.size := by
    simpa [moved, watch, setLiterals] using falseIndex
  have watchedIndex : watched.index <
      (store.setLiterals reference (first :: watched :: others)).watches.size := by
    change _ < store.watches.size
    rw [width]
    exact indexInside (proper.inside watched (by simp))
  have before (literal : Literal) :
      ((store.setWatchers falseLiteral (kept ++ (reference :: remaining).toArray)).watchers
        literal).toList =
      if falseLiteral = literal then kept.toList ++ reference :: remaining
      else (store.watchers literal).toList := by
    rw [watchersSetWatchers _ _ _ falseIndex]
    split <;> simp
  have listed := before falseLiteral
  rw [if_pos rfl] at listed
  have reorders := reordersSet inside (first :: watched :: others)
  refine watching.exchange listed paired.watches permuted different reorders.size
    reorders.clauses ?_ ?_
  · simp [setWatchers, watch, setLiterals]
  · intro literal
    have same : (store.setLiterals reference (first :: watched :: others)).watchers literal =
        store.watchers literal := rfl
    rw [watchersSetWatchers _ _ _ movedIndex, before]
    by_cases isLeft : literal = falseLiteral
    · subst isLeft
      simp
    · rw [if_neg (Ne.symm isLeft), if_neg isLeft, if_neg (Ne.symm isLeft),
        watchersWatch _ _ _ watchedIndex, same]
      by_cases isWatched : literal = watched
      · subst isWatched
        simp
      · rw [if_neg (Ne.symm isWatched), if_neg isWatched]

namespace WatchScan

/-- The network of a scan has the watchers that are not yet visited back in their list. -/
def restore (base : Network) (falseLiteral : Literal) (remaining : List Nat) (scan : WatchScan) :
    Network :=
  { base with
    store := scan.store.setWatchers falseLiteral (scan.kept ++ remaining.toArray)
    trail := scan.trail }

/-- All clauses are quiet as before, and the visited ones also with regard to the false literal. -/
structure Visits (base : Network) (falseLiteral : Literal) (bound : Nat) (remaining : List Nat)
    (scan : WatchScan) : Prop where
  propagates : base.Propagates (scan.restore base falseLiteral remaining)
  before : ∀ reference, (scan.restore base falseLiteral remaining).Quiet bound reference
  after : scan.conflict = none → ∀ reference, reference ∉ remaining →
    (scan.restore base falseLiteral remaining).Quiet (bound + 1) reference
  clash : ∀ reference, scan.conflict = some reference →
    (scan.restore base falseLiteral remaining).Falsified reference

theorem keptLists (kept : Array Nat) (reference : Nat) (remaining : List Nat) :
    kept.push reference ++ remaining.toArray = kept ++ (reference :: remaining).toArray := by
  apply Array.ext'
  simp

/-- A watcher that stays in its list only changes the order of its literals. -/
theorem restoreKept (base : Network) (falseLiteral : Literal) (remaining : List Nat)
    (scan : WatchScan) (reference : Nat) (literals : List Literal) (conflict : Option Nat) :
    restore base falseLiteral remaining
      { scan with
        store := scan.store.setLiterals reference literals
        kept := scan.kept.push reference
        conflict } =
      (scan.restore base falseLiteral (reference :: remaining)).reorder reference literals := by
  simp only [restore, keptLists]
  rfl

/-- After a conflict the watchers stay as they are. -/
theorem Visits.skip {base : Network} {falseLiteral : Literal} {bound reference : Nat}
    {remaining : List Nat} {scan : WatchScan}
    (visits : Visits base falseLiteral bound (reference :: remaining) scan)
    (conflict : scan.conflict.isSome = true) :
    Visits base falseLiteral bound remaining { scan with kept := scan.kept.push reference } := by
  have same : restore base falseLiteral remaining
      { scan with kept := scan.kept.push reference } =
      scan.restore base falseLiteral (reference :: remaining) := by
    simp only [restore, keptLists]
  refine ⟨?_, ?_, ?_, ?_⟩
  · rw [same]
    exact visits.propagates
  · rw [same]
    exact visits.before
  · intro none
    simp only at none
    rw [none] at conflict
    contradiction
  · rw [same]
    exact visits.clash

section Step

variable {base : Network} {falseLiteral : Literal} {bound : Nat} (shaped : base.Shaped)
  (early : ∀ limit ∈ base.trail.limits.toList, limit ≤ bound)
  (found : base.trail.literals.toList[bound]? = some falseLiteral.negate)
include shaped early found

/-- The facts about the false literal hold throughout the scan. -/
theorem Visits.context {remaining : List Nat} {scan : WatchScan}
    (visits : Visits base falseLiteral bound remaining scan) :
    (scan.restore base falseLiteral remaining).Shaped ∧
      (∀ limit ∈ scan.trail.limits.toList, limit ≤ bound) ∧
      scan.trail.literals.toList[bound]? = some falseLiteral.negate := by
  obtain ⟨limits, -⟩ := visits.propagates.frame
  change scan.trail.limits = base.trail.limits at limits
  refine ⟨visits.propagates.shaped shaped, ?_, visits.propagates.found shaped found⟩
  rw [limits]
  exact early

variable {reference : Nat} {remaining : List Nat} {scan : WatchScan}
  (visits : Visits base falseLiteral bound (reference :: remaining) scan)
  {first : Literal} {rest : List Literal}
  (paired : Clause.Paired (scan.store.literals reference) first falseLiteral rest)
include visits paired

/-- This network is the one before the visit, but for the orientation of the visited clause. -/
theorem Visits.oriented :
    let oriented := (scan.restore base falseLiteral (reference :: remaining)).reorder reference
      (first :: falseLiteral :: rest)
    base.Propagates oriented ∧ oriented.Shaped ∧
      oriented.store.literals reference = first :: falseLiteral :: rest ∧
      (∀ other, oriented.Quiet bound other) ∧
      (scan.conflict = none → ∀ other, other ∉ reference :: remaining →
        oriented.Quiet (bound + 1) other) := by
  intro oriented
  let before := scan.restore base falseLiteral (reference :: remaining)
  obtain ⟨beforeShaped, -, stillFound⟩ := visits.context shaped early found
  have absent : falseLiteral ∉ before.trail.literals.toList :=
    Network.falseAbsent beforeShaped stillFound
  have beforePaired : Clause.Paired (before.store.literals reference) first falseLiteral rest :=
    paired
  have inside : reference < before.store.clauses.size := by
    exact ClauseStore.insideOfMember (beforePaired.permuted.mem_iff.1 List.mem_cons_self)
  have reorders : before.store.Reorders oriented.store reference (first :: falseLiteral :: rest) :=
    ClauseStore.reordersSet inside (first :: falseLiteral :: rest)
  have own := reorders.own
  have rearranged : Network.Rearranged before.trail before.store oriented.store := by
    apply Network.rearrangedOne reorders beforePaired.permuted
    intro literal others same member
    have isFirst := beforePaired.leading same fun equal => absent (equal ▸ member)
    exact ⟨_, by rw [isFirst]⟩
  have watching : oriented.store.Watching before.atomCount := by
    apply beforeShaped.store.permute beforePaired.permuted
    exact beforePaired.watches.symm
  have propagates : base.Propagates oriented :=
    .rearrange visits.propagates _ watching rearranged
  refine ⟨propagates, propagates.shaped shaped, own, fun other => ?_, fun none other absent => ?_⟩
  · by_cases same : other = reference
    · subst same
      have pair := (visits.before other).pair beforePaired
      exact Network.quietOfPair own pair.1 pair.2
    · exact (visits.before other).transfer (reorders.others same)
  · have different : other ≠ reference := fun same => absent (same ▸ List.mem_cons_self)
    exact (visits.after none other absent).transfer (reorders.others different)

/-- A clause whose first literal is true keeps its watcher. -/
theorem Visits.true (noConflict : scan.conflict = none)
    (isTrue : scan.trail.value first = some true) :
    Visits base falseLiteral bound remaining
      { scan with
        store := scan.store.setLiterals reference (first :: falseLiteral :: rest)
        kept := scan.kept.push reference } := by
  obtain ⟨propagates, orientedShaped, own, quiet, quietAfter⟩ :=
    visits.oriented shaped early found paired
  obtain ⟨beforeShaped, stillEarly, stillFound⟩ := visits.context shaped early found
  have member := (beforeShaped.trail.truth first).1 isTrue
  have same := restoreKept base falseLiteral remaining scan reference
    (first :: falseLiteral :: rest) scan.conflict
  refine ⟨?_, ?_, ?_, ?_⟩
  · rw [same]
    exact propagates
  · rw [same]
    exact quiet
  · intro _ other absent
    rw [same]
    by_cases visited : other = reference
    · subst visited
      exact Network.quietTrue orientedShaped stillFound own member stillEarly
    · exact quietAfter noConflict other (by simp [visited, absent])
  · intro conflict some
    simp only [noConflict] at some
    contradiction

/-- A clause whose literals are all false is a conflict. -/
theorem Visits.conflict (isFalse : scan.trail.value first = some false)
    (restFalse : ∀ literal ∈ rest, scan.trail.value literal = some false) :
    Visits base falseLiteral bound remaining
      { scan with
        store := scan.store.setLiterals reference (first :: falseLiteral :: rest)
        kept := scan.kept.push reference
        conflict := some reference } := by
  obtain ⟨propagates, orientedShaped, own, quiet, -⟩ := visits.oriented shaped early found paired
  obtain ⟨beforeShaped, -, stillFound⟩ := visits.context shaped early found
  have same := restoreKept base falseLiteral remaining scan reference
    (first :: falseLiteral :: rest) (some reference)
  refine ⟨?_, ?_, ?_, ?_⟩
  · rw [same]
    exact propagates
  · rw [same]
    exact quiet
  · intro none
    contradiction
  · rintro conflict ⟨⟩
    rw [same]
    refine ⟨ClauseStore.insideOfCons own, ?_⟩
    rw [own]
    intro literal member
    simp only [List.mem_cons] at member
    rcases member with rfl | rfl | inRest
    · exact (beforeShaped.trail.falsehood literal).1 isFalse
    · exact List.mem_of_getElem? stillFound
    · exact (beforeShaped.trail.falsehood literal).1 (restFalse literal inRest)

/-- A clause with one undetermined literal and no true one forces that literal. -/
theorem Visits.unit (noConflict : scan.conflict = none) (unknown : scan.trail.value first = none)
    (restFalse : ∀ literal ∈ rest, scan.trail.value literal = some false) :
    Visits base falseLiteral bound remaining
      { scan with
        store := scan.store.setLiterals reference (first :: falseLiteral :: rest)
        trail := scan.trail.enqueue first (some (.clause reference))
        kept := scan.kept.push reference } := by
  obtain ⟨propagates, orientedShaped, own, quiet, quietAfter⟩ :=
    visits.oriented shaped early found paired
  obtain ⟨beforeShaped, stillEarly, stillFound⟩ := visits.context shaped early found
  have kept := restoreKept base falseLiteral remaining scan reference
    (first :: falseLiteral :: rest) scan.conflict
  have same : restore base falseLiteral remaining
      { scan with
        store := scan.store.setLiterals reference (first :: falseLiteral :: rest)
        trail := scan.trail.enqueue first (some (.clause reference))
        kept := scan.kept.push reference } =
      Network.assign (restore base falseLiteral remaining
        { scan with
          store := scan.store.setLiterals reference (first :: falseLiteral :: rest)
          kept := scan.kept.push reference }) first (some (.clause reference)) := rfl
  rw [kept] at same
  have coherent := orientedShaped.trail
  have unset := (Trail.valueNone _ _).1 unknown
  have proper := orientedShaped.store.properOfCons own
  have inside := proper.inside first List.mem_cons_self
  have size : bound < scan.trail.literals.size := by
    simpa using (List.getElem?_eq_some_iff.1 stillFound).1
  have assigned : base.Propagates (Network.assign ((scan.restore base falseLiteral
      (reference :: remaining)).reorder reference (first :: falseLiteral :: rest)) first
      (some (.clause reference))) := by
    refine .force propagates first (.clause reference) inside unset ?_ ?_
    · intro limit
      have below := stillEarly _ limit
      exact absurd size (Nat.not_lt.2 below)
    · refine ⟨falseLiteral :: rest, own, fun other member => ?_⟩
      rw [Network.trailAssign, Trail.initialEnqueue _ _ _ (Nat.le_refl _),
        Trail.initialAll _ (Nat.le_refl _)]
      rcases List.mem_cons.1 member with rfl | inRest
      · exact List.mem_of_getElem? stillFound
      · exact (beforeShaped.trail.falsehood other).1 (restFalse other inRest)
  have assignedShaped := assigned.shaped shaped
  refine ⟨?_, ?_, ?_, ?_⟩
  · rw [same]
    exact assigned
  · intro other
    rw [same]
    exact Network.quietAssign _ coherent unset (Nat.le_of_lt size) (quiet other)
  · intro _ other absent
    rw [same]
    by_cases visited : other = reference
    · subst visited
      refine Network.quietTrue assignedShaped ?_ own ?_ stillEarly
      · rw [Network.trailAssign, Trail.literalsEnqueue]
        exact (List.getElem?_append_left (List.getElem?_eq_some_iff.1 stillFound).1).trans stillFound
      · rw [Network.trailAssign, Trail.literalsEnqueue]
        exact List.mem_append_right _ List.mem_cons_self
    · exact Network.quietAssign _ coherent unset size
        (quietAfter noConflict other (by simp [visited, absent]))
  · intro conflict some
    simp only [noConflict] at some
    contradiction

/-- A clause with another usable literal is watched by that literal from now on. -/
theorem Visits.moved (noConflict : scan.conflict = none) {watched : Literal} {others : List Literal}
    (exchanged : Clause.exchange (fun literal => scan.trail.value literal != some false)
      falseLiteral rest = some (watched, others)) (different : first ≠ falseLiteral) :
    Visits base falseLiteral bound remaining
      { scan with
        store := (scan.store.setLiterals reference (first :: watched :: others)).watch
          watched reference } := by
  let before := scan.restore base falseLiteral (reference :: remaining)
  let moved : WatchScan := { scan with
    store := (scan.store.setLiterals reference (first :: watched :: others)).watch
      watched reference }
  let after := moved.restore base falseLiteral remaining
  change Visits base falseLiteral bound remaining moved
  obtain ⟨beforeShaped, stillEarly, stillFound⟩ := visits.context shaped early found
  have coherent := beforeShaped.trail
  have isFalse : falseLiteral.negate ∈ scan.trail.literals.toList := List.mem_of_getElem? stillFound
  have absent : falseLiteral ∉ before.trail.literals.toList :=
    Network.falseAbsent beforeShaped stillFound
  obtain ⟨usable, exchangedPermuted⟩ := Clause.exchangePermutes exchanged
  have notFalse : watched.negate ∉ scan.trail.literals.toList := by
    intro member
    have known : scan.trail.value watched = some false := (coherent.falsehood watched).2 member
    rw [known] at usable
    contradiction
  have watchedDiffers : watched ≠ falseLiteral := fun same => notFalse (same ▸ isFalse)
  have beforePaired : Clause.Paired (before.store.literals reference) first falseLiteral rest :=
    paired
  have permuted : List.Perm (first :: watched :: others) (before.store.literals reference) :=
    (exchangedPermuted.cons first).trans beforePaired.permuted
  have inside : reference < before.store.clauses.size :=
    ClauseStore.insideOfMember (permuted.mem_iff.1 List.mem_cons_self)
  have reorders : before.store.Reorders after.store reference (first :: watched :: others) :=
    have set := @ClauseStore.reordersSet scan.store reference inside (first :: watched :: others)
    ⟨set.size, set.clauses⟩
  have known : falseLiteral.negate.atom < before.atomCount := coherent.inside isFalse
  have watching : after.store.Watching before.atomCount :=
    beforeShaped.store.move known paired permuted watchedDiffers
  have rearranged : Network.Rearranged before.trail before.store after.store := by
    apply Network.rearrangedOne reorders permuted
    intro literal tail same member
    have isFirst := beforePaired.leading same fun equal => absent (equal ▸ member)
    exact ⟨_, by rw [isFirst]⟩
  have propagates : base.Propagates after := .rearrange visits.propagates _ watching rearranged
  -- Neither watch has been visited as a false literal, so nothing is to be guarded.
  have firstGuard := Network.firstUnvisited beforeShaped stillFound (visits.before reference)
    beforePaired different
  have quietOwn : after.Quiet (bound + 1) reference := by
    apply Network.quietOfPair reorders.own (fun member => absurd member firstGuard)
    intro member
    exact absurd (Trail.initialMember member) notFalse
  refine ⟨propagates, fun other => ?_, fun _ other missing => ?_, fun conflict some => ?_⟩
  · by_cases same : other = reference
    · subst same
      exact Network.quietMono (Nat.le_succ bound) quietOwn
    · exact (visits.before other).transfer (reorders.others same)
  · by_cases same : other = reference
    · subst same
      exact quietOwn
    · exact (visits.after noConflict other (by simp [same, missing])).transfer (reorders.others same)
  · simp only [moved, noConflict] at some
    contradiction

end Step

/-- A search without a usable literal has seen false literals only. -/
theorem exchangeNone {usable : Literal → Bool} {given : Literal} {literals : List Literal}
    (missing : Clause.exchange usable given literals = none) :
    ∀ literal ∈ literals, usable literal = false := by
  induction literals with
  | nil => simp
  | cons first rest inductionHypothesis =>
      rw [Clause.exchange] at missing
      split at missing
      · contradiction
      · next unusable =>
          rw [Option.map_eq_none_iff] at missing
          intro literal member
          rcases List.mem_cons.1 member with rfl | inRest
          · simpa using unusable
          · exact inductionHypothesis missing literal inRest

section Scan

variable {base : Network} {falseLiteral : Literal} {bound : Nat} (shaped : base.Shaped)
  (early : ∀ limit ∈ base.trail.limits.toList, limit ≤ bound)
  (found : base.trail.literals.toList[bound]? = some falseLiteral.negate)
include shaped early found

/-- A clause that is to be visited has the false literal among its watches. -/
theorem Visits.watched {reference : Nat} {remaining : List Nat} {scan : WatchScan}
    (visits : Visits base falseLiteral bound (reference :: remaining) scan) :
    falseLiteral ∈ (scan.store.literals reference).take 2 := by
  obtain ⟨beforeShaped, -, stillFound⟩ := visits.context shaped early found
  have width := beforeShaped.store.width
  have inside : falseLiteral.negate.atom < _ :=
    beforeShaped.trail.inside (List.mem_of_getElem? stillFound)
  have index : falseLiteral.index < scan.store.watches.size := by
    have own : falseLiteral.index < _ := ClauseStore.indexInside inside
    change _ < 2 * Network.atomCount _ at own
    rw [← width] at own
    simpa [restore, ClauseStore.setWatchers] using own
  apply beforeShaped.store.watcher
  change reference ∈ (scan.store.setWatchers falseLiteral _).watchers falseLiteral
  rw [ClauseStore.watchersSetWatchers _ _ _ index, if_pos rfl]
  simp

/-- The false literal of a clause that is to be visited takes the second place. -/
theorem Visits.orients {reference : Nat} {remaining : List Nat} {scan : WatchScan}
    (visits : Visits base falseLiteral bound (reference :: remaining) scan) :
    ∃ first rest, Clause.orient falseLiteral (scan.store.literals reference) =
        first :: falseLiteral :: rest ∧
      Clause.Paired (scan.store.literals reference) first falseLiteral rest ∧
      first ≠ falseLiteral := by
  obtain ⟨beforeShaped, -, -⟩ := visits.context shaped early found
  have watched := visits.watched shaped early found
  have proper := beforeShaped.store.proper reference
    (ClauseStore.insideOfMember (List.mem_of_mem_take watched))
  exact Clause.orientPaired proper.long proper.nodup watched

/-- Every watcher is visited in one of five ways. -/
theorem Visits.step {reference : Nat} {remaining : List Nat} {scan : WatchScan}
    (visits : Visits base falseLiteral bound (reference :: remaining) scan) :
    Visits base falseLiteral bound remaining (scan.step falseLiteral reference) := by
  obtain ⟨beforeShaped, -, -⟩ := visits.context shaped early found
  rw [WatchScan.step]
  cases conflict : scan.conflict with
  | some clash =>
      rw [Option.isSome_some, if_pos rfl]
      have skipped := visits.skip (by rw [conflict]; rfl)
      rwa [conflict] at skipped
  | none =>
      rw [Option.isSome_none, if_neg Bool.false_ne_true]
      have live : (scan.store.clause reference).deleted = false := beforeShaped.store.live reference
      rw [ClauseStore.clause] at live
      simp only [live, Bool.false_eq_true, if_false]
      obtain ⟨first, rest, oriented, paired, different⟩ := visits.orients shaped early found
      have literals : Clause.orient falseLiteral (scan.store.clauses.getD reference default).literals =
          first :: falseLiteral :: rest := oriented
      rw [literals]
      simp only [examine]
      split
      · next isTrue => exact visits.true shaped early found paired conflict isTrue
      · next notTrue =>
          split
          · next watched others exchanged =>
              exact visits.moved shaped early found paired conflict exchanged different
          · next missing =>
              have restFalse : ∀ literal ∈ rest, scan.trail.value literal = some false := by
                intro literal member
                simpa using exchangeNone missing literal member
              split
              · next isFalse => exact visits.conflict shaped early found paired isFalse restFalse
              · next notFalse =>
                  have unknown : scan.trail.value first = none := by
                    cases known : scan.trail.value first with
                    | none => rfl
                    | some truth => cases truth <;> simp_all
                  exact visits.unit shaped early found paired conflict unknown restFalse

theorem Visits.run (remaining : List Nat) (scan : WatchScan)
    (visits : Visits base falseLiteral bound remaining scan) :
    Visits base falseLiteral bound [] (remaining.foldl (WatchScan.step falseLiteral) scan) := by
  induction remaining generalizing scan with
  | nil => exact visits
  | cons reference rest inductionHypothesis =>
      exact inductionHypothesis _ (visits.step shaped early found)

end Scan

end WatchScan

end ParitySat
