/-
This file shows that propagation runs to a fixpoint or to a violated constraint.
-/

import ParitySat.Proofs.Engine.Watches

namespace ParitySat

namespace ClauseStore

/-- Watchers that are taken out and put back leave the store as it was. -/
theorem setWatchersBack (store : ClauseStore) (literal : Literal) (references : Array Nat) :
    (store.setWatchers literal references).setWatchers literal (store.watchers literal) =
      store := by
  have same : (store.watches.setIfInBounds literal.index references).setIfInBounds literal.index
      (store.watchers literal) = store.watches := by
    apply Array.ext (by simp)
    intro index _ inside
    rw [Array.getElem_setIfInBounds (by simpa using inside),
      Array.getElem_setIfInBounds (by simpa using inside), watchers]
    split
    · next own =>
        subst own
        simp [inside]
    · rfl
  simp only [setWatchers, same]

end ClauseStore

/-- The visit to a watcher never moves the head. -/
theorem WatchScan.headStep (falseLiteral : Literal) (scan : WatchScan) (reference : Nat) :
    (scan.step falseLiteral reference).trail.head = scan.trail.head := by
  simp only [step, examine]
  repeat' split
  all_goals rfl

theorem WatchScan.headRun (falseLiteral : Literal) (references : List Nat) (scan : WatchScan) :
    (references.foldl (WatchScan.step falseLiteral) scan).trail.head = scan.trail.head := by
  induction references generalizing scan with
  | nil => rfl
  | cons reference rest inductionHypothesis =>
      rw [List.foldl_cons, inductionHypothesis, headStep]

namespace Network

theorem headPropagateClauses (network : Network) (falseLiteral : Literal) :
    (network.propagateClauses falseLiteral).2.trail.head = network.trail.head :=
  WatchScan.headRun falseLiteral _ _

/-- A clause that does not watch the false literal stays quiet at its position. -/
theorem quietUnwatched {network : Network} {bound reference : Nat} {falseLiteral : Literal}
    (shaped : network.Shaped)
    (found : network.trail.literals.toList[bound]? = some falseLiteral.negate)
    (quiet : network.Quiet bound reference)
    (absent : reference ∉ network.store.watchers falseLiteral) :
    network.Quiet (bound + 1) reference := by
  intro first second rest same
  obtain ⟨left, right⟩ := quiet first second rest same
  have unwatched (watch : Literal) (member : watch ∈ [first, second]) :
      watch.negate ≠ falseLiteral.negate := by
    intro equal
    have own := congrArg Literal.negate equal
    rw [Literal.negateNegate, Literal.negateNegate] at own
    subst own
    refine absent (shaped.store.listed ?_)
    rw [same]
    exact member
  refine ⟨fun member => left ?_, fun member => right ?_⟩
  · exact ((Trail.memberInitialSucc found).1 member).resolve_right (unwatched first (by simp))
  · exact ((Trail.memberInitialSucc found).1 member).resolve_right (unwatched second (by simp))

section Literal

variable {network : Network} {bound : Nat} {falseLiteral : Literal} (shaped : network.Shaped)
  (found : network.trail.literals.toList[bound]? = some falseLiteral.negate)
  (quiet : ∀ reference, network.Quiet bound reference)
include shaped found quiet

/-- At the beginning of a scan no watcher has been visited. -/
theorem startVisits : WatchScan.Visits network falseLiteral bound
    (network.store.watchers falseLiteral).toList
    ⟨network.store.setWatchers falseLiteral #[], network.trail, #[], none⟩ := by
  let start : WatchScan :=
    ⟨network.store.setWatchers falseLiteral #[], network.trail, #[], none⟩
  let watchers := (network.store.watchers falseLiteral).toList
  have whole : start.restore network falseLiteral watchers = network := by
    have store : start.store.setWatchers falseLiteral (start.kept ++ watchers.toArray) =
        network.store := by
      simp only [start, watchers, Array.toArray_toList, Array.empty_append]
      exact network.store.setWatchersBack falseLiteral #[]
    simp only [WatchScan.restore, store]
    rfl
  change WatchScan.Visits network falseLiteral bound watchers start
  refine ⟨?_, ?_, ?_, ?_⟩
  · rw [whole]
    exact .refl
  · rw [whole]
    exact quiet
  · intro _ reference absent
    rw [whole]
    refine quietUnwatched shaped found (quiet reference) fun member => absent ?_
    exact Array.mem_toList_iff.2 member
  · intro reference conflict
    exact absurd conflict (by simp [start])

/-- A visit to all the watchers leaves no clause waiting for the false literal. -/
theorem propagateClausesSpec (early : ∀ limit ∈ network.trail.limits.toList, limit ≤ bound) :
    network.Propagates (network.propagateClauses falseLiteral).2 ∧
      (∀ reference, (network.propagateClauses falseLiteral).2.Quiet bound reference) ∧
      ((network.propagateClauses falseLiteral).1 = none →
        ∀ reference, (network.propagateClauses falseLiteral).2.Quiet (bound + 1) reference) ∧
      ∀ reference, (network.propagateClauses falseLiteral).1 = some reference →
        (network.propagateClauses falseLiteral).2.Falsified reference := by
  let start : WatchScan :=
    ⟨network.store.setWatchers falseLiteral #[], network.trail, #[], none⟩
  let watchers := (network.store.watchers falseLiteral).toList
  let scan := watchers.foldl (WatchScan.step falseLiteral) start
  have visited := (startVisits shaped found quiet).run shaped early found watchers start
  have result : (network.propagateClauses falseLiteral).2 =
      scan.restore network falseLiteral [] := by
    have kept : scan.kept ++ ([] : List Nat).toArray = scan.kept := by simp
    simp only [WatchScan.restore, kept]
    rfl
  rw [result]
  exact ⟨visited.propagates, visited.before,
    fun none reference => visited.after none reference (by simp), visited.clash⟩

end Literal

/-- A longer trail keeps the clauses quiet and the parity constraints settled. -/
structure Extends (before after : Network) : Prop where
  propagates : before.Propagates after
  head : after.trail.head = before.trail.head
  longer : before.trail.literals.size ≤ after.trail.literals.size
  quiet : ∀ bound reference, bound ≤ before.trail.literals.size →
    before.Quiet bound reference → after.Quiet bound reference
  settled : ∀ low index, low ≤ before.trail.literals.size →
    before.Settled low before.trail.literals.size index →
    after.Settled low after.trail.literals.size index

theorem Extends.refl (network : Network) : network.Extends network where
  propagates := .refl
  head := rfl
  longer := Nat.le_refl _
  quiet _ _ _ quiet := quiet
  settled _ _ _ settled := settled

theorem Extends.trans {first second third : Network} (left : first.Extends second)
    (right : second.Extends third) : first.Extends third where
  propagates := left.propagates.trans right.propagates
  head := right.head.trans left.head
  longer := Nat.le_trans left.longer right.longer
  quiet bound reference below quiet :=
    right.quiet bound reference (Nat.le_trans below left.longer)
      (left.quiet bound reference below quiet)
  settled low index below settled :=
    right.settled low index (Nat.le_trans below left.longer)
      (left.settled low index below settled)

/-- A constraint with two undetermined atoms does not wait for anything. -/
theorem settledOpen {network : Network} (coherent : network.trail.Coherent)
    {low high index first second : Nat}
    (firstIn : first ∈ (network.parities.constraint index).atoms)
    (secondIn : second ∈ (network.parities.constraint index).atoms) (different : first ≠ second)
    (firstFree : network.trail.atomValue first = none)
    (secondFree : network.trail.atomValue second = none) : network.Settled low high index := by
  intro spare others
  exfalso
  by_cases same : first = spare
  · have value := listsKnown coherent
      (others second secondIn fun equal => different (same.trans equal.symm))
    rw [secondFree] at value
    contradiction
  · have value := listsKnown coherent (others first firstIn same)
    rw [firstFree] at value
    contradiction

section Parities

variable {network : Network} (shaped : network.Shaped)
  (early : ∀ limit ∈ network.trail.limits.toList, limit < network.trail.literals.size)
include shaped early

/-- A forced literal extends the trail and settles its constraint. -/
theorem extendsForced {index : Nat} {literal : Literal}
    (forced : ParityConstraint.Forced network.trail.atomValue
      (network.parities.constraint index) literal) :
    network.Extends (network.assign literal (some (.parity index))) ∧
      (network.assign literal (some (.parity index))).Settled
        (network.assign literal (some (.parity index))).trail.literals.size
        (network.assign literal (some (.parity index))).trail.literals.size index := by
  let after := network.assign literal (some (.parity index))
  have coherent := shaped.trail
  have inside := shaped.parities.inside index literal.atom forced.member
  have afterCoherent : after.trail.Coherent := coherent.enqueue _ inside forced.unknown
  have longer : network.trail.literals.size ≤
      (network.assign literal (some (.parity index))).trail.literals.size := by
    simp [Trail.enqueue]
  have listed (atom : Nat) (member : atom ∈ (network.parities.constraint index).atoms)
      (different : atom ≠ literal.atom) :
      network.trail.Lists network.trail.literals.size atom :=
    listsOfKnown coherent (forced.others atom member different)
  have right : (network.parities.constraint index).holds after.trail.assignment = true := by
    refine forced.restores _ ?_ fun atom member different => ?_
    · apply holdsAssignment afterCoherent
      rw [trailAssign, Trail.literalsEnqueue]
      exact List.mem_append_right _ List.mem_cons_self
    · rw [assignmentAssign _ (Ne.symm different)]
      exact listsKnown coherent (listed atom member different)
  have allListed (atom : Nat) (member : atom ∈ (network.parities.constraint index).atoms) :
      after.trail.Lists after.trail.literals.size atom := by
    by_cases same : atom = literal.atom
    · refine ⟨literal, ?_, same.symm⟩
      rw [Trail.initialAll _ (Nat.le_refl _), trailAssign, Trail.literalsEnqueue]
      exact List.mem_append_right _ List.mem_cons_self
    · exact listsMono longer
        ((listsAssign _ (Nat.le_refl _)).2 (listed atom member same))
  refine ⟨⟨?_, rfl, longer, fun bound reference below quiet => ?_, fun low other below settled => ?_⟩,
    fun spare _ => ⟨allListed, right⟩⟩
  · refine .force .refl literal (.parity index) inside forced.unknown ?_ ?_
    · exact fun limit => absurd (early _ limit) (Nat.lt_irrefl _)
    · refine ⟨forced.member, fun atom member different => ?_, right⟩
      exact (listsAssign _ (Nat.le_refl _)).2 (listed atom member different)
  · exact quietAssign _ coherent forced.unknown below quiet
  · exact settledMono longer
      (settledAssign _ coherent forced.unknown below (Nat.le_refl _) settled)

/-- A visit leaves every visited constraint settled unless one is violated. -/
theorem propagateParitiesSpec (indices : List Nat) :
    network.Extends (network.propagateParities indices).2 ∧
      ((network.propagateParities indices).1 = none → ∀ index ∈ indices,
        (network.propagateParities indices).2.Settled network.trail.literals.size
          (network.propagateParities indices).2.trail.literals.size index) ∧
      ∀ index, (network.propagateParities indices).1 = some index →
        (network.propagateParities indices).2.Violated (.parity index) := by
  induction indices generalizing network with
  | nil => exact ⟨.refl network, by simp [propagateParities], by simp [propagateParities]⟩
  | cons index rest inductionHypothesis =>
      have coherent := shaped.trail
      have status := ParityConstraint.statusSpec network.trail.atomValue
        (shaped.parities.distinct index)
      rw [propagateParities]
      cases known : (network.parities.constraint index).status network.trail.atomValue with
      | undecided =>
          rw [known] at status
          simp only at status ⊢
          have settled : network.Settled network.trail.literals.size network.trail.literals.size
              index := by
            rcases status with ⟨all, right⟩ | ⟨first, firstIn, second, secondIn, different, free⟩
            · intro spare _
              exact ⟨fun atom member => listsOfKnown coherent (all atom member), right⟩
            · exact settledOpen coherent firstIn secondIn different free.1 free.2
          obtain ⟨extends_, visited, violated⟩ := inductionHypothesis shaped early
          refine ⟨extends_, fun none other member => ?_, violated⟩
          rcases List.mem_cons.1 member with rfl | inRest
          · exact extends_.settled _ _ (Nat.le_refl _) settled
          · exact visited none other inRest
      | forces literal =>
          rw [known] at status
          simp only at status ⊢
          obtain ⟨first, settled⟩ := extendsForced shaped early status
          have limits := first.propagates.frame.1
          have size : (network.assign literal (some (.parity index))).trail.literals.size =
              network.trail.literals.size + 1 := by
            simp [Trail.enqueue]
          have nextEarly : ∀ limit ∈ (network.assign literal (some (.parity index))).trail.limits.toList,
              limit < (network.assign literal (some (.parity index))).trail.literals.size := by
            intro limit member
            rw [limits] at member
            have below := early limit member
            omega
          obtain ⟨second, visited, violated⟩ :=
            inductionHypothesis (first.propagates.shaped shaped) nextEarly
          refine ⟨first.trans second, fun none other member => ?_, violated⟩
          rcases List.mem_cons.1 member with rfl | inRest
          · exact settledLow (second.settled _ _ (Nat.le_refl _) settled) first.longer
          · exact settledLow (visited none other inRest) first.longer
      | violated =>
          rw [known] at status
          simp only at status ⊢
          refine ⟨.refl network, by simp, fun other same => ?_⟩
          cases same
          exact ⟨fun atom member => listsOfKnown coherent (status.1 atom member), status.2⟩

end Parities

/-- No constraint waits for anything but the literals behind the head. -/
structure Ready (network : Network) : Prop where
  shaped : network.Shaped
  quiet : ∀ reference, network.Quiet network.trail.head reference
  settled : ∀ index, network.Settled network.trail.head network.trail.literals.size index

/-- A propagation either moves the head on or finds a violated constraint. -/
structure Propagated (start : Network) (outcome : Option Reason) (network : Network) : Prop where
  propagates : start.Propagates network
  quiet : ∀ reference, network.Quiet start.trail.head reference
  violated : ∀ conflict, outcome = some conflict → network.Violated conflict

/-- At the beginning of every level no constraint was waiting. -/
structure Stable (network : Network) : Prop where
  shaped : network.Shaped
  quiet : ∀ limit ∈ network.trail.limits.toList, ∀ reference, network.Quiet limit reference

theorem Ready.stable {network : Network} (ready : network.Ready) : network.Stable where
  shaped := ready.shaped
  quiet limit member reference :=
    quietMono (ready.shaped.trail.propagated limit member) (ready.quiet reference)

theorem Propagated.stable {start network : Network} {outcome : Option Reason}
    (propagated : start.Propagated outcome network) (shaped : start.Shaped) :
    network.Stable where
  shaped := propagated.propagates.shaped shaped
  quiet limit member reference := by
    rw [propagated.propagates.frame.1] at member
    exact quietMono (shaped.trail.propagated limit member) (propagated.quiet reference)

/-- A parity constraint without the next literal does not wait for it. -/
theorem settledSkip {network : Network} {low high index : Nat} {literal : Literal}
    (found : network.trail.literals.toList[low]? = some literal)
    (absent : literal.atom ∉ (network.parities.constraint index).atoms)
    (settled : network.Settled low high index) : network.Settled (low + 1) high index := by
  intro spare others
  apply settled spare
  intro atom listed different
  obtain ⟨other, initial, rfl⟩ := others atom listed different
  refine ⟨other, ((Trail.memberInitialSucc found).1 initial).resolve_right ?_, rfl⟩
  rintro rfl
  exact absent listed

/-- A limit before the last literal stays before it. -/
theorem Propagates.stillEarly {base after : Network} (propagates : base.Propagates after)
    (shaped : base.Shaped) {bound : Nat} (inside : bound < base.trail.literals.size)
    (early : ∀ limit ∈ base.trail.limits.toList, limit ≤ bound) :
    ∀ limit ∈ after.trail.limits.toList, limit < after.trail.literals.size := by
  intro limit member
  rw [propagates.frame.1] at member
  exact Nat.lt_of_lt_of_le (Nat.lt_of_le_of_lt (early limit member) inside)
    (propagates.longer shaped)

section Loop

variable {network : Network} (ready : network.Ready)
include ready

/-- The next literal is the one to which everything before the head has led. -/
theorem advanceSpec {literal : Literal}
    (found : network.trail.literals[network.trail.head]? = some literal) :
    network.Propagates network.advance ∧ network.advance.Shaped ∧
      (∀ limit ∈ network.advance.trail.limits.toList, limit ≤ network.trail.head) ∧
      network.advance.trail.literals.toList[network.trail.head]? = some literal.negate.negate ∧
      ∀ reference, network.advance.Quiet network.trail.head reference := by
  have inside : network.trail.head < network.trail.literals.size :=
    (Array.getElem?_eq_some_iff.1 found).1
  have advanced : network.Propagates network.advance :=
    .advance .refl _ _ (Nat.le_succ _) inside
  refine ⟨advanced, advanced.shaped ready.shaped, ready.shaped.trail.propagated, ?_, ready.quiet⟩
  rw [Literal.negateNegate, Array.getElem?_toList]
  exact found

/-- The constraints wait for the next literal no longer once it is propagated. -/
theorem propagateLiteralSpec {literal : Literal}
    (found : network.trail.literals[network.trail.head]? = some literal) :
    network.Propagated (network.advance.propagateLiteral literal).1
        (network.advance.propagateLiteral literal).2 ∧
      ((network.advance.propagateLiteral literal).1 = none →
        (network.advance.propagateLiteral literal).2.Ready ∧
          (network.advance.propagateLiteral literal).2.trail.head = network.trail.head + 1) := by
  have inside : network.trail.head < network.trail.literals.size :=
    (Array.getElem?_eq_some_iff.1 found).1
  obtain ⟨advanced, shaped, early, position, quiet⟩ := advanceSpec ready found
  obtain ⟨propagates, before, after, clash⟩ := propagateClausesSpec shaped position quiet early
  have head := headPropagateClauses network.advance literal.negate
  rw [propagateLiteral]
  generalize same : network.advance.propagateClauses literal.negate = visited at *
  obtain ⟨conflict, clauses⟩ := visited
  cases conflict with
  | some reference =>
      refine ⟨⟨advanced.trans propagates, before, ?_⟩, by simp⟩
      rintro conflict ⟨⟩
      exact clash reference rfl
  | none =>
      simp only at propagates before after head ⊢
      have clausesShaped := propagates.shaped shaped
      have longer : network.trail.literals.size ≤ clauses.trail.literals.size :=
        propagates.longer shaped
      have parities : clauses.parities = network.parities := propagates.frame.2.1
      have stillEarly := propagates.stillEarly shaped inside early
      obtain ⟨extends_, settled, violated⟩ := propagateParitiesSpec clausesShaped stillEarly
        (clauses.parities.occurrencesOf literal.atom).toList
      refine ⟨⟨(advanced.trans propagates).trans extends_.propagates, fun reference => ?_, ?_⟩,
        fun none => ?_⟩
      · exact extends_.quiet _ _ (by omega) (before reference)
      · intro conflict some
        obtain ⟨index, found, rfl⟩ := Option.map_eq_some_iff.1 some
        exact violated index found
      · rw [Option.map_eq_none_iff] at none
        have headAfter := extends_.head.trans head
        change _ = network.trail.head + 1 at headAfter
        refine ⟨⟨extends_.propagates.shaped clausesShaped, fun reference => ?_, fun index => ?_⟩,
          headAfter⟩
        · rw [headAfter]
          exact extends_.quiet _ _ (by omega) (after trivial reference)
        · rw [headAfter]
          by_cases member : literal.atom ∈ (network.parities.constraint index).atoms
          · refine settledLow (settled none index ?_) (by omega)
            rw [Array.mem_toList_iff, clausesShaped.parities.occurs, parities]
            exact member
          · have still := extends_.settled network.trail.head index (by omega)
              (settledMono longer (propagates.settled shaped (Nat.le_of_lt inside)
                (Nat.le_refl _) (ready.settled index)))
            have last := extends_.propagates.found clausesShaped (propagates.found shaped position)
            rw [Literal.negateNegate] at last
            refine settledSkip last ?_ still
            rw [extends_.propagates.frame.2.1, parities]
            exact member

/-- Any number of steps keeps what is known. -/
theorem propagateLoopSpec (fuel : Nat) :
    network.Propagated (network.propagateLoop fuel).1 (network.propagateLoop fuel).2 ∧
      ((network.propagateLoop fuel).1 = none → (network.propagateLoop fuel).2.Ready ∧
        min (network.trail.head + fuel) (network.propagateLoop fuel).2.trail.literals.size ≤
          (network.propagateLoop fuel).2.trail.head) := by
  induction fuel generalizing network with
  | zero =>
      refine ⟨⟨.refl, ready.quiet, by simp [propagateLoop]⟩, fun _ => ⟨ready, ?_⟩⟩
      exact Nat.min_le_left _ _
  | succ fuel inductionHypothesis =>
      rw [propagateLoop]
      cases found : network.trail.literals[network.trail.head]? with
      | none =>
          refine ⟨⟨.refl, ready.quiet, by simp⟩, fun _ => ⟨ready, ?_⟩⟩
          have outside := Array.getElem?_eq_none_iff.1 found
          exact Nat.le_trans (Nat.min_le_right _ _) outside
      | some literal =>
          obtain ⟨visited, after⟩ := propagateLiteralSpec ready found
          simp only
          generalize network.advance.propagateLiteral literal = result at *
          obtain ⟨outcome, next⟩ := result
          cases outcome with
          | some conflict =>
              have bounded := (visited.propagates.shaped ready.shaped).trail.bounded
              refine ⟨⟨.advance visited.propagates _ _ bounded (Nat.le_refl _), visited.quiet, ?_⟩,
                by simp⟩
              rintro other ⟨⟩
              exact visited.violated conflict rfl
          | none =>
              obtain ⟨nextReady, head⟩ := after rfl
              obtain ⟨rest, fixpoint⟩ := inductionHypothesis nextReady
              simp only at head rest fixpoint ⊢
              refine ⟨⟨visited.propagates.trans rest.propagates, fun reference => ?_,
                rest.violated⟩, fun none => ?_⟩
              · exact quietMono (by omega) (rest.quiet reference)
              · obtain ⟨finalReady, reached⟩ := fixpoint none
                exact ⟨finalReady, by omega⟩

/-- Propagation ends with all literals propagated or with a violated constraint. -/
theorem propagateSpec :
    network.Propagated network.propagate.1 network.propagate.2 ∧
      (network.propagate.1 = none → network.propagate.2.Ready ∧
        network.propagate.2.trail.head = network.propagate.2.trail.literals.size) := by
  obtain ⟨propagated, fixpoint⟩ := propagateLoopSpec ready
    (network.atomCount - network.trail.head)
  refine ⟨propagated, fun none => ?_⟩
  obtain ⟨after, reached⟩ := fixpoint none
  refine ⟨after, ?_⟩
  have size := after.shaped.trail.sizeLe
  have atoms := propagated.propagates.frame.2.2.1
  have bounded := after.shaped.trail.bounded
  have start := ready.shaped.trail.bounded
  rw [← propagate] at reached size atoms bounded
  simp only [atomCount] at atoms reached
  omega

end Loop

end Network

end ParitySat
