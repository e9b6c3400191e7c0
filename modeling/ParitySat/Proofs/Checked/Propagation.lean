/-
This file shows that propagation visits existing constraints only and assigns no atom twice.
-/

import ParitySat.Proofs.Checked.Fault
import ParitySat.Proofs.Engine.Propagation

namespace ParitySat.Checked

def value (trail : Trail) (literal : Literal) : Except Fault Truth := do
  within trail.atoms literal.atom
  return trail.value literal

/-- Only an undetermined atom may be assigned. -/
def enqueue (trail : Trail) (literal : Literal) (reason : Option Reason) : Except Fault Trail := do
  within trail.atoms literal.atom
  require (trail.atomValue literal.atom = none) .reassigned
  return trail.enqueue literal reason

/-- A clause that gets another watch needs a watch list for it, and a forced literal needs a free
atom. -/
def examine (scan : WatchScan) (reference : Nat) (first second : Literal) (rest : List Literal) :
    Except Fault WatchScan := do
  if (← value scan.trail first) = some true then return scan.examine reference first second rest
  else
    each (fun literal => within scan.trail.atoms literal.atom) rest
    match Clause.exchange (fun literal => scan.trail.value literal != some false) second rest with
    | some (watched, _) =>
      within scan.store.watches watched.index
      return scan.examine reference first second rest
    | none =>
      if scan.trail.value first = some false then return scan.examine reference first second rest
      else
        let trail ← enqueue scan.trail first (some (.clause reference))
        return { scan.examine reference first second rest with trail }

/-- A visited clause has two literals at least. -/
def visit (falseLiteral : Literal) (scan : WatchScan) (reference : Nat) :
    Except Fault WatchScan := do
  if scan.conflict.isSome then return scan.step falseLiteral reference
  else
    within scan.store.clauses reference
    if (scan.store.clause reference).deleted then return scan
    else
      match Clause.orient falseLiteral (scan.store.literals reference) with
      | first :: second :: rest => examine scan reference first second rest
      | _ => .error .outOfBounds

def propagateClauses (network : Network) (falseLiteral : Literal) :
    Except Fault (Option Nat × Network) := do
  within network.store.watches falseLiteral.index
  let scan ← (network.store.watchers falseLiteral).toList.foldlM (visit falseLiteral)
    ⟨network.store.setWatchers falseLiteral #[], network.trail, #[], none⟩
  return (scan.conflict,
    { network with
      store := scan.store.setWatchers falseLiteral scan.kept
      trail := scan.trail })

def propagateParities (network : Network) : List Nat → Except Fault (Option Nat × Network)
  | [] => return (none, network)
  | index :: rest => do
    within network.parities.constraints index
    each (within network.trail.atoms) (network.parities.constraint index).atoms
    match (network.parities.constraint index).status network.trail.atomValue with
    | .undecided => propagateParities network rest
    | .forces literal =>
      let trail ← enqueue network.trail literal (some (.parity index))
      propagateParities { network with trail } rest
    | .violated => return (some index, network)

def propagateLiteral (network : Network) (literal : Literal) :
    Except Fault (Option Reason × Network) := do
  match ← propagateClauses network literal.negate with
  | (some reference, network) => return (some (.clause reference), network)
  | (none, network) =>
    within network.parities.occurrences literal.atom
    let visited ← propagateParities network (network.parities.occurrencesOf literal.atom).toList
    return (visited.1.map .parity, visited.2)

def propagateLoop : Nat → Network → Except Fault (Option Reason × Network)
  | 0, network => return (none, network)
  | fuel + 1, network =>
    match network.trail.literals[network.trail.head]? with
    | none => return (none, network)
    | some literal => do
      match ← propagateLiteral network.advance literal with
      | (some conflict, network) => return (some conflict, network.exhaust)
      | (none, network) => propagateLoop fuel network

def propagate (network : Network) : Except Fault (Option Reason × Network) :=
  propagateLoop (network.atomCount - network.trail.head) network

theorem valueSafe {trail : Trail} {literal : Literal} (inside : literal.atom < trail.atoms.size) :
    value trail literal = .ok (trail.value literal) := by
  rw [value, withinMet inside, okBind, pureOk]

theorem enqueueSafe {trail : Trail} {literal : Literal} (inside : literal.atom < trail.atoms.size)
    (unknown : trail.atomValue literal.atom = none) (reason : Option Reason) :
    enqueue trail literal reason = .ok (trail.enqueue literal reason) := by
  rw [enqueue, withinMet inside, okBind, requireMet unknown, okBind, pureOk]

example : enqueue (Trail.empty.grow.enqueue ⟨0, false⟩ none) ⟨0, true⟩ none =
    .error .reassigned := rfl

theorem examineSafe {scan : WatchScan} (width : scan.store.watches.size = 2 * scan.trail.atoms.size)
    {first second : Literal} {rest : List Literal}
    (inside : ∀ literal ∈ first :: second :: rest, literal.atom < scan.trail.atoms.size)
    (reference : Nat) :
    examine scan reference first second rest = .ok (scan.examine reference first second rest) := by
  have firstInside := inside first List.mem_cons_self
  have others : each (fun literal => within scan.trail.atoms literal.atom) rest = .ok () :=
    eachMet fun literal member =>
      withinMet (inside literal (List.mem_cons_of_mem _ (List.mem_cons_of_mem _ member)))
  simp only [examine, valueSafe firstInside, others, okBind]
  by_cases isTrue : scan.trail.value first = some true
  · rw [if_pos isTrue, pureOk]
  · rw [if_neg isTrue]
    cases exchanged : Clause.exchange (fun literal => scan.trail.value literal != some false)
        second rest with
    | some found =>
        obtain ⟨watched, left⟩ := found
        have member : watched ∈ second :: rest :=
          (Clause.exchangePermutes exchanged).2.mem_iff.1 List.mem_cons_self
        have known := ClauseStore.indexInside (inside watched (List.mem_cons_of_mem _ member))
        simp only
        rw [withinMet (width ▸ known), okBind, pureOk]
    | none =>
        simp only
        by_cases isFalse : scan.trail.value first = some false
        · rw [if_pos isFalse, pureOk]
        · have unknown : scan.trail.value first = none := by
            cases known : scan.trail.value first with
            | none => rfl
            | some truth => cases truth <;> simp_all
          rw [if_neg isFalse, enqueueSafe firstInside ((Trail.valueNone _ _).1 unknown), okBind,
            pureOk]
          simp only [WatchScan.examine, if_neg isTrue, exchanged, if_neg isFalse]

section Scan

variable {base : Network} {falseLiteral : Literal} {bound : Nat} (shaped : base.Shaped)
  (early : ∀ limit ∈ base.trail.limits.toList, limit ≤ bound)
  (found : base.trail.literals.toList[bound]? = some falseLiteral.negate)
include shaped early found

theorem visitSafe {reference : Nat} {remaining : List Nat} {scan : WatchScan}
    (visits : scan.Visits base falseLiteral bound (reference :: remaining)) :
    visit falseLiteral scan reference = .ok (scan.step falseLiteral reference) := by
  obtain ⟨beforeShaped, -, -⟩ := visits.context shaped early found
  obtain ⟨first, rest, oriented, paired, -⟩ := visits.orients shaped early found
  have inside : reference < scan.store.clauses.size :=
    ClauseStore.insideOfMember (paired.permuted.mem_iff.1 List.mem_cons_self)
  have live : (scan.store.clause reference).deleted = false := beforeShaped.store.live reference
  have width : scan.store.watches.size = 2 * scan.trail.atoms.size :=
    Array.size_setIfInBounds.symm.trans beforeShaped.store.width
  rw [visit]
  split
  · rfl
  · next quiet =>
      rw [withinMet inside, okBind, if_neg (by rw [live]; exact Bool.false_ne_true), oriented]
      simp only
      rw [examineSafe width fun literal member =>
        (beforeShaped.store.proper reference inside).inside literal
          (paired.permuted.mem_iff.1 member)]
      rw [ClauseStore.clause] at live
      have literals : Clause.orient falseLiteral
          (scan.store.clauses.getD reference default).literals = first :: falseLiteral :: rest :=
        oriented
      simp only [WatchScan.step, if_neg quiet, live, Bool.false_eq_true, if_false, literals]

theorem visitAllSafe (remaining : List Nat) (scan : WatchScan)
    (visits : scan.Visits base falseLiteral bound remaining) :
    remaining.foldlM (visit falseLiteral) scan =
      .ok (remaining.foldl (WatchScan.step falseLiteral) scan) := by
  induction remaining generalizing scan with
  | nil => rfl
  | cons reference rest inductionHypothesis =>
      -- The invariant of the scan speaks about the references that are left.
      rw [List.foldlM_cons, visitSafe shaped early found visits, okBind]
      exact inductionHypothesis _ (visits.step shaped early found)

theorem propagateClausesSafe (quiet : ∀ reference, base.Quiet bound reference) :
    propagateClauses base falseLiteral = .ok (base.propagateClauses falseLiteral) := by
  have known : falseLiteral.negate.atom < base.trail.atoms.size :=
    shaped.trail.inside (List.mem_of_getElem? found)
  have inside : falseLiteral.index < base.store.watches.size := by
    rw [shaped.store.width]
    exact ClauseStore.indexInside known
  have visited := visitAllSafe shaped early found _ _ (Network.startVisits shaped found quiet)
  rw [propagateClauses, withinMet inside, okBind, visited]
  rfl

end Scan

theorem propagateParitiesSafe {network : Network} (shaped : network.Shaped)
    (early : ∀ limit ∈ network.trail.limits.toList, limit < network.trail.literals.size)
    {indices : List Nat} (inside : ∀ index ∈ indices, index < network.parities.constraints.size) :
    propagateParities network indices = .ok (network.propagateParities indices) := by
  induction indices generalizing network with
  | nil => rfl
  | cons index rest inductionHypothesis =>
      have status := ParityConstraint.statusSpec network.trail.atomValue
        (shaped.parities.distinct index)
      have atoms : each (within network.trail.atoms) (network.parities.constraint index).atoms =
          .ok () :=
        eachMet fun atom member => withinMet (shaped.parities.inside index atom member)
      have later (other : Nat) (member : other ∈ rest) :=
        inside other (List.mem_cons_of_mem _ member)
      rw [propagateParities, Network.propagateParities, withinMet (inside index List.mem_cons_self),
        okBind, atoms, okBind]
      cases known : (network.parities.constraint index).status network.trail.atomValue with
      | undecided => exact inductionHypothesis shaped early later
      | violated => rfl
      | forces literal =>
          rw [known] at status
          simp only at status ⊢
          have free := shaped.parities.inside index literal.atom status.member
          obtain ⟨first, -⟩ := Network.extendsForced shaped early status
          have nextEarly :
              ∀ limit ∈ (network.assign literal (some (.parity index))).trail.limits.toList,
              limit < (network.assign literal (some (.parity index))).trail.literals.size := by
            intro limit member
            rw [first.propagates.frame.1] at member
            exact Nat.lt_of_lt_of_le (early limit member) first.longer
          rw [enqueueSafe free status.unknown, okBind]
          exact inductionHypothesis (first.propagates.shaped shaped) nextEarly later

section Loop

variable {network : Network} (ready : network.Ready)
include ready

theorem propagateLiteralSafe {literal : Literal}
    (found : network.trail.literals[network.trail.head]? = some literal) :
    propagateLiteral network.advance literal = .ok (network.advance.propagateLiteral literal) := by
  obtain ⟨-, shaped, early, position, quiet⟩ := Network.advanceSpec ready found
  obtain ⟨propagates, -⟩ := Network.propagateClausesSpec shaped position quiet early
  rw [propagateLiteral, Network.propagateLiteral,
    propagateClausesSafe shaped early position quiet, okBind]
  have headInside : network.trail.head < network.advance.trail.literals.size :=
    (Array.getElem?_eq_some_iff.1 found).1
  have clausesShaped := propagates.shaped shaped
  have stillEarly := propagates.stillEarly shaped headInside early
  have atoms : (network.advance.propagateClauses literal.negate).2.trail.atoms.size =
      network.advance.trail.atoms.size := propagates.frame.2.2.1
  generalize network.advance.propagateClauses literal.negate = visited at *
  obtain ⟨conflict, clauses⟩ := visited
  cases conflict with
  | some reference => rfl
  | none =>
      simp only at clausesShaped stillEarly atoms ⊢
      have known : literal.atom < network.trail.atoms.size := by
        have member : literal ∈ network.trail.literals.toList :=
          Array.mem_toList_iff.2 (Array.mem_of_getElem? found)
        exact ready.shaped.trail.inside member
      have listed : literal.atom < clauses.parities.occurrences.size := by
        rw [clausesShaped.parities.width]
        exact Nat.lt_of_lt_of_eq known atoms.symm
      rw [withinMet listed, okBind, propagateParitiesSafe clausesShaped stillEarly fun index member =>
        ParityStore.insideOfMember
          (clausesShaped.parities.occurs.1 (Array.mem_toList_iff.1 member)), okBind, pureOk]

theorem propagateLoopSafe (fuel : Nat) :
    propagateLoop fuel network = .ok (network.propagateLoop fuel) := by
  induction fuel generalizing network with
  | zero => rfl
  | succ fuel inductionHypothesis =>
      rw [propagateLoop, Network.propagateLoop]
      cases found : network.trail.literals[network.trail.head]? with
      | none => rfl
      | some literal =>
          obtain ⟨-, after⟩ := Network.propagateLiteralSpec ready found
          simp only
          rw [propagateLiteralSafe ready found, okBind]
          generalize network.advance.propagateLiteral literal = result at *
          obtain ⟨outcome, next⟩ := result
          cases outcome with
          | some conflict => rfl
          | none => exact inductionHypothesis (after rfl).1

theorem propagateSafe : propagate network = .ok network.propagate :=
  propagateLoopSafe ready _

end Loop

end ParitySat.Checked
