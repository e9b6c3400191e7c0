/-
This file follows implications from the decision of the current level to a conflict, and shows
that the analysis stops at the last literal that all of them go through.
-/

import ParitySat.Proofs.Engine.Analysis

namespace ParitySat

namespace Network

/-- A cause of a literal is one of the literals that its reason needs. -/
def Causes (network : Network) (cause effect : Literal) : Prop :=
  effect ∈ network.trail.literals.toList ∧
    ∃ reason, network.trail.reason effect.atom = some reason ∧
      cause.negate ∈ network.explain (some effect.atom) reason

/-- Each of these literals is a cause of the next one, and the last one is a cause of the
conflict. -/
inductive Leads (network : Network) (conflict : Reason) : List Literal → Prop where
  | last {literal : Literal} (direct : literal.negate ∈ network.explain none conflict) :
      Leads network conflict [literal]
  | step {cause effect : Literal} {rest : List Literal} (causes : network.Causes cause effect)
      (later : Leads network conflict (effect :: rest)) :
      Leads network conflict (cause :: effect :: rest)

/-- The literal belongs to the current level. -/
def Current (network : Network) (literal : Literal) : Prop :=
  literal ∈ network.trail.literals.toList ∧
    network.trail.atomLevel literal.atom = network.trail.level

/-- The decision of the current level has no reason. -/
def Decides (network : Network) (decision : Literal) : Prop :=
  network.Current decision ∧ network.trail.reason decision.atom = none

/-- Every way from the decision of the current level to the conflict goes through the point. -/
structure ImplicationPoint (network : Network) (conflict : Reason) (point : Literal) : Prop where
  current : network.Current point
  unavoidable : ∀ decision rest, network.Decides decision →
    network.Leads conflict (decision :: rest) → point ∈ decision :: rest

/-- No literal between the point and the position is an implication point. -/
def LastPoint (network : Network) (conflict : Reason) (position : Nat) (point : Literal) : Prop :=
  network.ImplicationPoint conflict point ∧
    ∃ index, network.trail.literals.toList[index]? = some point ∧
      ∀ later literal, index < later → later < position →
        network.trail.literals.toList[later]? = some literal →
        ¬network.ImplicationPoint conflict literal

theorem LastPoint.pass {network : Network} {conflict : Reason} {index : Nat}
    {point literal : Literal} (last : network.LastPoint conflict index point)
    (found : network.trail.literals.toList[index]? = some literal)
    (passed : ¬network.ImplicationPoint conflict literal) :
    network.LastPoint conflict (index + 1) point := by
  obtain ⟨isPoint, start, atStart, none⟩ := last
  refine ⟨isPoint, start, atStart, fun later other behind before atLater => ?_⟩
  rcases Nat.lt_succ_iff_lt_or_eq.1 before with earlier | rfl
  · exact none later other behind earlier atLater
  · obtain rfl := Option.some.inj (found.symm.trans atLater)
    exact passed

section Graph

variable {network : Network} (shaped : network.Shaped)
include shaped

/-- A literal is found at one position only. -/
theorem positionUnique {first second : Nat} {literal : Literal}
    (firstFound : network.trail.literals.toList[first]? = some literal)
    (secondFound : network.trail.literals.toList[second]? = some literal) : first = second := by
  have distinct : network.trail.literals.toList.Nodup :=
    List.Pairwise.of_map Literal.atom (fun _ _ different same => different (congrArg _ same))
      shaped.trail.distinct
  have inside := (List.getElem?_eq_some_iff.1 firstFound).1
  exact (List.getElem?_inj inside distinct).1 (firstFound.trans secondFound.symm)

theorem notInitial {position : Nat} {literal : Literal}
    (found : network.trail.literals.toList[position]? = some literal) :
    literal ∉ network.trail.initial position := by
  intro initial
  obtain ⟨other, below, again⟩ := Trail.memberInitial.1 initial
  have same := positionUnique shaped found again
  omega

/-- A cause has become true before its effect. -/
theorem causesEarlier {cause effect : Literal} (causes : network.Causes cause effect)
    {position : Nat} (found : network.trail.literals.toList[position]? = some effect) :
    cause ∈ network.trail.initial position := by
  obtain ⟨-, reason, known, explains⟩ := causes
  have forced := ((shaped.reasons position effect found).forced known).2
  have isFalse := reasonFalse shaped forced cause.negate explains
  rwa [Literal.negateNegate] at isFalse

/-- The decision is the first literal of the current level. -/
theorem decisionFirst (deep : 0 < network.trail.level) {decision literal : Literal}
    (decides : network.Decides decision) (current : network.Current literal) {index : Nat}
    (found : network.trail.literals.toList[index]? = some literal) :
    decision ∈ network.trail.initial (index + 1) := by
  have coherent := shaped.trail
  obtain ⟨decisionCurrent, free⟩ := decides
  obtain ⟨position, inside, same⟩ := List.mem_iff_getElem.1 decisionCurrent.1
  have atPosition : network.trail.literals.toList[position]? = some decision := by
    rw [List.getElem?_eq_getElem inside, same]
  have top := current.2
  rw [coherent.levels index literal found] at top
  have all := List.countP_eq_length.1 (top.trans Array.length_toList.symm)
  rcases (shaped.reasons position decision atPosition).free free with limit | root
  · have early := all position limit
    rw [decide_eq_true_eq] at early
    exact Trail.memberInitial.2 ⟨position, Nat.lt_succ_of_le early, atPosition⟩
  · have level := decisionCurrent.2
    rw [coherent.levels position decision atPosition] at level
    omega

/-- The levels do not fall along implications. -/
theorem causesCurrent {cause effect : Literal} (causes : network.Causes cause effect)
    (current : network.Current cause) : network.Current effect := by
  have coherent := shaped.trail
  obtain ⟨position, inside, same⟩ := List.mem_iff_getElem.1 causes.1
  have found : network.trail.literals.toList[position]? = some effect := by
    rw [List.getElem?_eq_getElem inside, same]
  obtain ⟨earlier, below, atEarlier⟩ :=
    Trail.memberInitial.1 (causesEarlier shaped causes found)
  refine ⟨causes.1, ?_⟩
  have rising : network.trail.levelAt earlier ≤ network.trail.levelAt position :=
    Trail.levelAtMono (Nat.le_of_lt below)
  have top := current.2
  rw [coherent.levels earlier cause atEarlier] at top
  rw [coherent.levels position effect found]
  have bounded := network.trail.levelAtLe position
  omega

/-- From the current level on, implications stay at it. -/
theorem leadsCurrent {conflict : Reason} {first : Literal} {rest : List Literal}
    (leads : network.Leads conflict (first :: rest)) (current : network.Current first) :
    ∀ literal ∈ first :: rest, network.Current literal := by
  generalize same : first :: rest = path at leads
  induction leads generalizing first rest with
  | last direct =>
      obtain ⟨rfl, rfl⟩ := List.cons.inj same
      exact List.forall_mem_singleton.2 current
  | step causes later inductionHypothesis =>
      obtain ⟨rfl, rfl⟩ := List.cons.inj same
      exact List.forall_mem_cons.2
        ⟨current, inductionHypothesis (causesCurrent shaped causes current) rfl⟩

omit shaped in
/-- The last literal is a cause of the conflict. -/
theorem leadsDirect {conflict : Reason} {path : List Literal}
    (leads : network.Leads conflict path) :
    ∃ literal ∈ path, literal.negate ∈ network.explain none conflict := by
  induction leads with
  | @last literal direct => exact ⟨literal, List.mem_cons_self, direct⟩
  | step causes later inductionHypothesis =>
      obtain ⟨literal, member, direct⟩ := inductionHypothesis
      exact ⟨literal, List.mem_cons_of_mem _ member, direct⟩

omit shaped in
/-- Whatever is not the first literal of the way has a cause on it. -/
theorem leadsCause {conflict : Reason} {first : Literal} {rest : List Literal}
    (leads : network.Leads conflict (first :: rest)) {effect : Literal} (member : effect ∈ rest) :
    ∃ cause ∈ first :: rest, network.Causes cause effect := by
  generalize same : first :: rest = path at leads
  induction leads generalizing first rest with
  | last direct =>
      obtain ⟨-, rfl⟩ := List.cons.inj same
      exact absurd member List.not_mem_nil
  | @step cause next others causes later inductionHypothesis =>
      obtain ⟨rfl, rfl⟩ := List.cons.inj same
      rcases List.mem_cons.1 member with rfl | further
      · exact ⟨first, List.mem_cons_self, causes⟩
      · obtain ⟨cause, listed, causes⟩ := inductionHypothesis further rfl
        exact ⟨cause, List.mem_cons_of_mem _ listed, causes⟩

end Graph

section Back

variable {network : Network} (stable : network.Stable) (deep : 0 < network.trail.level)
include stable deep

/-- An implied literal of the current level has a cause of the same level.

Otherwise its reason would have forced it when the level began. -/
theorem currentCause {literal : Literal} (current : network.Current literal) {reason : Reason}
    (known : network.trail.reason literal.atom = some reason) :
    ∃ cause, network.Causes cause literal ∧ network.Current cause := by
  have shaped := stable.shaped
  have coherent := shaped.trail
  obtain ⟨position, inside, same⟩ := List.mem_iff_getElem.1 current.1
  have found : network.trail.literals.toList[position]? = some literal := by
    rw [List.getElem?_eq_getElem inside, same]
  have forced := ((shaped.reasons position literal found).forced known).2
  have last : network.trail.level - 1 < network.trail.level := by omega
  have limit := List.mem_of_getElem? (Trail.boundaryInside last).2
  by_cases some : ∃ cause, network.Causes cause literal ∧ network.Current cause
  · exact some
  exfalso
  -- All causes lie before the beginning of the level.
  have early : ∀ other ∈ network.explain (.some literal.atom) reason,
      other.negate ∈ network.trail.initial (network.trail.boundary (network.trail.level - 1)) := by
    intro other listed
    have member := Trail.initialMember (reasonFalse shaped forced other listed)
    refine coherent.memberBoundary.2 ⟨member, ?_⟩
    have bounded := coherent.levelLe member
    have different : network.trail.atomLevel other.negate.atom ≠ network.trail.level := by
      intro top
      refine some ⟨other.negate, ⟨current.1, reason, known, ?_⟩, member, top⟩
      rwa [Literal.negateNegate]
    omega
  have late : literal ∉ network.trail.initial
      (network.trail.boundary (network.trail.level - 1)) := by
    rw [coherent.memberBoundary]
    rintro ⟨-, below⟩
    have top := current.2
    omega
  cases reason with
  | clause reference =>
      obtain ⟨rest, literals, others⟩ := forced
      obtain ⟨first, second, further, split⟩ :=
        shaped.store.split (ClauseStore.insideOfCons literals)
      rw [literals] at split
      obtain ⟨rfl, rfl⟩ := List.cons.inj split
      have distinct := (shaped.store.properOfCons literals).distinct
      have listed : second ∈ network.explain (.some literal.atom) (.clause reference) := by
        rw [explain, List.mem_filter, literals]
        refine ⟨by simp, ?_⟩
        rw [bne_iff_ne, ne_eq, Option.some.injEq]
        intro equal
        simp [equal] at distinct
      obtain ⟨-, guards⟩ := stable.quiet _ limit reference literal second further literals
      have below := (guards (early second listed)).2
      have secondEarly := (coherent.memberBoundary.1 (early second listed)).2
      rw [Literal.atomNegate] at secondEarly
      have top := current.2
      omega
  | parity index =>
      obtain ⟨own, others, -⟩ := forced
      obtain ⟨all, -⟩ := shaped.settled _ limit index literal.atom (by
        intro atom listed different
        obtain ⟨other, initial, rfl⟩ := others atom listed different
        refine ⟨other.negate.negate, early other.negate ?_, by simp⟩
        refine List.mem_map.2 ⟨other.atom, List.mem_filter.2 ⟨listed, by simpa using different⟩, ?_⟩
        exact falsifiedNegate shaped (Trail.initialMember initial))
      obtain ⟨other, initial, same⟩ := all literal.atom own
      have equal := coherent.unique (Trail.initialMember initial) current.1 same
      exact late (equal ▸ initial)

/-- Every way to the conflict can be extended back to the decision through earlier literals. -/
theorem leadsBack {conflict : Reason} {position : Nat} {literal : Literal} {rest : List Literal}
    (found : network.trail.literals.toList[position]? = some literal)
    (current : network.Current literal) (leads : network.Leads conflict (literal :: rest)) :
    ∃ decision others, network.Decides decision ∧ network.Leads conflict (decision :: others) ∧
      ∀ other ∈ decision :: others,
        other ∈ literal :: rest ∨ other ∈ network.trail.initial position := by
  induction position using Nat.strongRecOn generalizing literal rest with
  | ind position inductionHypothesis =>
      cases known : network.trail.reason literal.atom with
      | none => exact ⟨literal, rest, ⟨current, known⟩, leads, fun _ member => .inl member⟩
      | some reason =>
          obtain ⟨cause, causes, causeCurrent⟩ := currentCause stable deep current known
          have initial := causesEarlier stable.shaped causes found
          obtain ⟨earlier, below, atEarlier⟩ := Trail.memberInitial.1 initial
          obtain ⟨decision, others, decides, further, members⟩ :=
            inductionHypothesis earlier below atEarlier causeCurrent (.step causes leads)
          refine ⟨decision, others, decides, further, fun other member => ?_⟩
          rcases members other member with listed | before
          · rcases List.mem_cons.1 listed with rfl | listed
            · exact .inr initial
            · exact .inl listed
          · exact .inr (Trail.initialMono (Nat.le_of_lt below) before)

/-- There is a way from the decision to the conflict. -/
theorem conflictLeads {conflict : Reason} (violated : network.Violated conflict) :
    ∃ decision rest, network.Decides decision ∧ network.Leads conflict (decision :: rest) := by
  have shaped := stable.shaped
  obtain ⟨cause, direct, high⟩ := conflictCurrent stable deep violated
  have member := conflictFalse shaped violated cause direct
  have current : network.Current cause.negate :=
    ⟨member, Nat.le_antisymm (shaped.trail.levelLe member) high⟩
  obtain ⟨position, inside, same⟩ := List.mem_iff_getElem.1 member
  obtain ⟨decision, rest, decides, leads, -⟩ := leadsBack stable deep
    (by rw [List.getElem?_eq_getElem inside, same]) current
    (.last (by rwa [Literal.negateNegate]))
  exact ⟨decision, rest, decides, leads⟩

end Back

end Network

namespace Exploration

/-- Only the considered literals are marked anew. -/
theorem considerOnly {trail : Trail} {exploration : Exploration} {literal : Literal} {atom : Nat}
    (marked : (exploration.consider trail literal).marked atom) :
    exploration.marked atom ∨ atom = literal.atom := by
  have marks : (exploration.consider trail literal).marks =
      exploration.marks.setIfInBounds literal.atom true ∨
      (exploration.consider trail literal).marks = exploration.marks := by
    unfold consider
    simp only
    split
    · split <;> exact .inl rfl
    · exact .inr rfl
  rcases marks with fresh | same
  · rw [Exploration.marked, fresh, marksSet] at marked
    split at marked
    · next both => exact .inr both.1.symm
    · exact .inl marked
  · rw [Exploration.marked, same] at marked
    exact .inl marked

theorem considerAllOnly {trail : Trail} {exploration : Exploration} {literals : List Literal}
    {atom : Nat} (marked : (exploration.considerAll trail literals).marked atom) :
    exploration.marked atom ∨ ∃ literal ∈ literals, literal.atom = atom := by
  unfold considerAll at marked
  induction literals generalizing exploration with
  | nil => exact .inl marked
  | cons first rest inductionHypothesis =>
      rcases inductionHypothesis marked with earlier | ⟨literal, member, same⟩
      · rcases considerOnly earlier with old | same
        · exact .inl old
        · exact .inr ⟨first, List.mem_cons_self, same.symm⟩
      · exact .inr ⟨literal, List.mem_cons_of_mem _ member, same⟩

/-- The marked literals of the current level cut off the conflict from all earlier literals, and
from each of them a way leads to the conflict through later literals only. -/
structure Cuts (network : Network) (conflict : Reason) (position : Nat)
    (exploration : Exploration) : Prop where
  leads : ∀ literal, network.Current literal → exploration.marked literal.atom →
    ∃ rest, network.Leads conflict (literal :: rest) ∧
      ∀ other ∈ rest, other ∉ network.trail.initial position
  meets : ∀ first rest, network.Current first → first ∈ network.trail.initial position →
    network.Leads conflict (first :: rest) →
    ∃ other ∈ first :: rest, exploration.marked other.atom

section Cut

variable {network : Network} {conflict : Reason} {index : Nat} {literal : Literal}
  {exploration : Exploration} (cuts : Cuts network conflict (index + 1) exploration)
include cuts

/-- An unmarked literal can be passed. -/
theorem passCuts : Cuts network conflict index exploration where
  leads other current marked := by
    obtain ⟨rest, leads, late⟩ := cuts.leads other current marked
    exact ⟨rest, leads, fun next member initial =>
      late next member (Trail.initialMono (Nat.le_succ index) initial)⟩
  meets first rest current initial leads :=
    cuts.meets first rest current (Trail.initialMono (Nat.le_succ index) initial) leads

variable (found : network.trail.literals.toList[index]? = some literal)
  (marking : Marking network.trail (index + 1) exploration)
include found marking

/-- The causes of a marked literal take its place. -/
theorem reasonCuts (shaped : network.Shaped) (deep : 0 < network.trail.level)
    (current : network.Current literal) (marked : exploration.marked literal.atom)
    {pending : Nat} (many : exploration.pending = pending + 1) {reason : Reason}
    (known : network.trail.reason literal.atom = some reason) :
    Cuts network conflict index (considerAll network.trail
      { exploration.unmark literal.atom with pending }
      (network.explain (some literal.atom) reason)) := by
  have coherent := shaped.trail
  have forced := ((shaped.reasons index literal found).forced known).2
  have isFalse := Network.reasonFalse shaped forced
  have without := unmarkMarking found marking marked (Nat.le_of_eq current.2.symm) many
  obtain ⟨-, kept, fresh⟩ := considerAllMarking coherent without isFalse
  have passed := passCuts cuts
  refine ⟨fun other otherCurrent otherMarked => ?_, fun first rest firstCurrent initial leads => ?_⟩
  · rcases considerAllOnly otherMarked with old | ⟨cause, listed, same⟩
    · exact passed.leads other otherCurrent ((markedUnmark exploration literal.atom _).1 old).2
    · -- The way goes on through the literal that has given way to its causes.
      obtain ⟨rest, leads, late⟩ := passed.leads literal current marked
      have equal : cause.negate = other :=
        coherent.unique (Trail.initialMember (isFalse cause listed)) otherCurrent.1 same
      have causes : network.Causes other literal := by
        refine ⟨current.1, reason, known, ?_⟩
        rwa [← equal, Literal.negateNegate]
      exact ⟨literal :: rest, .step causes leads,
        List.forall_mem_cons.2 ⟨Network.notInitial shaped found, late⟩⟩
  · obtain ⟨other, member, old⟩ := passed.meets first rest firstCurrent initial leads
    by_cases same : other.atom = literal.atom
    · have otherCurrent := Network.leadsCurrent shaped leads firstCurrent other member
      obtain rfl := coherent.unique otherCurrent.1 current.1 same
      have inRest : other ∈ rest := by
        rcases List.mem_cons.1 member with rfl | inRest
        · exact absurd initial (Network.notInitial shaped found)
        · exact inRest
      obtain ⟨cause, listed, -, ownReason, ownKnown, explains⟩ := Network.leadsCause leads inRest
      obtain rfl := Option.some.inj (known.symm.trans ownKnown)
      refine ⟨cause, listed, fresh cause.negate explains ?_⟩
      have causeCurrent := Network.leadsCurrent shaped leads firstCurrent cause listed
      rw [Literal.atomNegate, causeCurrent.2]
      exact deep
    · refine ⟨other, member, kept other.atom ?_⟩
      exact (markedUnmark exploration literal.atom _).2 ⟨same, old⟩

/-- Another marked literal has a way to the conflict that avoids the last one. -/
theorem avoided (stable : network.Stable) (deep : 0 < network.trail.level) {atom : Nat}
    (marked : exploration.marked atom)
    (high : network.trail.level ≤ network.trail.atomLevel atom)
    (different : atom ≠ literal.atom) : ¬network.ImplicationPoint conflict literal := by
  have shaped := stable.shaped
  obtain ⟨other, initial, rfl⟩ := marking.listed atom marked high
  have member := Trail.initialMember initial
  have current : network.Current other :=
    ⟨member, Nat.le_antisymm (shaped.trail.levelLe member) high⟩
  have before := ((Trail.memberInitialSucc found).1 initial).resolve_right
    fun last => different (congrArg Literal.atom last)
  obtain ⟨position, below, atPosition⟩ := Trail.memberInitial.1 before
  obtain ⟨rest, leads, late⟩ := cuts.leads other current marked
  obtain ⟨decision, others, decides, further, members⟩ :=
    Network.leadsBack stable deep atPosition current leads
  intro point
  rcases members literal (point.unavoidable decision others decides further) with listed | early
  · rcases List.mem_cons.1 listed with rfl | inRest
    · exact different rfl
    · exact late literal inRest (Trail.memberInitial.2 ⟨index, Nat.lt_succ_self index, found⟩)
  · exact Network.notInitial shaped found (Trail.initialMono (Nat.le_of_lt below) early)

/-- No way avoids the only marked literal. -/
theorem unavoided (shaped : network.Shaped) (deep : 0 < network.trail.level)
    (current : network.Current literal) (marked : exploration.marked literal.atom)
    (single : exploration.pending = 1) : network.ImplicationPoint conflict literal where
  current := current
  unavoidable decision rest decides leads := by
    have coherent := shaped.trail
    have initial := Network.decisionFirst shaped deep decides current found
    obtain ⟨other, member, otherMarked⟩ := cuts.meets decision rest decides.1 initial leads
    have otherCurrent := Network.leadsCurrent shaped leads decides.1 other member
    obtain ⟨points, nodup, length, listed⟩ := marking.pending
    have own := (listed literal.atom).2 ⟨marked, Nat.le_of_eq current.2.symm⟩
    have another := (listed other.atom).2 ⟨otherMarked, Nat.le_of_eq otherCurrent.2.symm⟩
    rw [single] at length
    obtain ⟨point, rfl⟩ := List.length_eq_one_iff.1 length
    rw [List.mem_singleton] at own another
    rwa [coherent.unique current.1 otherCurrent.1 (own.trans another.symm)]

end Cut

/-- The walk along the trail ends at the last implication point. -/
theorem resolvePoint {network : Network} (stable : network.Stable)
    (deep : 0 < network.trail.level) {conflict : Reason} (position : Nat)
    (inside : position ≤ network.trail.literals.size) (exploration : Exploration)
    (marking : Marking network.trail position exploration)
    (open_ : ∃ atom, exploration.marked atom ∧
      network.trail.level ≤ network.trail.atomLevel atom)
    (cuts : Cuts network conflict position exploration) {point : Literal} {final : Exploration}
    (resolved : resolve network position exploration = (some point, final)) :
    network.LastPoint conflict position point := by
  have shaped := stable.shaped
  -- The walk depends on no models.
  have sound : network.Sound fun _ => False :=
    ⟨fun _ => False.elim, fun _ => False.elim, fun _ => False.elim⟩
  induction position generalizing exploration with
  | zero => cases resolved
  | succ index inductionHypothesis =>
      obtain ⟨first, firstMarked, firstHigh⟩ := open_
      have below : index < network.trail.literals.toList.length := by
        rw [Array.length_toList]
        omega
      obtain ⟨literal, found⟩ : ∃ literal, network.trail.literals.toList[index]? = some literal :=
        ⟨_, List.getElem?_eq_getElem below⟩
      have current : network.trail.literals.getD index default = literal := by
        rw [Array.getElem?_toList] at found
        rw [Array.getD_eq_getD_getElem?, found, Option.getD_some]
      by_cases here : exploration.marked literal.atom
      · have level := lastLevel found marking shaped firstMarked firstHigh
        have literalCurrent : network.Current literal := ⟨List.mem_of_getElem? found, level⟩
        have isMarked : exploration.marks.getD literal.atom false = true := here
        cases many : exploration.pending with
        | zero => simp [resolve, current, isMarked, unmark, many] at resolved
        | succ rest =>
            cases rest with
            | zero =>
                rw [resolveLast current here many] at resolved
                obtain rfl := Option.some.inj (Prod.mk.inj resolved).1
                exact ⟨unavoided cuts found marking shaped deep literalCurrent here many, index,
                  found, fun later other behind before => absurd before (by omega)⟩
            | succ pending =>
                cases known : network.trail.reason literal.atom with
                | none => simp [resolve, current, isMarked, unmark, many, known] at resolved
                | some reason =>
                    have forced := ((shaped.reasons index literal found).forced known).2
                    obtain ⟨next, nextOpen, -⟩ := resolveReason found marking shaped sound here
                      level many forced fun _ => False.elim
                    rw [resolveFurther current here many known] at resolved
                    have last := inductionHypothesis (by omega) _ next nextOpen
                      (reasonCuts cuts found marking shaped deep literalCurrent here many known)
                      resolved
                    obtain ⟨other, marked, high, different⟩ :=
                      otherPending marking (by omega) literal.atom
                    exact last.pass found
                      (avoided cuts found marking stable deep marked high different)
      · have isUnmarked : exploration.marks.getD literal.atom false = false := by
          simpa [Exploration.marked] using here
        simp only [resolve, current, isUnmarked, Bool.false_eq_true, if_false] at resolved
        have last := inductionHypothesis (by omega) exploration (passMarking found marking here)
          ⟨first, firstMarked, firstHigh⟩ (passCuts cuts) resolved
        exact last.pass found (avoided cuts found marking stable deep firstMarked firstHigh
          fun same => here (same ▸ firstMarked))

section Start

variable {network : Network} (stable : network.Stable) (deep : 0 < network.trail.level)
  {conflict : Reason} (violated : network.Violated conflict)
include stable deep violated

/-- The causes of the conflict cut it off. -/
theorem startCuts {exploration : Exploration} (clear : ∀ atom, ¬exploration.marked atom)
    (marking : Marking network.trail network.trail.literals.size exploration) :
    Cuts network conflict network.trail.literals.size
      (considerAll network.trail exploration (network.explain none conflict)) := by
  have shaped := stable.shaped
  obtain ⟨-, -, fresh⟩ := Network.conflictMarking stable deep violated marking
  refine ⟨fun literal current marked => ?_, fun first rest current _ leads => ?_⟩
  · rcases considerAllOnly marked with old | ⟨cause, listed, same⟩
    · exact absurd old (clear literal.atom)
    · obtain rfl := shaped.trail.unique (Network.conflictFalse shaped violated cause listed)
        current.1 same
      refine ⟨[], .last ?_, fun _ member => absurd member List.not_mem_nil⟩
      rwa [Literal.negateNegate]
  · obtain ⟨literal, member, direct⟩ := Network.leadsDirect leads
    have literalCurrent := Network.leadsCurrent shaped leads current literal member
    refine ⟨literal, member, fresh literal.negate direct ?_⟩
    rw [Literal.atomNegate, literalCurrent.2]
    exact deep

/-- The clause begins with the negation of the last implication point. -/
theorem analyzePoint {marks : Array Bool} (unmarked : network.Unmarked marks)
    {analysis : Analysis} (found : (network.analyze marks conflict).1 = some analysis)
    {point : Literal} {rest : List Literal} (literals : analysis.literals = point.negate :: rest) :
    network.LastPoint conflict network.trail.literals.size point := by
  obtain ⟨clear, marking⟩ := unmarked.marking
  obtain ⟨started, open_, -⟩ := Network.conflictMarking stable deep violated marking
  have cuts := startCuts stable deep violated clear marking
  unfold Network.analyze at found
  simp only at found
  split at found
  · contradiction
  · next first final resolved =>
      obtain rfl := Option.some.inj found
      have same : first = point := by
        rw [← Literal.negateNegate first, (List.cons.inj literals).1, Literal.negateNegate]
      exact same ▸ resolvePoint stable deep network.trail.literals.size (Nat.le_refl _) _ started
        open_ cuts resolved

end Start

end Exploration

end ParitySat
