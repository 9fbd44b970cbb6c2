/-
This file shows that the layering loop places every group above its callees.
-/

import FramaCMcp.Construction.Topo

namespace FramaCMcp.Topo

open Digraph Fixpoint

theorem getD_set (values : List Nat) (index other value : Nat) (bound : index < values.length) :
    (values.set index value).getD other 0 = if other = index then value else values.getD other 0 := by
  rw [List.getD_eq_getElem?_getD, List.getElem?_set]
  by_cases same : index = other
  · subst same
    simp [bound]
  · rw [if_neg same, if_neg (Ne.symm same), List.getD_eq_getElem?_getD]

theorem getElem?_of_getD {values : List Nat} {index left : Nat}
    (counter : values.getD index 0 = left + 1) : values[index]? = some (left + 1) := by
  rw [List.getD_eq_getElem?_getD] at counter
  cases found : values[index]? with
  | none => simp [found] at counter
  | some value => simpa [found] using counter

/-- A visit of enough counted callers takes one from a counter for each visit, and those whose last
callee was lost become ready once. -/
theorem foldlM_loseCallee (callers counters collected : List Nat)
    (enough : ∀ caller, callers.count caller ≤ counters.getD caller 0) :
    ∃ remaining last, callers.foldlM loseCallee (counters, collected) =
        some (remaining, collected ++ last) ∧
      remaining.length = counters.length ∧
      (∀ caller, remaining.getD caller 0 = counters.getD caller 0 - callers.count caller) ∧
      last.Nodup ∧
      ∀ caller, caller ∈ last ↔
        caller ∈ callers ∧ counters.getD caller 0 = callers.count caller := by
  induction callers generalizing counters collected with
  | nil => exact ⟨counters, [], by simp⟩
  | cons head rest ih =>
      have positive := enough head
      rw [List.count_cons_self] at positive
      obtain ⟨left, counter⟩ : ∃ left, counters.getD head 0 = left + 1 :=
        ⟨counters.getD head 0 - 1, by omega⟩
      have found := getElem?_of_getD counter
      have bound : head < counters.length := (List.getElem?_eq_some_iff.mp found).1
      have step : loseCallee (counters, collected) head = some (counters.set head left,
          if left = 0 then collected ++ [head] else collected) :=
        loseCallee_eq_some.mpr ⟨left, found, rfl⟩
      have headCount : rest.count head ≤ left := by omega
      have next : ∀ caller, rest.count caller ≤ (counters.set head left).getD caller 0 := by
        intro caller
        rw [getD_set _ _ _ _ bound]
        by_cases same : caller = head
        · rw [if_pos same, same]
          exact headCount
        · have own := enough caller
          rw [List.count_cons_of_ne (Ne.symm same)] at own
          rw [if_neg same]
          exact own
      obtain ⟨remaining, last, run, length, counts, distinct, members⟩ :=
        ih (counters.set head left) (if left = 0 then collected ++ [head] else collected) next
      have remainder : ∀ caller, remaining.getD caller 0 =
          counters.getD caller 0 - (head :: rest).count caller := by
        intro caller
        rw [counts, getD_set _ _ _ _ bound]
        by_cases same : caller = head
        · rw [if_pos same, same, List.count_cons_self]
          omega
        · rw [if_neg same, List.count_cons_of_ne (Ne.symm same)]
      have others : ∀ caller, caller ≠ head → (caller ∈ last ↔
          caller ∈ head :: rest ∧ counters.getD caller 0 = (head :: rest).count caller) := by
        intro caller different
        rw [members, getD_set _ _ _ _ bound, if_neg different,
          List.count_cons_of_ne (Ne.symm different), List.mem_cons]
        simp [different]
      by_cases final : left = 0
      · -- The counter of the head falls to zero here and is not visited again.
        have absent : head ∉ rest := by
          rw [← List.count_eq_zero]
          omega
        have fresh : head ∉ last := by
          rw [members]
          exact fun visited => absent visited.1
        refine ⟨remaining, head :: last, ?_, by simp [length], remainder,
          List.nodup_cons.mpr ⟨fresh, distinct⟩, ?_⟩
        · rw [List.foldlM_cons, step, Option.bind_eq_bind, Option.bind_some, run, if_pos final,
            List.append_assoc]
          rfl
        · intro caller
          by_cases same : caller = head
          · subst same
            rw [List.count_cons_self, List.count_eq_zero.mpr absent, counter, final]
            simp
          · rw [List.mem_cons, ← others caller same]
            simp [same]
      · refine ⟨remaining, last, ?_, by simp [length], remainder, distinct, ?_⟩
        · rw [List.foldlM_cons, step, Option.bind_eq_bind, Option.bind_some, run, if_neg final]
        · intro caller
          by_cases same : caller = head
          · subst same
            rw [members, getD_set _ _ _ _ bound, if_pos rfl, List.count_cons_self, counter]
            constructor
            · intro visited
              exact ⟨List.mem_cons_self, by omega⟩
            · intro visited
              refine ⟨?_, by omega⟩
              rw [← List.count_pos_iff]
              omega
          · exact others caller same

/-- The assigned groups get the level and the others keep theirs. -/
theorem getD_foldl_set (ready levels : List Nat) (level group : Nat)
    (bounded : ∀ placed ∈ ready, placed < levels.length) :
    (ready.foldl (fun levels group => levels.set group level) levels).getD group 0 =
      if group ∈ ready then level else levels.getD group 0 := by
  induction ready generalizing levels with
  | nil => simp
  | cons head rest ih =>
      have bound := bounded head List.mem_cons_self
      have later : ∀ placed ∈ rest, placed < (levels.set head level).length := by
        intro placed member
        rw [List.length_set]
        exact bounded placed (List.mem_cons_of_mem head member)
      rw [List.foldl_cons, ih _ later, getD_set _ _ _ _ bound]
      by_cases again : group ∈ rest
      · simp [again]
      · by_cases same : group = head
        · simp [same]
        · simp [again, same]

theorem length_foldl_set (ready levels : List Nat) (level : Nat) :
    (ready.foldl (fun levels group => levels.set group level) levels).length = levels.length := by
  induction ready generalizing levels with
  | nil => rfl
  | cons head rest ih => rw [List.foldl_cons, ih, List.length_set]

section Loop

variable {Weight : Type} (condensed : DiGraph Weight)

/-- These are the callees of a group that are not placed yet. -/
def outstanding (placed : List Nat) (group : Nat) : List Nat :=
  (condensed.neighborsDirected group .outgoing).filter fun callee => decide (callee ∉ placed)

/-- The counters count the callees that are not placed, the ready groups are those with none, and
each placed group stands above its callees. -/
structure LayeringInvariant (placed : List Nat) (state : Layering) : Prop where
  counterLength : state.outDegree.length = condensed.nodeCount
  levelLength : state.levelsMap.length = condensed.nodeCount
  counters : ∀ group < condensed.nodeCount,
    state.outDegree.getD group 0 = (outstanding condensed placed group).length
  readyNodup : state.ready.Nodup
  readyIff : ∀ group, group ∈ state.ready ↔
    group < condensed.nodeCount ∧ group ∉ placed ∧ outstanding condensed placed group = []
  placedBound : ∀ group ∈ placed, group < condensed.nodeCount
  placedClosed : ∀ group ∈ placed, outstanding condensed placed group = []
  placedLevel : ∀ group ∈ placed, state.levelsMap.getD group 0 < state.currentLevel
  descends : ∀ source ∈ placed, ∀ target, condensed.Edge source target →
    state.levelsMap.getD target 0 < state.levelsMap.getD source 0

variable {condensed}

theorem mem_outstanding {placed : List Nat} {group callee : Nat} :
    callee ∈ outstanding condensed placed group ↔
      condensed.Edge group callee ∧ callee ∉ placed := by
  rw [outstanding, List.mem_filter, condensed.mem_outgoing]
  simp

theorem outstanding_eq_nil {placed : List Nat} {group : Nat} :
    outstanding condensed placed group = [] ↔
      ∀ callee, condensed.Edge group callee → callee ∈ placed := by
  rw [List.eq_nil_iff_forall_not_mem]
  simp only [mem_outstanding, not_and, not_not]

theorem neighborsDirected_nodup (parallel : condensed.edges.Nodup) (group : Nat)
    (direction : Direction) : (condensed.neighborsDirected group direction).Nodup := by
  cases direction <;>
    refine (List.nodup_map_iff_inj_on ((List.nodup_reverse.mpr parallel).filter _)).mpr ?_ <;>
    intro left inLeft right inRight same
  · have sources := (beq_iff_eq.mp (List.mem_filter.mp inLeft).2).trans
      (beq_iff_eq.mp (List.mem_filter.mp inRight).2).symm
    exact Prod.ext sources same
  · have targets := (beq_iff_eq.mp (List.mem_filter.mp inLeft).2).trans
      (beq_iff_eq.mp (List.mem_filter.mp inRight).2).symm
    exact Prod.ext same targets

/-- A caller is visited once for each ready callee. -/
theorem count_callersOf (parallel : condensed.edges.Nodup) (ready : List Nat) (caller : Nat) :
    (callersOf condensed ready).count caller =
      ready.countP fun callee => condensed.containsEdge caller callee := by
  induction ready with
  | nil => rfl
  | cons head rest ih =>
      simp only [callersOf] at ih
      rw [callersOf, List.flatMap_cons, List.count_append, ih, List.countP_cons]
      by_cases edge : condensed.Edge caller head
      · rw [List.count_eq_one_of_mem (neighborsDirected_nodup parallel head _)
          (condensed.mem_incoming.mpr edge), if_pos (condensed.containsEdge_iff.mpr edge)]
        omega
      · rw [List.count_eq_zero.mpr fun member => edge (condensed.mem_incoming.mp member),
          if_neg fun found => edge (condensed.containsEdge_iff.mp found)]
        omega

/-- The visits of a round are the callees that the round places. -/
theorem outstanding_append (parallel : condensed.edges.Nodup) (placed ready : List Nat)
    (distinct : ready.Nodup) (fresh : ∀ group ∈ ready, group ∉ placed) (caller : Nat) :
    (callersOf condensed ready).count caller +
        (outstanding condensed (placed ++ ready) caller).length =
      (outstanding condensed placed caller).length := by
  have split := List.length_eq_length_filter_add (l := outstanding condensed placed caller)
    fun callee => decide (callee ∈ ready)
  have later : (outstanding condensed placed caller).filter
      (fun callee => !decide (callee ∈ ready)) = outstanding condensed (placed ++ ready) caller := by
    rw [outstanding, outstanding, List.filter_filter]
    refine List.filter_congr fun callee _ => ?_
    by_cases inPlaced : callee ∈ placed <;> by_cases inReady : callee ∈ ready <;>
      simp [inPlaced, inReady]
  -- Both lists hold the ready callees of the caller once.
  have visited : (ready.filter fun callee => condensed.containsEdge caller callee).Perm
      ((outstanding condensed placed caller).filter fun callee => decide (callee ∈ ready)) := by
    have pending : (outstanding condensed placed caller).Nodup :=
      (neighborsDirected_nodup parallel caller _).filter _
    rw [List.perm_ext_iff_of_nodup (distinct.filter _) (pending.filter _)]
    intro callee
    rw [List.mem_filter, List.mem_filter, mem_outstanding, condensed.containsEdge_iff,
      decide_eq_true_iff]
    constructor
    · intro both
      exact ⟨⟨both.2, fresh callee both.1⟩, both.1⟩
    · intro both
      exact ⟨both.2, both.1.1⟩
  rw [count_callersOf parallel, List.countP_eq_length_filter, visited.length_eq, ← later]
  exact split.symm

/-- The first state has placed nothing. -/
theorem initialLayering_invariant (condensed : DiGraph Weight) :
    LayeringInvariant condensed [] (initialLayering condensed) := by
  have nothing : ∀ group, outstanding condensed [] group =
      condensed.neighborsDirected group .outgoing := by
    intro group
    simp [outstanding]
  have counter : ∀ group < condensed.nodeCount, (initialLayering condensed).outDegree.getD group 0 =
      (condensed.neighborsDirected group .outgoing).length := by
    intro group bound
    rw [initialLayering, List.getD_eq_getElem _ _ (by simpa using bound)]
    simp
  refine {
    counterLength := by simp [initialLayering]
    levelLength := by simp [initialLayering]
    counters := by simpa only [nothing] using counter
    readyNodup := List.nodup_range.filter _
    readyIff := ?_
    placedBound := by simp
    placedClosed := by simp
    placedLevel := by simp
    descends := by simp }
  intro group
  rw [nothing]
  show group ∈ (List.range condensed.nodeCount).filter
    (fun group => (initialLayering condensed).outDegree.getD group 0 == 0) ↔ _
  rw [List.mem_filter, List.mem_range]
  constructor
  · intro found
    have zero : (initialLayering condensed).outDegree.getD group 0 = 0 := by simpa using found.2
    rw [counter group found.1] at zero
    exact ⟨found.1, List.not_mem_nil, List.length_eq_zero_iff.mp zero⟩
  · intro found
    refine ⟨found.1, ?_⟩
    rw [counter group found.1, found.2.2]
    rfl

/-- A round places the ready groups and no counter goes below zero. -/
theorem layerRound_invariant (parallel : condensed.edges.Nodup) {placed : List Nat}
    {state : Layering} (invariant : LayeringInvariant condensed placed state) :
    ∃ next, layerRound condensed state = some next ∧
      LayeringInvariant condensed (placed ++ state.ready) next ∧
      (∀ group ∈ placed, next.levelsMap.getD group 0 = state.levelsMap.getD group 0) ∧
      ∀ group ∈ state.ready, next.levelsMap.getD group 0 = state.currentLevel := by
  have fresh : ∀ group ∈ state.ready, group ∉ placed := by
    intro group member
    exact ((invariant.readyIff group).mp member).2.1
  have readyBound : ∀ group ∈ state.ready, group < state.levelsMap.length := by
    intro group member
    rw [invariant.levelLength]
    exact ((invariant.readyIff group).mp member).1
  have counted := outstanding_append parallel placed state.ready invariant.readyNodup fresh
  have sourceBound : ∀ group, group ∈ callersOf condensed state.ready →
      group < condensed.nodeCount := by
    intro group member
    obtain ⟨callee, _, incoming⟩ := List.mem_flatMap.mp member
    exact (condensed.within _ (condensed.mem_incoming.mp incoming)).1
  have enough : ∀ caller,
      (callersOf condensed state.ready).count caller ≤ state.outDegree.getD caller 0 := by
    intro caller
    by_cases bound : caller < condensed.nodeCount
    · rw [invariant.counters caller bound, ← counted caller]
      omega
    · rw [List.count_eq_zero.mpr fun member => bound (sourceBound caller member)]
      exact Nat.zero_le _
  obtain ⟨remaining, last, run, length, counts, distinct, members⟩ :=
    foldlM_loseCallee (callersOf condensed state.ready) state.outDegree [] enough
  have level := getD_foldl_set state.ready state.levelsMap state.currentLevel
  have keptLevel : ∀ group ∈ placed, group ∉ state.ready := by
    intro group member ready
    exact fresh group ready member
  refine ⟨{
      outDegree := remaining
      levelsMap := state.ready.foldl (fun levels group => levels.set group state.currentLevel)
        state.levelsMap
      currentLevel := state.currentLevel + 1
      ready := last }, ?_, ?_, ?_, ?_⟩
  · rw [layerRound, run]
    rfl
  · refine {
      counterLength := by rw [length, invariant.counterLength]
      levelLength := by rw [length_foldl_set, invariant.levelLength]
      counters := ?_
      readyNodup := distinct
      readyIff := ?_
      placedBound := ?_
      placedClosed := ?_
      placedLevel := ?_
      descends := ?_ }
    · intro group bound
      rw [counts, invariant.counters group bound, ← counted group]
      omega
    · intro group
      rw [members, List.mem_append, not_or]
      constructor
      · intro both
        have bound := sourceBound group both.1
        have total := counted group
        rw [invariant.counters group bound] at both
        have visits := List.count_pos_iff.mpr both.1
        refine ⟨bound, ⟨?_, ?_⟩, List.length_eq_zero_iff.mp (by omega)⟩
        · intro old
          rw [invariant.placedClosed group old] at both
          simp only [List.length_nil] at both
          omega
        · intro now
          rw [((invariant.readyIff group).mp now).2.2] at both
          simp only [List.length_nil] at both
          omega
      · intro all
        obtain ⟨bound, ⟨notPlaced, notReady⟩, none⟩ := all
        have total := counted group
        rw [none, List.length_nil, Nat.add_zero] at total
        rw [invariant.counters group bound]
        refine ⟨?_, total.symm⟩
        rw [← List.count_pos_iff, total, List.length_pos_iff]
        intro empty
        exact notReady ((invariant.readyIff group).mpr ⟨bound, notPlaced, empty⟩)
    · intro group member
      rcases List.mem_append.mp member with old | now
      · exact invariant.placedBound group old
      · exact ((invariant.readyIff group).mp now).1
    · intro group member
      have none : outstanding condensed placed group = [] := by
        rcases List.mem_append.mp member with old | now
        · exact invariant.placedClosed group old
        · exact ((invariant.readyIff group).mp now).2.2
      rw [outstanding_eq_nil] at none ⊢
      intro callee edge
      exact List.mem_append_left _ (none callee edge)
    · intro group member
      rw [level group readyBound]
      rcases List.mem_append.mp member with old | now
      · rw [if_neg (keptLevel group old)]
        exact Nat.lt_succ_of_lt (invariant.placedLevel group old)
      · rw [if_pos now]
        exact Nat.lt_succ_self _
    · intro source member target edge
      rcases List.mem_append.mp member with old | now
      · have placedTarget := outstanding_eq_nil.mp (invariant.placedClosed source old) target edge
        rw [level source readyBound, level target readyBound, if_neg (keptLevel source old),
          if_neg (keptLevel target placedTarget)]
        exact invariant.descends source old target edge
      · have placedTarget :=
          outstanding_eq_nil.mp ((invariant.readyIff source).mp now).2.2 target edge
        rw [level source readyBound, level target readyBound, if_pos now,
          if_neg (keptLevel target placedTarget)]
        exact invariant.placedLevel target placedTarget
  · intro group member
    rw [level group readyBound, if_neg (keptLevel group member)]
  · intro group member
    rw [level group readyBound, if_pos member]

/-- The loop comes to this state from the first one. -/
def ReachedLayering (condensed : DiGraph Weight) (state : Layering) : Prop :=
  ∃ count, (layering condensed).Rounds count (some (initialLayering condensed)) (some state)

/-- The loop places every group once, each above its callees, and every counter ends at zero. -/
theorem finalLayering_spec (components : List (List Nat)) {Inner : Type} (graph : DiGraph Inner)
    (condensed : DiGraph (List Inner)) (condenses : Condenses graph components condensed) :
    ∃ state, finalLayering condensed = some state ∧
      state.levelsMap.length = condensed.nodeCount ∧
      (∀ group < condensed.nodeCount, state.outDegree.getD group 0 = 0) ∧
      (∀ source target, condensed.Edge source target →
        state.levelsMap.getD target 0 < state.levelsMap.getD source 0) ∧
      ∀ group < condensed.nodeCount, ∃ earlier, ReachedLayering condensed earlier ∧
        group ∈ earlier.ready ∧ state.levelsMap.getD group 0 = earlier.currentLevel := by
  obtain ⟨⟨state, same, placed, invariant, _, origin⟩, stopped⟩ :=
    (layering condensed).loop_invariant
      (fun state => ∃ layers, state = some layers ∧ ∃ placed,
        LayeringInvariant condensed placed layers ∧ ReachedLayering condensed layers ∧
        ∀ group ∈ placed, ∃ earlier, ReachedLayering condensed earlier ∧
          group ∈ earlier.ready ∧ layers.levelsMap.getD group 0 = earlier.currentLevel)
      (by
        intro state next before found
        obtain ⟨layers, rfl, placed, invariant, ⟨count, rounds⟩, origin⟩ := before
        obtain ⟨after, step, kept, old, now⟩ := layerRound_invariant condenses.parallel invariant
        have reached := rounds.snoc _ found
        have moved : next = some after := by
          have round : layeringRound condensed (some layers) = some next := found
          simp only [layeringRound, step] at round
          split_ifs at round
          exact (Option.some.inj round).symm
        subst moved
        refine ⟨after, rfl, placed ++ layers.ready, kept, ⟨count + 1, reached⟩, ?_⟩
        intro group member
        rcases List.mem_append.mp member with before | ready
        · rw [old group before]
          exact origin group before
        · exact ⟨layers, ⟨count, rounds⟩, ready, now group ready⟩)
      (some (initialLayering condensed))
      ⟨initialLayering condensed, rfl, [], initialLayering_invariant condensed,
        ⟨0, .stop _⟩, by simp⟩
  have nothing : state.ready = [] := by
    rw [same] at stopped
    have round : layeringRound condensed (some state) = none := stopped
    simp only [layeringRound] at round
    split_ifs at round with empty
    exact List.isEmpty_iff.mp empty
  have all : ∀ group < condensed.nodeCount, group ∈ placed := by
    intro group bound
    by_contra missing
    have nonempty : (List.range condensed.nodeCount).filter
        (fun group => decide (group ∉ placed)) ≠ [] :=
      List.ne_nil_of_mem (List.mem_filter.mpr ⟨List.mem_range.mpr bound, by simpa using missing⟩)
    obtain ⟨sink, member, least⟩ := condenses.exists_sink _ nonempty
    have pending := List.mem_filter.mp member
    have ready : sink ∈ state.ready := by
      rw [invariant.readyIff, outstanding_eq_nil]
      refine ⟨List.mem_range.mp pending.1, by simpa using pending.2, ?_⟩
      intro callee edge
      by_contra absent
      refine least callee (List.mem_filter.mpr ⟨List.mem_range.mpr ?_, by simpa using absent⟩) edge
      exact (condensed.within _ edge).2
    rw [nothing] at ready
    exact List.not_mem_nil ready
  refine ⟨state, same, invariant.levelLength, ?_, ?_, ?_⟩
  · intro group bound
    rw [invariant.counters group bound, invariant.placedClosed group (all group bound)]
    rfl
  · intro source target edge
    exact invariant.descends source (all source (condensed.within _ edge).1) target edge
  · intro group bound
    exact origin group (all group bound)

end Loop

end FramaCMcp.Topo
