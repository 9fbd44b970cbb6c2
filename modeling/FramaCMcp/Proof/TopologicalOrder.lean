/-
This file shows that the verification order lists each component once, after all its callees.
-/

import FramaCMcp.Proof.CallGraph
import FramaCMcp.Proof.Layering

namespace FramaCMcp.Topo

open Digraph Fixpoint Profile Relation

theorem sortTexts_perm (texts : List String) : (sortTexts texts).Perm texts :=
  List.perm_insertionSort _ texts

/-- The pushed groups stand behind those of their level. -/
theorem getElem?_foldl_pushGroup (groups : List SccGroup) (levels : List Level) (index : Nat) :
    (groups.foldl pushGroup levels)[index]? = levels[index]?.map fun level =>
      { level with groups := level.groups ++ groups.filter fun group => group.level = index } := by
  induction groups generalizing levels with
  | nil => simp
  | cons head rest ih =>
      rw [List.foldl_cons, ih, pushGroup, List.getElem?_modify]
      by_cases same : head.level = index
      · subst same
        simp [Function.comp_def]
      · simp [same]

theorem collectLevels_eq (maxLevel : Nat) (groups : List SccGroup) :
    collectLevels maxLevel groups = (List.range (maxLevel + 1)).map fun level =>
      { level, groups := groups.filter fun group => group.level = level } := by
  apply List.ext_getElem?
  intro index
  rw [collectLevels, getElem?_foldl_pushGroup, List.getElem?_map, List.getElem?_map, Option.map_map]
  by_cases bound : index < maxLevel + 1
  · rw [List.getElem?_range bound]
    rfl
  · rw [List.getElem?_eq_none (by rw [List.length_range]; omega)]
    rfl

/-- Of sorted groups, those below the next level are those below this one and those of it. -/
theorem filter_lt_succ (groups : List SccGroup) (level : Nat)
    (sorted : groups.Pairwise fun left right => left.level ≤ right.level) :
    groups.filter (fun group => group.level < level + 1) =
      groups.filter (fun group => group.level < level) ++
        groups.filter fun group => group.level = level := by
  induction groups with
  | nil => rfl
  | cons head rest ih =>
      obtain ⟨lower, later⟩ := List.pairwise_cons.mp sorted
      have remaining := ih later
      rcases Nat.lt_trichotomy head.level level with below | same | above
      · rw [List.filter_cons_of_pos (by simpa using Nat.lt_succ_of_lt below),
          List.filter_cons_of_pos (by simpa using below),
          List.filter_cons_of_neg (by simpa using Nat.ne_of_lt below), remaining]
        rfl
      · -- Nothing behind the head stands below its level.
        have none : rest.filter (fun group => group.level < level) = [] := by
          rw [List.filter_eq_nil_iff]
          intro group member
          have bound := lower group member
          simp only [decide_eq_true_eq]
          omega
        rw [none, List.nil_append] at remaining
        rw [List.filter_cons_of_pos (by simp [same]), List.filter_cons_of_neg (by simp [same]),
          List.filter_cons_of_pos (by simpa using same), remaining, none]
        rfl
      · rw [List.filter_cons_of_neg (by simp only [decide_eq_true_eq]; omega),
          List.filter_cons_of_neg (by simp only [decide_eq_true_eq]; omega),
          List.filter_cons_of_neg (by simp only [decide_eq_true_eq]; omega), remaining]

/-- The collected levels hold sorted groups in their order. -/
theorem collectLevels_groups (maxLevel : Nat) (groups : List SccGroup)
    (sorted : groups.Pairwise fun left right => left.level ≤ right.level)
    (bounded : ∀ group ∈ groups, group.level ≤ maxLevel) :
    (collectLevels maxLevel groups).flatMap Level.groups = groups := by
  have lower : ∀ count, ((List.range count).map fun level =>
      groups.filter fun group => group.level = level).flatten =
        groups.filter fun group => group.level < count := by
    intro count
    induction count with
    | zero => simp
    | succ count ih =>
        rw [List.range_succ, List.map_append, List.flatten_append, ih,
          filter_lt_succ groups count sorted]
        simp
  rw [collectLevels_eq, List.flatMap_def, List.map_map]
  refine (lower (maxLevel + 1)).trans (List.filter_eq_self.mpr ?_)
  intro group member
  have bound := bounded group member
  simp only [decide_eq_true_eq]
  omega

/-- New identifiers leave everything else of the groups in its order. -/
theorem map_mapIdx_id {Value : Type} (read : SccGroup → Value) (number : Nat → Nat)
    (blind : ∀ group id, read { group with id } = read group) (groups : List SccGroup) :
    (groups.mapIdx fun position group => { group with id := number position }).map read =
      groups.map read := by
  apply List.ext_getElem?
  intro index
  rw [List.getElem?_map, List.getElem?_mapIdx, List.getElem?_map]
  cases groups[index]? with
  | none => rfl
  | some group => simp [blind]

theorem renumber_sorted (groups : List SccGroup) :
    (renumber groups).Pairwise fun left right => left.level ≤ right.level := by
  have sorted := StableSort.sortByKey_sorted
    (fun group : SccGroup => toLex (group.level, group.id)) groups
  have levels : ((renumber groups).map SccGroup.level).Pairwise (· ≤ ·) := by
    rw [renumber, map_mapIdx_id SccGroup.level _ fun _ _ => rfl, List.pairwise_map]
    refine sorted.imp ?_
    intro left right below
    rcases Prod.Lex.le_iff.mp below with less | same
    · exact Nat.le_of_lt less
    · exact Nat.le_of_eq same.1
  exact List.pairwise_map.mp levels

/-- Each renumbered group is one of the groups with another identifier. -/
theorem mem_renumber (groups : List SccGroup) (group : SccGroup) (member : group ∈ renumber groups) :
    ∃ origin ∈ groups, group = { origin with id := group.id } := by
  obtain ⟨index, found⟩ := List.mem_iff_getElem?.mp member
  rw [renumber, List.getElem?_mapIdx, Option.map_eq_some_iff] at found
  obtain ⟨origin, position, rfl⟩ := found
  exact ⟨origin, (StableSort.sortByKey_perm _ _).mem_iff.mp (List.mem_of_getElem? position), rfl⟩

theorem members_renumber (groups : List SccGroup) :
    ((renumber groups).flatMap SccGroup.members).Perm (groups.flatMap SccGroup.members) := by
  rw [List.flatMap_def, List.flatMap_def, renumber,
    map_mapIdx_id SccGroup.members _ fun _ _ => rfl]
  exact ((StableSort.sortByKey_perm _ groups).map _).flatten

section Groups

variable {vertices : List String} {edges : List (String × String)}

theorem mem_selfLoopNames {name : String} :
    name ∈ selfLoopNames (buildGraph vertices edges) ↔ Calls vertices edges name name := by
  simp only [selfLoopNames, List.mem_filterMap, List.mem_filter, List.mem_range]
  constructor
  · intro found
    obtain ⟨node, ⟨_, loop⟩, named⟩ := found
    exact (edge_iff_calls named named).mp ((DiGraph.containsEdge_iff _).mp loop)
  · intro calls
    obtain ⟨node, named⟩ := exists_node edges calls.1
    refine ⟨node, ⟨?_, (DiGraph.containsEdge_iff _).mpr ((edge_iff_calls named named).mpr calls)⟩,
      named⟩
    exact (List.getElem?_eq_some_iff.mp named).1

/-- The sorted names of a component belong to a recursive group where they lie on a cycle. -/
theorem sccGroup_isCycle {components : List (List Nat)} {component : List Nat}
    (strong : StrongComponents (buildGraph vertices edges) components)
    (listed : component ∈ components) (levelsMap : List Nat) (index : Nat) (name : String)
    (member : name ∈ componentNames (buildGraph vertices edges) component) :
    (sccGroup (selfLoopNames (buildGraph vertices edges)) levelsMap index
      (componentNames (buildGraph vertices edges) component)).isCycle = true ↔
        OnCycle vertices edges name := by
  have length := (sortTexts_perm (componentNames (buildGraph vertices edges) component)).length_eq
  rw [onCycle_iff strong listed member, ← length]
  have sorted := (sortTexts_perm (componentNames (buildGraph vertices edges) component)).mem_iff.mpr
    member
  rw [← mem_selfLoopNames]
  simp only [sccGroup, Bool.or_eq_true, Bool.and_eq_true, decide_eq_true_eq, List.contains_iff_mem]
  cases shape : sortTexts (componentNames (buildGraph vertices edges) component) with
  | nil => simp [shape] at sorted
  | cons head rest =>
      cases rest with
      | nil =>
          rw [shape, List.mem_singleton] at sorted
          simp [sorted]
      | cons second rest => simp

/-- The groups list each declared function once, a group is one component, the callees outside a
group occur in earlier groups and the cycle flag holds exactly on the cycles. -/
structure VerificationOrder (vertices : List String) (edges : List (String × String))
    (groups : List SccGroup) : Prop where
  complete : (groups.flatMap SccGroup.members).Perm vertices.dedup
  nonempty : ∀ group ∈ groups, group.members ≠ []
  component : ∀ group ∈ groups, ∀ member ∈ group.members, ∀ other,
    other ∈ group.members ↔ SameComponent vertices edges member other
  calleesFirst : ∀ before group after, groups = before ++ group :: after →
    ∀ member ∈ group.members, ∀ callee, Calls vertices edges member callee →
      callee ∈ group.members ∨ ∃ earlier ∈ before, callee ∈ earlier.members
  cycle : ∀ group ∈ groups, ∀ member ∈ group.members,
    (group.isCycle = true ↔ OnCycle vertices edges member)

/-- The loop ends without a counter below zero, every group was ready in some round and got the
level of that round, and no counter is left above zero. -/
def LayeringComplete {Weight : Type} (condensed : DiGraph Weight) : Prop :=
  ∃ state, finalLayering condensed = some state ∧
    ∀ group < condensed.nodeCount, state.outDegree.getD group 0 = 0 ∧
      ∃ earlier, ReachedLayering condensed earlier ∧ group ∈ earlier.ready ∧
        state.levelsMap.getD group 0 = earlier.currentLevel

section Order

variable {components : List (List Nat)} {condensed : DiGraph (List String)}

theorem condensed_nodes (condenses : Condenses (buildGraph vertices edges) components condensed) :
    condensed.nodes = components.map (componentNames (buildGraph vertices edges)) :=
  condenses.members

theorem renumber_origin (condenses : Condenses (buildGraph vertices edges) components condensed)
    (levelsMap : List Nat) (group : SccGroup) (member : group ∈ renumber
      (sccGroups (selfLoopNames (buildGraph vertices edges)) condensed levelsMap)) :
    ∃ position component, components[position]? = some component ∧
      group.members = sortTexts (componentNames (buildGraph vertices edges) component) ∧
      group.level = levelsMap.getD position 0 ∧
      group.isCycle = (sccGroup (selfLoopNames (buildGraph vertices edges)) levelsMap position
        (componentNames (buildGraph vertices edges) component)).isCycle := by
  obtain ⟨origin, listed, same⟩ := mem_renumber _ group member
  obtain ⟨position, found⟩ := List.mem_iff_getElem?.mp listed
  rw [sccGroups, condensed_nodes condenses, List.getElem?_mapIdx, List.getElem?_map,
    Option.map_map, Option.map_eq_some_iff] at found
  obtain ⟨component, placed, rfl⟩ := found
  rw [same]
  exact ⟨position, component, placed, rfl, rfl, rfl⟩

/-- The groups list the declared functions once. -/
theorem members_sccGroups (condenses : Condenses (buildGraph vertices edges) components condensed)
    (levelsMap : List Nat) :
    ((sccGroups (selfLoopNames (buildGraph vertices edges)) condensed levelsMap).flatMap
      SccGroup.members).Perm vertices.dedup := by
  have read : (sccGroups (selfLoopNames (buildGraph vertices edges)) condensed levelsMap).map
      SccGroup.members = condensed.nodes.map sortTexts := by
    apply List.ext_getElem?
    intro index
    rw [sccGroups, List.getElem?_map, List.getElem?_mapIdx, List.getElem?_map]
    cases condensed.nodes[index]? <;> rfl
  rw [List.flatMap_def, read, condensed_nodes condenses, List.map_map, ← List.flatMap_def]
  exact (List.Perm.flatMap_left components fun component _ => sortTexts_perm _).trans
    (flatMap_componentNames condenses.strong)

/-- Two groups with a call between them stand at the ends of a condensed edge. -/
theorem condensed_edge (condenses : Condenses (buildGraph vertices edges) components condensed)
    {source target : Nat} {first second : List Nat} (sourceFound : components[source]? = some first)
    (targetFound : components[target]? = some second) (different : source ≠ target)
    {caller callee : String} (calls : Calls vertices edges caller callee)
    (callerMember : caller ∈ componentNames (buildGraph vertices edges) first)
    (calleeMember : callee ∈ componentNames (buildGraph vertices edges) second) :
    condensed.Edge source target := by
  obtain ⟨left, inFirst, leftNamed⟩ := mem_componentNames.mp callerMember
  obtain ⟨right, inSecond, rightNamed⟩ := mem_componentNames.mp calleeMember
  rw [condenses.quotient]
  refine ⟨different, left, ?_, right, ?_, (edge_iff_calls leftNamed rightNamed).mpr calls⟩
  · rw [List.getD_eq_getElem?_getD, sourceFound]
    exact inFirst
  · rw [List.getD_eq_getElem?_getD, targetFound]
    exact inSecond

theorem renumber_order (condenses : Condenses (buildGraph vertices edges) components condensed)
    (levelsMap : List Nat) (descends : ∀ source target, condensed.Edge source target →
      levelsMap.getD target 0 < levelsMap.getD source 0) :
    VerificationOrder vertices edges
      (renumber (sccGroups (selfLoopNames (buildGraph vertices edges)) condensed levelsMap)) := by
  have strong := condenses.strong
  have origin := renumber_origin condenses levelsMap
  have complete := (members_renumber _).trans (members_sccGroups condenses levelsMap)
  have sorted := renumber_sorted
    (sccGroups (selfLoopNames (buildGraph vertices edges)) condensed levelsMap)
  have sortedMember : ∀ names : List String, ∀ name, name ∈ sortTexts names ↔ name ∈ names :=
    fun names name => (sortTexts_perm names).mem_iff
  refine {
    complete
    nonempty := ?_
    component := ?_
    calleesFirst := ?_
    cycle := ?_ }
  · intro group member
    obtain ⟨position, component, found, members, _⟩ := origin group member
    have listed := List.mem_of_getElem? found
    have length := (sortTexts_perm (componentNames (buildGraph vertices edges) component)).length_eq
    rw [length_componentNames strong listed, ← members] at length
    have positive := List.length_pos_iff.mpr (strong.nonempty component listed)
    exact List.length_pos_iff.mp (by omega)
  · intro group listed member inside other
    obtain ⟨position, component, found, members, _⟩ := origin group listed
    rw [members, sortedMember] at inside ⊢
    exact mem_componentNames_iff strong (List.mem_of_getElem? found) inside other
  · intro before group after split member inside callee calls
    have groupListed : group ∈ renumber (sccGroups (selfLoopNames (buildGraph vertices edges))
        condensed levelsMap) := by
      rw [split]
      simp
    have declared : callee ∈ vertices.dedup := List.mem_dedup.mpr calls.2.1
    obtain ⟨other, otherListed, calleeInside⟩ :=
      List.mem_flatMap.mp (complete.mem_iff.mpr declared)
    obtain ⟨source, first, sourceFound, members, level, _⟩ := origin group groupListed
    obtain ⟨target, second, targetFound, otherMembers, otherLevel, _⟩ := origin other otherListed
    by_cases same : source = target
    · subst same
      obtain rfl := Option.some.inj (sourceFound.symm.trans targetFound)
      rw [otherMembers, ← members] at calleeInside
      exact .inl calleeInside
    · rw [members, sortedMember] at inside
      have calleeMember := calleeInside
      rw [otherMembers, sortedMember] at calleeMember
      have lower := descends source target
        (condensed_edge condenses sourceFound targetFound same calls inside calleeMember)
      rw [← level, ← otherLevel] at lower
      rw [split] at otherListed sorted
      rcases List.mem_append.mp otherListed with earlier | later
      · exact .inr ⟨other, earlier, calleeInside⟩
      · -- A lower level does not stand behind the group.
        have tail := (List.pairwise_cons.mp (List.pairwise_append.mp sorted).2.1).1
        rcases List.mem_cons.mp later with rfl | behind
        · omega
        · have bound := tail other behind
          omega
  · intro group listed member inside
    obtain ⟨position, component, found, members, _, cycle⟩ := origin group listed
    rw [members, sortedMember] at inside
    rw [cycle]
    exact sccGroup_isCycle strong (List.mem_of_getElem? found) levelsMap position member inside

end Order

/-- No level stands above the highest one. -/
theorem getD_le_max (levels : List Nat) (index : Nat) : levels.getD index 0 ≤ levels.max?.getD 0 := by
  rw [List.getD_eq_getElem?_getD]
  cases found : levels[index]? with
  | none => exact Nat.zero_le _
  | some level =>
      have member := List.mem_of_getElem? found
      cases highest : levels.max? with
      | none =>
          rw [List.max?_eq_none_iff] at highest
          simp [highest] at member
      | some top => exact (List.max?_eq_some_iff.mp highest).2 level member

/-- The order of the functions of a call graph is a verification order and its loop is complete. -/
theorem computeTopologicalOrder_correct (condensation : DiGraph String → Bool → DiGraph (List String))
    (vertices : List String) (edges : List (String × String))
    (quotient : IsCondensation (buildGraph vertices edges)
      (condensation (buildGraph vertices edges) true)) :
    (∃ levels, computeTopologicalOrder condensation vertices edges = some levels ∧
      VerificationOrder vertices edges (levels.flatMap Level.groups)) ∧
    LayeringComplete (condensation (buildGraph vertices edges) true) := by
  obtain ⟨components, condenses⟩ := quotient
  obtain ⟨state, final, length, counters, descends, placed⟩ :=
    finalLayering_spec components _ _ condenses
  have order := renumber_order condenses state.levelsMap descends
  refine ⟨?_, state, final, fun group bound => ⟨counters group bound, placed group bound⟩⟩
  rw [computeTopologicalOrder]
  by_cases empty : (buildGraph vertices edges).nodeCount = 0
  · simp only [if_pos empty]
    have none : vertices = [] := by
      rw [List.eq_nil_iff_forall_not_mem]
      intro name declared
      obtain ⟨index, named⟩ := exists_node edges declared
      have bound : index < (buildGraph vertices edges).nodeCount :=
        (List.getElem?_eq_some_iff.mp named).1
      omega
    subst none
    refine ⟨[], rfl, {
      complete := by simp
      nonempty := by simp
      component := by simp
      calleesFirst := by simp
      cycle := by simp }⟩
  · simp only [if_neg empty, final, Option.map_some]
    refine ⟨_, rfl, ?_⟩
    rw [collectLevels_groups _ _ (renumber_sorted _)]
    · exact order
    · intro group member
      obtain ⟨position, _, _, _, level, _⟩ :=
        renumber_origin condenses state.levelsMap group member
      rw [level]
      exact getD_le_max state.levelsMap position

end Groups

def exampleCondensed : DiGraph (List String) where
  nodes := [["leaf"], ["main", "helper"]]
  edges := [(1, 0)]
  within := by decide

theorem exampleCondensed_quotient :
    IsCondensation (buildGraph exampleVertices exampleEdges) exampleCondensed := by
  refine ⟨[[2], [0, 1]], {
    strong := exampleGraph_strong
    members := by decide
    parallel := by decide
    quotient := ?_ }⟩
  intro source target
  have edges : (buildGraph exampleVertices exampleEdges).edges =
      [(0, 1), (1, 0), (1, 2), (2, 2), (1, 2)] := by decide
  simp only [DiGraph.Edge, edges]
  rcases source with _ | _ | source <;> rcases target with _ | _ | target <;>
    simp [exampleCondensed]

/-- The example has a leaf below two mutually recursive callers. -/
theorem computeTopologicalOrder_correct_example :
    (∃ levels, computeTopologicalOrder (fun _ _ => exampleCondensed) exampleVertices exampleEdges =
        some levels ∧
      VerificationOrder exampleVertices exampleEdges (levels.flatMap Level.groups)) ∧
    LayeringComplete exampleCondensed :=
  computeTopologicalOrder_correct (fun _ _ => exampleCondensed) exampleVertices exampleEdges
    exampleCondensed_quotient

end FramaCMcp.Topo
