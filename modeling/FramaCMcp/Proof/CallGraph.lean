/-
This file reads the paths and components of the built graph as those of the named functions.
-/

import FramaCMcp.Construction.Topo
import Mathlib.Data.List.Dedup

namespace FramaCMcp.Topo

open Digraph Relation

/-- A declared function calls another declared function. -/
def Calls (vertices : List String) (edges : List (String × String)) (caller callee : String) :
    Prop := caller ∈ vertices ∧ callee ∈ vertices ∧ (caller, callee) ∈ edges

/-- Chains of calls lead between the functions in both directions. -/
def SameComponent (vertices : List String) (edges : List (String × String))
    (left right : String) : Prop :=
  ReflTransGen (Calls vertices edges) left right ∧ ReflTransGen (Calls vertices edges) right left

/-- A chain of calls leads back to the function. -/
def OnCycle (vertices : List String) (edges : List (String × String)) (function : String) : Prop :=
  TransGen (Calls vertices edges) function function

theorem NamedNodes.names_nodup (nodes : NamedNodes) : nodes.names.Nodup := by
  rw [List.nodup_iff_injective_getElem]
  intro left right same
  have first := (nodes.indexed (nodes.names[left]) left).mpr (by simp)
  have second := (nodes.indexed (nodes.names[left]) right).mpr (by
    rw [show nodes.names[left] = nodes.names[right] from same]
    simp)
  rw [first] at second
  exact Fin.ext (Option.some.inj second)

theorem NamedNodes.lookup_isSome (nodes : NamedNodes) (name : String) :
    (∃ index, nodes.nameToNode.lookup name = some index) ↔ name ∈ nodes.names := by
  rw [List.mem_iff_getElem?]
  simp only [nodes.indexed]

theorem NamedNodes.mem_orInsert (nodes : NamedNodes) (added name : String) :
    name ∈ (nodes.orInsert added).names ↔ name ∈ nodes.names ∨ name = added := by
  unfold NamedNodes.orInsert
  split
  · rename_i index found
    have listed := (nodes.lookup_isSome added).mp ⟨index, found⟩
    constructor
    · intro member
      exact .inl member
    · intro member
      rcases member with member | rfl
      · exact member
      · exact listed
  · rw [NamedNodes.add, List.mem_append, List.mem_singleton]

theorem mem_foldl_orInsert (vertices : List String) (nodes : NamedNodes) (name : String) :
    name ∈ (vertices.foldl NamedNodes.orInsert nodes).names ↔
      name ∈ nodes.names ∨ name ∈ vertices := by
  induction vertices generalizing nodes with
  | nil => simp
  | cons head rest ih => rw [List.foldl_cons, ih, NamedNodes.mem_orInsert, List.mem_cons, or_assoc]

theorem mem_nameNodes {vertices : List String} {name : String} :
    name ∈ (nameNodes vertices).names ↔ name ∈ vertices := by
  rw [nameNodes, mem_foldl_orInsert]
  simp [NamedNodes.empty]

/-- The indices of a list lead to its elements in order. -/
theorem filterMap_range (names : List String) :
    (List.range names.length).filterMap (fun index => names[index]?) = names := by
  induction names with
  | nil => rfl
  | cons head rest ih =>
      rw [List.length_cons, List.range_succ_eq_map, List.filterMap_cons, List.filterMap_map]
      simpa using ih

section Built

variable {vertices : List String} {edges : List (String × String)}

theorem buildGraph_name {index : Nat} {name : String} :
    (buildGraph vertices edges).nodes[index]? = some name ↔
      (nameNodes vertices).nameToNode.lookup name = some index :=
  ((nameNodes vertices).indexed name index).symm

theorem exists_node (edges : List (String × String)) {name : String} (declared : name ∈ vertices) :
    ∃ index : Nat, (buildGraph vertices edges).nodes[index]? = some name := by
  obtain ⟨index, found⟩ := ((nameNodes vertices).lookup_isSome name).mpr (mem_nameNodes.mpr declared)
  exact ⟨index, buildGraph_name.mpr found⟩

theorem declared_of_node {index : Nat} {name : String}
    (named : (buildGraph vertices edges).nodes[index]? = some name) : name ∈ vertices :=
  mem_nameNodes.mp (List.mem_of_getElem? named)

theorem exists_name {index : Nat} (bound : index < (buildGraph vertices edges).nodeCount) :
    ∃ name, (buildGraph vertices edges).nodes[index]? = some name :=
  ⟨_, List.getElem?_eq_getElem bound⟩

theorem node_unique {left right : Nat} {name : String}
    (first : (buildGraph vertices edges).nodes[left]? = some name)
    (second : (buildGraph vertices edges).nodes[right]? = some name) : left = right := by
  rw [buildGraph_name] at first second
  exact Option.some.inj (first.symm.trans second)

variable {caller callee : String}

/-- An edge of the graph is a call between the functions at its ends. -/
theorem edge_iff_calls {left right : Nat}
    (first : (buildGraph vertices edges).nodes[left]? = some caller)
    (second : (buildGraph vertices edges).nodes[right]? = some callee) :
    (buildGraph vertices edges).Edge left right ↔ Calls vertices edges caller callee := by
  have callerIndex := buildGraph_name.mp first
  have calleeIndex := buildGraph_name.mp second
  constructor
  · intro edge
    obtain ⟨⟨source, target⟩, member, resolved⟩ := List.mem_filterMap.mp edge
    obtain ⟨sourceIndex, targetIndex⟩ := resolveEdge_eq_some.mp resolved
    have sourceName := (((nameNodes vertices).indexed source left).mp sourceIndex).symm.trans first
    have targetName := (((nameNodes vertices).indexed target right).mp targetIndex).symm.trans second
    obtain rfl := Option.some.inj sourceName
    obtain rfl := Option.some.inj targetName
    exact ⟨declared_of_node first, declared_of_node second, member⟩
  · intro calls
    exact List.mem_filterMap.mpr
      ⟨(caller, callee), calls.2.2, resolveEdge_eq_some.mpr ⟨callerIndex, calleeIndex⟩⟩

/-- A path of the graph is a chain of calls. -/
theorem reaches_iff_calls {left right : Nat}
    (first : (buildGraph vertices edges).nodes[left]? = some caller)
    (second : (buildGraph vertices edges).nodes[right]? = some callee) :
    (buildGraph vertices edges).Reaches left right ↔
      ReflTransGen (Calls vertices edges) caller callee := by
  constructor
  · intro path
    have lifted : (buildGraph vertices edges).Edge ≤ Function.onFun (Calls vertices edges)
        fun index => ((buildGraph vertices edges).nodes[index]?).getD "" := by
      intro source target edge
      obtain ⟨sourceBound, targetBound⟩ : source < (buildGraph vertices edges).nodeCount ∧
          target < (buildGraph vertices edges).nodeCount := (buildGraph vertices edges).within _ edge
      obtain ⟨sourceName, sourceNamed⟩ := exists_name sourceBound
      obtain ⟨targetName, targetNamed⟩ := exists_name targetBound
      simp only [Function.onFun, sourceNamed, targetNamed, Option.getD_some]
      exact (edge_iff_calls sourceNamed targetNamed).mp edge
    have chain := ReflTransGen.lift _ lifted left right path
    simp only [Function.onFun, first, second, Option.getD_some] at chain
    exact chain
  · intro path
    have lifted : Calls vertices edges ≤ Function.onFun (buildGraph vertices edges).Edge
        fun name => ((nameNodes vertices).nameToNode.lookup name).getD 0 := by
      intro source target calls
      obtain ⟨sourceIndex, sourceNamed⟩ := exists_node edges calls.1
      obtain ⟨targetIndex, targetNamed⟩ := exists_node edges calls.2.1
      simp only [Function.onFun, buildGraph_name.mp sourceNamed, buildGraph_name.mp targetNamed,
        Option.getD_some]
      exact (edge_iff_calls sourceNamed targetNamed).mpr calls
    have chain := ReflTransGen.lift _ lifted caller callee path
    simp only [Function.onFun, buildGraph_name.mp first, buildGraph_name.mp second,
      Option.getD_some] at chain
    exact chain

theorem connected_iff_sameComponent {left right : Nat}
    (first : (buildGraph vertices edges).nodes[left]? = some caller)
    (second : (buildGraph vertices edges).nodes[right]? = some callee) :
    (buildGraph vertices edges).Connected left right ↔
      SameComponent vertices edges caller callee :=
  and_congr (reaches_iff_calls first second) (reaches_iff_calls second first)

theorem SameComponent.declared (both : SameComponent vertices edges caller callee)
    (declared : caller ∈ vertices) : callee ∈ vertices := by
  rcases ReflTransGen.cases_tail both.1 with rfl | ⟨_, _, calls⟩
  · exact declared
  · exact calls.2.1

def componentNames (graph : DiGraph String) (component : List Nat) : List String :=
  component.filterMap fun index => graph.nodes[index]?

theorem mem_componentNames {component : List Nat} {name : String} :
    name ∈ componentNames (buildGraph vertices edges) component ↔
      ∃ index ∈ component, (buildGraph vertices edges).nodes[index]? = some name :=
  List.mem_filterMap

section Component

variable {components : List (List Nat)} {component : List Nat}

theorem component_nodup (strong : StrongComponents (buildGraph vertices edges) components)
    (listed : component ∈ components) : component.Nodup := by
  have distinct : components.flatten.Nodup := strong.partition.nodup_iff.mpr List.nodup_range
  exact (List.nodup_flatten.mp distinct).1 component listed

theorem componentNames_nodup (strong : StrongComponents (buildGraph vertices edges) components)
    (listed : component ∈ components) :
    (componentNames (buildGraph vertices edges) component).Nodup := by
  apply (component_nodup strong listed).filterMap
  intro left right name first second
  rw [Option.mem_def] at first second
  exact node_unique first second

/-- Each index of a component has one name. -/
theorem length_componentNames (strong : StrongComponents (buildGraph vertices edges) components)
    (listed : component ∈ components) :
    (componentNames (buildGraph vertices edges) component).length = component.length := by
  have named : ∀ index ∈ component, ∃ name,
      (buildGraph vertices edges).nodes[index]? = some name := by
    intro index inside
    exact exists_name (strong.component_bound component listed index inside)
  clear listed
  induction component with
  | nil => rfl
  | cons head rest ih =>
      obtain ⟨name, found⟩ := named head List.mem_cons_self
      have later := ih fun index inside => named index (List.mem_cons_of_mem head inside)
      rw [componentNames] at later ⊢
      rw [List.filterMap_cons, found, List.length_cons, List.length_cons, later]

theorem mem_componentNames_iff (strong : StrongComponents (buildGraph vertices edges) components)
    (listed : component ∈ components) {name : String}
    (member : name ∈ componentNames (buildGraph vertices edges) component) (other : String) :
    other ∈ componentNames (buildGraph vertices edges) component ↔
      SameComponent vertices edges name other := by
  obtain ⟨index, inside, found⟩ := mem_componentNames.mp member
  rw [mem_componentNames]
  constructor
  · intro has
    obtain ⟨otherIndex, otherInside, otherFound⟩ := has
    exact (connected_iff_sameComponent found otherFound).mp
      ((strong.connected component listed index inside otherIndex).mp otherInside)
  · intro both
    obtain ⟨otherIndex, otherFound⟩ := exists_node edges (both.declared (declared_of_node found))
    exact ⟨otherIndex, (strong.connected component listed index inside otherIndex).mpr
      ((connected_iff_sameComponent found otherFound).mpr both), otherFound⟩

/-- A function lies on a cycle where its component has two names or the function calls itself. -/
theorem onCycle_iff (strong : StrongComponents (buildGraph vertices edges) components)
    (listed : component ∈ components) {name : String}
    (member : name ∈ componentNames (buildGraph vertices edges) component) :
    OnCycle vertices edges name ↔
      2 ≤ (componentNames (buildGraph vertices edges) component).length ∨
        Calls vertices edges name name :=
  transGen_self_iff (Calls vertices edges) _ (componentNames_nodup strong listed) name member
    (mem_componentNames_iff strong listed member)

/-- The names of all components are the declared functions, each listed once. -/
theorem flatMap_componentNames (strong : StrongComponents (buildGraph vertices edges) components) :
    (components.flatMap (componentNames (buildGraph vertices edges))).Perm vertices.dedup := by
  have same : components.flatMap (componentNames (buildGraph vertices edges)) =
      componentNames (buildGraph vertices edges) components.flatten := by
    rw [componentNames, List.filterMap_flatten, List.flatMap_def]
    rfl
  have listed : (componentNames (buildGraph vertices edges)
      (List.range (buildGraph vertices edges).nodeCount)) = (buildGraph vertices edges).nodes :=
    filterMap_range _
  have distinct : (buildGraph vertices edges).nodes.Nodup := (nameNodes vertices).names_nodup
  rw [same]
  refine (strong.partition.filterMap _).trans ?_
  rw [componentNames] at listed
  rw [listed, List.perm_ext_iff_of_nodup distinct (List.nodup_dedup vertices)]
  intro name
  rw [List.mem_dedup]
  exact mem_nameNodes

end Component

end Built

def exampleVertices : List String := ["main", "helper", "leaf", "main"]

/-- The two callers are recursive, the leaf calls itself and one callee is not declared. -/
def exampleEdges : List (String × String) :=
  [("main", "helper"), ("helper", "main"), ("helper", "leaf"), ("leaf", "leaf"),
    ("leaf", "printf"), ("helper", "leaf")]

theorem exampleGraph_strong :
    StrongComponents (buildGraph exampleVertices exampleEdges) [[2], [0, 1]] :=
  .of_rank (fun index => if index = 2 then 0 else 1) (by decide) (by decide) (by decide) (by decide)
    (by decide)

end FramaCMcp.Topo
