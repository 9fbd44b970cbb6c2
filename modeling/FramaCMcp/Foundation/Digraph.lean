/-
This file gives directed graphs with numbered nodes, their strong components and their condensation.
-/

import Mathlib.Data.List.Nodup
import Mathlib.Data.List.Perm.Subperm
import Mathlib.Data.List.GetD
import Mathlib.Logic.Relation

namespace Digraph

/-- A weight stands at each index and each edge joins two of the indices. -/
structure DiGraph (Weight : Type) where
  nodes : List Weight
  edges : List (Nat × Nat)
  within : ∀ edge ∈ edges, edge.1 < nodes.length ∧ edge.2 < nodes.length

/-- An edge leaves its first node and enters its second. -/
inductive Direction where
  | outgoing
  | incoming
  deriving DecidableEq, Repr

namespace DiGraph

variable {Weight : Type} (graph : DiGraph Weight)

def nodeCount : Nat := graph.nodes.length

/-- The latest edge comes first. -/
def neighborsDirected (node : Nat) : Direction → List Nat
  | .outgoing => (graph.edges.reverse.filter fun edge => edge.1 == node).map Prod.snd
  | .incoming => (graph.edges.reverse.filter fun edge => edge.2 == node).map Prod.fst

def containsEdge (source target : Nat) : Bool := graph.edges.contains (source, target)

/-- This relation holds between the ends of an edge. -/
def Edge (source target : Nat) : Prop := (source, target) ∈ graph.edges

/-- A path of edges leads from the first node to the second. -/
def Reaches : Nat → Nat → Prop := Relation.ReflTransGen graph.Edge

/-- Paths lead between the nodes in both directions. -/
def Connected (left right : Nat) : Prop := graph.Reaches left right ∧ graph.Reaches right left

theorem mem_outgoing {source target : Nat} :
    target ∈ graph.neighborsDirected source .outgoing ↔ graph.Edge source target := by
  simp [neighborsDirected, Edge]

theorem mem_incoming {source target : Nat} :
    source ∈ graph.neighborsDirected target .incoming ↔ graph.Edge source target := by
  simp [neighborsDirected, Edge]

theorem containsEdge_iff {source target : Nat} :
    graph.containsEdge source target = true ↔ graph.Edge source target := by
  simp [containsEdge, Edge]

end DiGraph

/-- These lists of indices are the classes of connected nodes and each index occurs once. -/
structure StrongComponents {Weight : Type} (graph : DiGraph Weight)
    (components : List (List Nat)) : Prop where
  partition : components.flatten.Perm (List.range graph.nodeCount)
  nonempty : ∀ component ∈ components, component ≠ []
  connected : ∀ component ∈ components, ∀ left ∈ component, ∀ right,
    right ∈ component ↔ graph.Connected left right

/-- Each node of the condensed graph holds the weights of one component, no edge joins a component
with itself and no edge occurs twice. -/
structure Condenses {Weight : Type} (graph : DiGraph Weight) (components : List (List Nat))
    (condensed : DiGraph (List Weight)) : Prop where
  strong : StrongComponents graph components
  members : condensed.nodes = components.map fun component =>
    component.filterMap fun index => graph.nodes[index]?
  parallel : condensed.edges.Nodup
  quotient : ∀ source target, condensed.Edge source target ↔ source ≠ target ∧
    ∃ left ∈ components.getD source [], ∃ right ∈ components.getD target [], graph.Edge left right

/-- A condensed graph has strong components behind it. -/
def IsCondensation {Weight : Type} (graph : DiGraph Weight) (condensed : DiGraph (List Weight)) :
    Prop := ∃ components, Condenses graph components condensed

/-- A nonempty list has an element that no strict relation takes to another of the list. -/
theorem exists_last {Node : Type} (below : Node → Node → Prop)
    (irreflexive : ∀ node, ¬ below node node)
    (transitive : ∀ first second third, below first second → below second third →
      below first third) (nodes : List Node) (nonempty : nodes ≠ []) :
    ∃ last ∈ nodes, ∀ other ∈ nodes, ¬ below last other := by
  induction nodes with
  | nil => exact absurd rfl nonempty
  | cons head rest ih =>
      by_cases alone : rest = []
      · subst alone
        exact ⟨head, by simp, by simp [irreflexive]⟩
      obtain ⟨last, member, least⟩ := ih alone
      by_cases lower : below last head
      · refine ⟨head, List.mem_cons_self, ?_⟩
        intro other otherMember step
        rcases List.mem_cons.mp otherMember with rfl | later
        · exact irreflexive _ step
        · exact least other later (transitive _ _ _ lower step)
      · refine ⟨last, List.mem_cons_of_mem head member, ?_⟩
        intro other otherMember
        rcases List.mem_cons.mp otherMember with rfl | later
        · exact lower
        · exact least other later

/-- A node that reaches an unconnected node stands strictly above it. -/
def Above {Node : Type} (edge : Node → Node → Prop) (upper lower : Node) : Prop :=
  Relation.ReflTransGen edge upper lower ∧ ¬ Relation.ReflTransGen edge lower upper

theorem above_irreflexive {Node : Type} (edge : Node → Node → Prop) (node : Node) :
    ¬ Above edge node node := fun above => above.2 above.1

theorem above_transitive {Node : Type} (edge : Node → Node → Prop) (first second third : Node)
    (upper : Above edge first second) (lower : Above edge second third) :
    Above edge first third :=
  ⟨upper.1.trans lower.1, fun back => upper.2 (lower.1.trans back)⟩

/-- A member of a class of connected nodes lies on a cycle where the class has two members or the
node has an edge to itself. -/
theorem transGen_self_iff {Node : Type} (edge : Node → Node → Prop) (members : List Node)
    (distinct : members.Nodup) (node : Node) (member : node ∈ members)
    (connected : ∀ other, other ∈ members ↔
      Relation.ReflTransGen edge node other ∧ Relation.ReflTransGen edge other node) :
    Relation.TransGen edge node node ↔ 2 ≤ members.length ∨ edge node node := by
  constructor
  · intro cycle
    obtain ⟨next, step, back⟩ := Relation.TransGen.head'_iff.mp cycle
    by_cases same : next = node
    · subst same
      exact .inr step
    · have inside := (connected next).mpr ⟨.single step, back⟩
      have pair : [next, node] ⊆ members := by
        intro other listed
        rcases List.mem_pair.mp listed with rfl | rfl
        · exact inside
        · exact member
      exact .inl (List.Nodup.subperm (by simpa using same) pair).length_le
  · intro shape
    rcases shape with two | step
    · obtain ⟨other, inside, different⟩ : ∃ other ∈ members, other ≠ node := by
        rcases members with _ | ⟨first, _ | ⟨second, rest⟩⟩
        · simp at two
        · simp at two
        · by_cases same : first = node
          · refine ⟨second, by simp, ?_⟩
            intro equal
            simp [same, equal] at distinct
          · exact ⟨first, by simp, same⟩
      obtain ⟨leave, back⟩ := (connected other).mp inside
      rcases Relation.reflTransGen_iff_eq_or_transGen.mp leave with equal | steps
      · exact absurd equal different
      · exact steps.trans_left back
    · exact .single step

namespace StrongComponents

variable {Weight : Type} {graph : DiGraph Weight} {components : List (List Nat)}

theorem exists_component (strong : StrongComponents graph components) (index : Nat)
    (bound : index < graph.nodeCount) : ∃ component ∈ components, index ∈ component := by
  have listed : index ∈ components.flatten := by
    rw [strong.partition.mem_iff]
    exact List.mem_range.mpr bound
  exact List.mem_flatten.mp listed

theorem component_bound (strong : StrongComponents graph components) (component : List Nat)
    (member : component ∈ components) (index : Nat) (inside : index ∈ component) :
    index < graph.nodeCount := by
  have listed : index ∈ components.flatten := List.mem_flatten.mpr ⟨component, member, inside⟩
  rw [strong.partition.mem_iff] at listed
  exact List.mem_range.mp listed

/-- A rank that falls along the edges tells components apart whose members are joined by edges. -/
theorem of_rank (rank : Nat → Nat) (partition : components.flatten.Perm (List.range graph.nodeCount))
    (nonempty : ∀ component ∈ components, component ≠ [])
    (falls : ∀ edge ∈ graph.edges, rank edge.2 ≤ rank edge.1)
    (level : ∀ component ∈ components, ∀ left ∈ component, ∀ right ∈ List.range graph.nodeCount,
      rank left = rank right → right ∈ component)
    (joined : ∀ component ∈ components, ∀ left ∈ component, ∀ right ∈ component,
      left = right ∨ (left, right) ∈ graph.edges) : StrongComponents graph components := by
  have descends {left right : Nat} (path : graph.Reaches left right) : rank right ≤ rank left := by
    induction path with
    | refl => exact Nat.le_refl _
    | tail _ edge ih => exact Nat.le_trans (falls _ edge) ih
  have reaches {component : List Nat} (listed : component ∈ components) {left right : Nat}
      (inside : left ∈ component) (other : right ∈ component) : graph.Reaches left right := by
    rcases joined component listed left inside right other with rfl | edge
    · exact .refl
    · exact .single edge
  refine ⟨partition, nonempty, fun component listed left inside right => ?_⟩
  constructor
  · exact fun other => ⟨reaches listed inside other, reaches listed other inside⟩
  · intro both
    refine level component listed left inside right ?_ (Nat.le_antisymm
      (descends both.2) (descends both.1))
    rcases both.1.cases_tail with rfl | ⟨_, _, edge⟩
    · exact partition.subset (List.mem_flatten.mpr ⟨component, listed, inside⟩)
    · exact List.mem_range.mpr (graph.within _ edge).2

/-- No index stands in two of the components. -/
theorem position_unique (strong : StrongComponents graph components) (first second index : Nat)
    (inFirst : index ∈ components.getD first []) (inSecond : index ∈ components.getD second []) :
    first = second := by
  have distinct : components.flatten.Nodup :=
    strong.partition.nodup_iff.mpr List.nodup_range
  have apart := (List.nodup_flatten.mp distinct).2
  by_contra different
  have firstBound : first < components.length := by
    by_contra outside
    rw [List.getD_eq_default _ _ (by omega)] at inFirst
    simp at inFirst
  have secondBound : second < components.length := by
    by_contra outside
    rw [List.getD_eq_default _ _ (by omega)] at inSecond
    simp at inSecond
  rw [List.getD_eq_getElem _ _ firstBound] at inFirst
  rw [List.getD_eq_getElem _ _ secondBound] at inSecond
  rcases Nat.lt_or_gt_of_ne different with before | after
  · exact List.pairwise_iff_getElem.mp apart first second firstBound secondBound before
      inFirst inSecond
  · exact List.pairwise_iff_getElem.mp apart second first secondBound firstBound after
      inSecond inFirst

/-- Two members of one component are connected and no other index is. -/
theorem mem_iff_connected (strong : StrongComponents graph components) (position left right : Nat)
    (inside : left ∈ components.getD position []) :
    right ∈ components.getD position [] ↔ graph.Connected left right := by
  have bound : position < components.length := by
    by_contra outside
    rw [List.getD_eq_default _ _ (by omega)] at inside
    simp at inside
  rw [List.getD_eq_getElem _ _ bound] at inside ⊢
  exact strong.connected _ (List.getElem_mem bound) left inside right

end StrongComponents

/-- Each weight stands at one node, and the edges are the related weights. -/
structure Represents {Weight : Type} (graph : DiGraph Weight) (related : Weight → Weight → Prop) :
    Prop where
  distinct : graph.nodes.Nodup
  edge : ∀ {source target left right}, graph.nodes[source]? = some left →
    graph.nodes[target]? = some right → (graph.Edge source target ↔ related left right)
  declared : ∀ {left right}, related left right → left ∈ graph.nodes ∧ right ∈ graph.nodes

def DiGraph.weightsOf {Weight : Type} (graph : DiGraph Weight) (component : List Nat) :
    List Weight := component.filterMap fun index => graph.nodes[index]?

namespace Represents

open Relation

variable {Weight : Type} {graph : DiGraph Weight} {related : Weight → Weight → Prop}

theorem index_unique (represents : Represents graph related) {first second : Nat} {weight : Weight}
    (here : graph.nodes[first]? = some weight) (there : graph.nodes[second]? = some weight) :
    first = second := by
  obtain ⟨bound, same⟩ := List.getElem?_eq_some_iff.mp here
  exact (List.getElem?_inj bound represents.distinct).mp (here.trans there.symm)

/-- A path of the graph is a chain of related weights. -/
theorem reaches_iff (represents : Represents graph related) {source target : Nat}
    {left right : Weight} (first : graph.nodes[source]? = some left)
    (second : graph.nodes[target]? = some right) :
    graph.Reaches source target ↔ ReflTransGen related left right := by
  constructor
  · intro path
    have chain : ∀ last weight, graph.Reaches source last → graph.nodes[last]? = some weight →
        ReflTransGen related left weight := by
      intro last weight path
      induction path generalizing weight with
      | refl =>
          intro here
          rw [Option.some.inj (first.symm.trans here)]
      | @tail middle last _ step ih =>
          intro here
          have bound : middle < graph.nodes.length := (graph.within _ step).1
          have named := List.getElem?_eq_getElem bound
          exact (ih _ named).tail ((represents.edge named here).mp step)
    exact chain target right path second
  · intro path
    induction path generalizing target with
    | refl =>
        rw [represents.index_unique first second]
        exact .refl
    | @tail middle last _ step ih =>
        obtain ⟨index, here⟩ := List.mem_iff_getElem?.mp (represents.declared step).1
        exact (ih here).tail ((represents.edge here second).mpr step)

theorem connected_iff (represents : Represents graph related) {source target : Nat}
    {left right : Weight} (first : graph.nodes[source]? = some left)
    (second : graph.nodes[target]? = some right) :
    graph.Connected source target ↔
      ReflTransGen related left right ∧ ReflTransGen related right left :=
  and_congr (represents.reaches_iff first second) (represents.reaches_iff second first)

variable {components : List (List Nat)} {component : List Nat}

theorem weightsOf_nodup (represents : Represents graph related)
    (strong : StrongComponents graph components) (listed : component ∈ components) :
    (graph.weightsOf component).Nodup := by
  have distinct : components.flatten.Nodup := strong.partition.nodup_iff.mpr List.nodup_range
  apply ((List.nodup_flatten.mp distinct).1 component listed).filterMap
  intro first second weight here there
  exact represents.index_unique here there

/-- The weights of a component are a class of weights with chains in both directions. -/
theorem mem_weightsOf_iff (represents : Represents graph related)
    (strong : StrongComponents graph components) (listed : component ∈ components)
    {weight : Weight} (member : weight ∈ graph.weightsOf component) (other : Weight) :
    other ∈ graph.weightsOf component ↔
      ReflTransGen related weight other ∧ ReflTransGen related other weight := by
  obtain ⟨index, inside, here⟩ := List.mem_filterMap.mp member
  constructor
  · intro has
    obtain ⟨next, nextInside, there⟩ := List.mem_filterMap.mp has
    exact (represents.connected_iff here there).mp
      ((strong.connected component listed index inside next).mp nextInside)
  · intro both
    have declared : other ∈ graph.nodes := by
      rcases ReflTransGen.cases_tail both.1 with rfl | ⟨_, _, step⟩
      · exact List.mem_of_getElem? here
      · exact (represents.declared step).2
    obtain ⟨next, there⟩ := List.mem_iff_getElem?.mp declared
    exact List.mem_filterMap.mpr ⟨next, (strong.connected component listed index inside next).mpr
      ((represents.connected_iff here there).mpr both), there⟩

/-- Each weight stands in the weights of some component. -/
theorem exists_weightsOf (strong : StrongComponents graph components) {weight : Weight}
    (declared : weight ∈ graph.nodes) :
    ∃ component ∈ components, weight ∈ graph.weightsOf component := by
  obtain ⟨index, here⟩ := List.mem_iff_getElem?.mp declared
  obtain ⟨bound, _⟩ := List.getElem?_eq_some_iff.mp here
  obtain ⟨component, listed, inside⟩ := strong.exists_component index bound
  exact ⟨component, listed, List.mem_filterMap.mpr ⟨index, inside, here⟩⟩

end Represents

namespace Condenses

variable {Weight : Type} {graph : DiGraph Weight} {components : List (List Nat)}
  {condensed : DiGraph (List Weight)}

/-- The members of the source of a condensed edge stand strictly above those of its target. -/
theorem edge_above (condenses : Condenses graph components condensed) {source target : Nat}
    (edge : condensed.Edge source target) {left right : Nat}
    (inSource : left ∈ components.getD source []) (inTarget : right ∈ components.getD target []) :
    Above graph.Edge left right := by
  obtain ⟨different, first, firstMember, last, lastMember, step⟩ :=
    (condenses.quotient source target).mp edge
  have strong := condenses.strong
  have leave := (strong.mem_iff_connected source left first inSource).mp firstMember
  have arrive := (strong.mem_iff_connected target last right lastMember).mp inTarget
  refine ⟨leave.1.trans ((Relation.ReflTransGen.single step).trans arrive.1), ?_⟩
  intro back
  have cycle : graph.Connected left right :=
    ⟨leave.1.trans ((Relation.ReflTransGen.single step).trans arrive.1), back⟩
  have moved := (strong.mem_iff_connected source left right inSource).mpr cycle
  exact different (strong.position_unique source target right moved inTarget)

/-- One component stands above another where their members do. -/
def ComponentAbove (graph : DiGraph Weight) (components : List (List Nat)) (upper lower : Nat) :
    Prop :=
  ∃ left ∈ components.getD upper [], ∃ right ∈ components.getD lower [], Above graph.Edge left right

theorem componentAbove_irreflexive (strong : StrongComponents graph components) (position : Nat) :
    ¬ ComponentAbove graph components position position := by
  intro above
  obtain ⟨left, inLeft, right, inRight, strict⟩ := above
  exact strict.2 ((strong.mem_iff_connected position left right inLeft).mp inRight).2

theorem componentAbove_transitive (strong : StrongComponents graph components)
    (first second third : Nat) (upper : ComponentAbove graph components first second)
    (lower : ComponentAbove graph components second third) :
    ComponentAbove graph components first third := by
  obtain ⟨top, inTop, entry, inEntry, down⟩ := upper
  obtain ⟨exit, inExit, bottom, inBottom, further⟩ := lower
  have inner := (strong.mem_iff_connected second entry exit inEntry).mp inExit
  refine ⟨top, inTop, bottom, inBottom, down.1.trans (inner.1.trans further.1), ?_⟩
  intro back
  exact down.2 (inner.1.trans (further.1.trans back))

theorem exists_sink (condenses : Condenses graph components condensed) (pending : List Nat)
    (nonempty : pending ≠ []) :
    ∃ sink ∈ pending, ∀ other ∈ pending, ¬ condensed.Edge sink other := by
  obtain ⟨sink, member, least⟩ := exists_last (ComponentAbove graph components)
    (componentAbove_irreflexive condenses.strong) (componentAbove_transitive condenses.strong)
    pending nonempty
  refine ⟨sink, member, ?_⟩
  intro other otherMember edge
  obtain ⟨_, left, inSource, right, inTarget, _⟩ := (condenses.quotient sink other).mp edge
  exact least other otherMember
    ⟨left, inSource, right, inTarget, condenses.edge_above edge inSource inTarget⟩

end Condenses

end Digraph
