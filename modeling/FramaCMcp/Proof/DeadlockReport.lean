/-
This file shows for which lock graphs the deadlock report is exact.
-/

import FramaCMcp.Construction.LockReport

namespace FramaCMcp.Concurrency

open Digraph Relation

/-- A walk over the program builds its graph by these operations. -/
inductive LockOperation where
  | take (lock : String) (shared : Bool)
  | record (first second : String) (shared : Bool) (site : Site)

namespace LockGraph

def apply (graph : LockGraph) : LockOperation → LockGraph
  | .take lock shared => graph.take lock shared
  | .record first second shared site => graph.record first second shared site

def built (cap : Nat) (operations : List LockOperation) : LockGraph :=
  operations.foldl apply (empty cap)

end LockGraph

def isRecord : LockOperation → Bool
  | .record .. => true
  | .take .. => false

/-- All acquisitions on the edges of the graph are counted. -/
def siteCount (graph : LockGraph) : Nat :=
  graph.sitesDropped + graph.edges.total EdgeSites.count

section Accounting

theorem siteCount_apply (graph : LockGraph) (operation : LockOperation) :
    siteCount (graph.apply operation) =
      siteCount graph + if isRecord operation then 1 else 0 := by
  cases operation with
  | take lock shared =>
      show siteCount (graph.take lock shared) = siteCount graph
      unfold LockGraph.take
      split_ifs <;> rfl
  | record first second shared site =>
      show siteCount (graph.record first second shared site) = siteCount graph + 1
      unfold LockGraph.record
      simp only
      split_ifs with full
      · unfold siteCount
        simp only
        omega
      · have counted := OrderedMap.total_modify graph.edges EdgeSites.count
          (toLex (first, second)) .empty (fun edge =>
            { sites := if edge.sites.length < sitesPerEdge then
                  edge.sites ++ [(site.file, site.line)]
                else edge.sites
              count := edge.count + 1
              threads := edge.threads.addAll site.threads
              exclusive := edge.exclusive || !shared }) rfl
        simp only at counted
        unfold siteCount
        simp only
        omega

/-- Each recorded acquisition is counted on its edge or as omitted. -/
theorem siteCount_built (cap : Nat) (operations : List LockOperation) :
    siteCount (.built cap operations) = operations.countP isRecord := by
  have step (graph : LockGraph) : siteCount (operations.foldl LockGraph.apply graph) =
      siteCount graph + operations.countP isRecord := by
    induction operations generalizing graph with
    | nil => rfl
    | cons operation rest ih =>
        rw [List.foldl_cons, ih, siteCount_apply, List.countP_cons]
        omega
  rw [LockGraph.built, step]
  exact Nat.zero_add _

def takesExclusive (lock : String) : LockOperation → Bool
  | .take other shared => other == lock && !shared
  | .record .. => false

theorem writers_apply {graph : LockGraph} (room : graph.cap ≠ 0) (operation : LockOperation)
    (lock : String) :
    OrderedMap.contains (graph.apply operation).writers lock =
      (OrderedMap.contains graph.writers lock || takesExclusive lock operation) := by
  cases operation with
  | record first second shared site =>
      unfold LockGraph.apply LockGraph.record
      simp only [takesExclusive, Bool.or_false]
      split_ifs <;> rfl
  | take other shared =>
      unfold LockGraph.apply LockGraph.take
      simp only [if_neg room, takesExclusive]
      cases shared with
      | true => simp
      | false =>
          simp only [Bool.not_false, Bool.true_and, Bool.and_true]
          by_cases known : OrderedMap.contains graph.writers other = true
          · rw [known]
            by_cases same : other = lock
            · simp [← same, known]
            · simp [same]
          · rw [Bool.not_eq_true] at known
            simp only [known, Bool.not_false, if_true]
            rw [OrderedMap.contains, OrderedSet.add, OrderedMap.lookup_insert]
            by_cases same : lock = other
            · simp [same]
            · simp [same, Ne.symm same, OrderedMap.contains]

theorem cap_apply (graph : LockGraph) (operation : LockOperation) :
    (graph.apply operation).cap = graph.cap := by
  cases operation with
  | take lock shared =>
      unfold LockGraph.apply LockGraph.take
      simp only
      split_ifs <;> rfl
  | record first second shared site =>
      unfold LockGraph.apply LockGraph.record
      simp only
      split_ifs <;> rfl

/-- The writers are the locks that were taken in exclusive mode. -/
theorem writers_built {cap : Nat} (room : cap ≠ 0) (operations : List LockOperation)
    (lock : String) :
    OrderedMap.contains (LockGraph.built cap operations).writers lock =
      operations.any (takesExclusive lock) := by
  have step (graph : LockGraph) (open_ : graph.cap ≠ 0) :
      OrderedMap.contains (operations.foldl LockGraph.apply graph).writers lock =
        (OrderedMap.contains graph.writers lock || operations.any (takesExclusive lock)) := by
    induction operations generalizing graph with
    | nil => simp
    | cons operation rest ih =>
        rw [List.foldl_cons, ih _ (by rwa [cap_apply]), writers_apply open_, List.any_cons,
          Bool.or_assoc]
  rw [LockGraph.built, step _ room]
  rfl

/-- A graph without room has no edge. -/
theorem edges_built_zero (operations : List LockOperation) :
    (LockGraph.built 0 operations).edges = OrderedMap.empty := by
  have both : (LockGraph.built 0 operations).edges = OrderedMap.empty ∧
      (LockGraph.built 0 operations).cap = 0 := by
    refine List.foldlRecOn (motive := fun graph : LockGraph =>
      graph.edges = OrderedMap.empty ∧ graph.cap = 0) operations LockGraph.apply ⟨rfl, rfl⟩ ?_
    rintro graph ⟨none, closed⟩ operation _
    refine ⟨?_, by rw [cap_apply, closed]⟩
    cases operation with
    | take lock shared =>
        unfold LockGraph.apply LockGraph.take
        simp only [if_pos closed]
        exact none
    | record first second shared site =>
        unfold LockGraph.apply LockGraph.record
        simp only [none, closed]
        rw [if_pos ⟨Nat.zero_le _, rfl⟩]
  exact both.1

end Accounting

/-- The second lock is taken while the first one is held. -/
def LockOrder (graph : LockGraph) (first second : String) : Prop :=
  graph.edges.contains (toLex (first, second)) = true

/-- Two different locks are ordered. -/
def Arc (graph : LockGraph) (first second : String) : Prop :=
  first ≠ second ∧ LockOrder graph first second

section Arcs

theorem mem_pairsOf_iff (graph : LockGraph) (first second : String) (edge : EdgeSites) :
    ((first, second), edge) ∈ pairsOf graph ↔
      graph.edges.lookup (toLex (first, second)) = some edge := by
  rw [← OrderedMap.mem_entries_iff, pairsOf, List.mem_map]
  constructor
  · rintro ⟨⟨key, value⟩, member, same⟩
    obtain ⟨rfl, rfl⟩ := Prod.mk.inj same
    exact member
  · intro member
    exact ⟨_, member, rfl⟩

theorem mem_map_pairsOf (graph : LockGraph) (key : String × String) :
    key ∈ (pairsOf graph).map Prod.fst ↔ LockOrder graph key.1 key.2 := by
  unfold LockOrder OrderedMap.contains
  rw [Option.isSome_iff_exists, List.mem_map]
  constructor
  · rintro ⟨⟨_, edge⟩, member, rfl⟩
    exact ⟨edge, (mem_pairsOf_iff ..).mp member⟩
  · rintro ⟨edge, found⟩
    exact ⟨(key, edge), (mem_pairsOf_iff ..).mpr found, rfl⟩

theorem mem_targetsOf_addTarget (adjacent : OrderedMap String (OrderedSet String))
    (key : String × String) (first second : String) :
    second ∈ targetsOf (addTarget adjacent key) first ↔
      second ∈ targetsOf adjacent first ∨ first ≠ second ∧ key = (first, second) := by
  rcases key with ⟨source, target⟩
  unfold addTarget
  by_cases loop : source = target
  · rw [if_pos loop]
    subst loop
    constructor
    · exact .inl
    · rintro (old | ⟨different, same⟩)
      · exact old
      · obtain ⟨rfl, rfl⟩ := Prod.mk.inj same
        exact absurd rfl different
  · rw [if_neg loop]
    unfold targetsOf
    rw [OrderedMap.lookup_modify]
    by_cases here : first = source
    · subst here
      rw [if_pos rfl, Option.getD_some, OrderedSet.mem_keys_add]
      constructor
      · rintro (rfl | old)
        · exact .inr ⟨loop, rfl⟩
        · exact .inl old
      · rintro (old | ⟨_, same⟩)
        · exact .inr old
        · exact .inl (Prod.mk.inj same).2.symm
    · rw [if_neg here]
      constructor
      · exact .inl
      · rintro (old | ⟨_, same⟩)
        · exact old
        · exact absurd (Prod.mk.inj same).1.symm here

theorem mem_targetsOf_foldl (keys : List (String × String))
    (adjacent : OrderedMap String (OrderedSet String)) (first second : String) :
    second ∈ targetsOf (keys.foldl addTarget adjacent) first ↔
      second ∈ targetsOf adjacent first ∨ first ≠ second ∧ (first, second) ∈ keys := by
  induction keys generalizing adjacent with
  | nil => simp
  | cons key rest ih =>
      rw [List.foldl_cons, ih, mem_targetsOf_addTarget, List.mem_cons, eq_comm]
      tauto

/-- The adjacency has the edges between different locks. -/
theorem mem_arcs_iff (graph : LockGraph) (first second : String) :
    (first, second) ∈ arcsOf (adjacency graph) ↔ Arc graph first second := by
  rw [mem_arcsOf, adjacency, mem_targetsOf_foldl, mem_map_pairsOf]
  constructor
  · rintro (none | arc)
    · exact nomatch none
    · exact arc
  · exact .inr

/-- The nodes of the directed graph are the locks, and its edges the order of different locks. -/
theorem lockGraph_represents (graph : LockGraph) :
    Represents (directedGraph (arcsOf (adjacency graph))) (Arc graph) := by
  have related : (fun first second => second ∈ targetsOf (adjacency graph) first) = Arc graph := by
    funext first second
    exact propext ((mem_arcsOf ..).symm.trans (mem_arcs_iff ..))
  rw [← related]
  exact directedGraph_represents (adjacency graph)

end Arcs

/-- These are the sorted locks of a strong component of two or more. -/
structure IsCycle (graph : LockGraph) (members : List String) : Prop where
  sorted : members.Pairwise (· < ·)
  several : 1 < members.length
  connected : ∀ lock ∈ members, ∀ other, other ∈ members ↔
    ReflTransGen (LockOrder graph) lock other ∧ ReflTransGen (LockOrder graph) other lock

/-- An edge from a lock to itself leads nowhere else. -/
theorem reflTransGen_arc_iff (graph : LockGraph) (first second : String) :
    ReflTransGen (Arc graph) first second ↔ ReflTransGen (LockOrder graph) first second := by
  constructor
  · intro path
    induction path with
    | refl => exact .refl
    | tail _ arc ih => exact ih.tail arc.2
  · intro path
    induction path with
    | refl => exact .refl
    | @tail middle last _ step ih =>
        by_cases same : middle = last
        · exact same ▸ ih
        · exact ih.tail ⟨same, step⟩

theorem sorted_unique {left right : List String} (first : left.Pairwise (· < ·))
    (second : right.Pairwise (· < ·)) (same : ∀ name, name ∈ left ↔ name ∈ right) :
    left = right := by
  have permuted : left.Perm right :=
    (List.perm_ext_iff_of_nodup (first.imp fun less => less.ne)
      (second.imp fun less => less.ne)).mpr same
  exact permuted.eq_of_pairwise (fun a b _ _ before after => absurd before (lt_asymm after))
    first second

section Cycles

variable (kosarajuScc : DiGraph String → List (List Nat))

def cyclesOf (graph : LockGraph) : List (List String) :=
  (components kosarajuScc (adjacency graph)).filter fun members => decide (1 < members.length)

variable {kosarajuScc} {graph : LockGraph}
  (strong : StrongComponents (directedGraph (arcsOf (adjacency graph)))
    (kosarajuScc (directedGraph (arcsOf (adjacency graph)))))

variable {members : List String}

theorem mem_cyclesOf :
    members ∈ cyclesOf kosarajuScc graph ↔ 1 < members.length ∧
      ∃ component ∈ kosarajuScc (directedGraph (arcsOf (adjacency graph))),
        members = StableSort.sortByKey id
          ((directedGraph (arcsOf (adjacency graph))).weightsOf component) := by
  unfold cyclesOf components
  rw [List.mem_filter, (StableSort.sortByKey_perm ..).mem_iff, List.mem_map, decide_eq_true_eq,
    and_comm]
  constructor
  · rintro ⟨several, component, listed, rfl⟩
    exact ⟨several, component, listed, rfl⟩
  · rintro ⟨several, component, listed, rfl⟩
    exact ⟨several, component, listed, rfl⟩

include strong in
/-- The sorted names of a component are a class of locks. -/
theorem sorted_component {component : List Nat}
    (listed : component ∈ kosarajuScc (directedGraph (arcsOf (adjacency graph)))) :
    (StableSort.sortByKey id
        ((directedGraph (arcsOf (adjacency graph))).weightsOf component)).Pairwise (· < ·) ∧
      ∀ lock ∈ (directedGraph (arcsOf (adjacency graph))).weightsOf component, ∀ other,
        other ∈ (directedGraph (arcsOf (adjacency graph))).weightsOf component ↔
          ReflTransGen (LockOrder graph) lock other ∧
            ReflTransGen (LockOrder graph) other lock := by
  have represents := lockGraph_represents graph
  constructor
  · have distinct := (StableSort.sortByKey_perm id _).nodup_iff.mpr
      (represents.weightsOf_nodup strong listed)
    exact ((StableSort.sortByKey_sorted id _).and distinct).imp fun both =>
      lt_of_le_of_ne both.1 both.2
  · intro lock member other
    rw [represents.mem_weightsOf_iff strong listed member, reflTransGen_arc_iff,
      reflTransGen_arc_iff]

include strong in
/-- The cycles of the report are the components of two or more locks. -/
theorem mem_cyclesOf_iff : members ∈ cyclesOf kosarajuScc graph ↔ IsCycle graph members := by
  rw [mem_cyclesOf]
  constructor
  · rintro ⟨several, component, listed, rfl⟩
    obtain ⟨sorted, connected⟩ := sorted_component strong listed
    refine ⟨sorted, several, ?_⟩
    intro lock member other
    rw [(StableSort.sortByKey_perm id _).mem_iff] at member ⊢
    exact connected lock member other
  · intro cycle
    refine ⟨cycle.several, ?_⟩
    obtain ⟨first, second, rest, same⟩ : ∃ first second rest, members = first :: second :: rest := by
      rcases members with _ | ⟨first, _ | ⟨second, rest⟩⟩
      · exact absurd cycle.several (by simp)
      · exact absurd cycle.several (by simp)
      · exact ⟨first, second, rest, rfl⟩
    have firstIn : first ∈ members := same ▸ List.mem_cons_self ..
    have secondIn : second ∈ members := same ▸ List.mem_cons_of_mem _ (List.mem_cons_self ..)
    have different : first ≠ second := by
      have order := same ▸ cycle.sorted
      exact ((List.pairwise_cons.mp order).1 second (List.mem_cons_self ..)).ne
    have declared : first ∈ (directedGraph (arcsOf (adjacency graph))).nodes := by
      have path := (reflTransGen_arc_iff graph first second).mpr
        ((cycle.connected first firstIn second).mp secondIn).1
      rcases ReflTransGen.cases_head path with equal | ⟨_, step, _⟩
      · exact absurd equal different
      · exact ((lockGraph_represents graph).declared step).1
    obtain ⟨component, listed, inside⟩ := Represents.exists_weightsOf strong declared
    obtain ⟨sorted, connected⟩ := sorted_component strong listed
    refine ⟨component, listed, sorted_unique cycle.sorted sorted ?_⟩
    intro name
    rw [(StableSort.sortByKey_perm id _).mem_iff, cycle.connected first firstIn,
      connected first inside]

include strong in
theorem cycle_unique {first second : Nat} {members others : List String} {lock : String}
    (here : (cyclesOf kosarajuScc graph)[first]? = some members)
    (there : (cyclesOf kosarajuScc graph)[second]? = some others) (inHere : lock ∈ members)
    (inThere : lock ∈ others) : first = second := by
  have firstCycle := (mem_cyclesOf_iff strong).mp (List.mem_of_getElem? here)
  have secondCycle := (mem_cyclesOf_iff strong).mp (List.mem_of_getElem? there)
  have same : members = others := by
    refine sorted_unique firstCycle.sorted secondCycle.sorted fun name => ?_
    rw [firstCycle.connected lock inHere, secondCycle.connected lock inThere]
  have flat : (kosarajuScc (directedGraph (arcsOf (adjacency graph)))).flatten.Nodup :=
    strong.partition.nodup_iff.mpr List.nodup_range
  have apart := (List.nodup_flatten.mp flat).2
  have distinct : (kosarajuScc (directedGraph (arcsOf (adjacency graph)))).Nodup := by
    refine apart.imp_of_mem ?_
    intro left right leftIn _ disjoint equal
    subst equal
    obtain ⟨index, inside⟩ := List.exists_mem_of_ne_nil _ (strong.nonempty left leftIn)
    exact disjoint inside inside
  have listed : (cyclesOf kosarajuScc graph).Nodup := by
    unfold cyclesOf components
    refine ((StableSort.sortByKey_perm id _).nodup_iff.mpr ?_).filter _
    refine List.Nodup.map_on ?_ distinct
    intro left leftIn right rightIn equal
    obtain ⟨index, inside⟩ := List.exists_mem_of_ne_nil _ (strong.nonempty left leftIn)
    have bound := strong.component_bound left leftIn index inside
    obtain ⟨name, named⟩ : ∃ name,
        (directedGraph (arcsOf (adjacency graph))).nodes[index]? = some name :=
      ⟨_, List.getElem?_eq_getElem bound⟩
    have member : name ∈ (directedGraph (arcsOf (adjacency graph))).weightsOf left :=
      List.mem_filterMap.mpr ⟨index, inside, named⟩
    have sorted := (StableSort.sortByKey_perm id _).mem_iff.mpr member
    have moved := (StableSort.sortByKey_perm id _).mem_iff.mp (equal ▸ sorted)
    obtain ⟨other, otherInside, otherNamed⟩ := List.mem_filterMap.mp moved
    have together := (lockGraph_represents graph).index_unique named otherNamed
    have symmetric : Std.Symm fun left right : List Nat => left.Disjoint right :=
      ⟨fun _ _ disjoint => disjoint.symm⟩
    by_contra different
    exact apart.forall leftIn rightIn different inside (together ▸ otherInside)
  obtain ⟨bound, _⟩ := List.getElem?_eq_some_iff.mp here
  exact (List.getElem?_inj bound listed).mp (by rw [here, there, same])

theorem lookup_foldl_insert (members : List String) (place : Nat) (known : OrderedMap String Nat)
    (name : String) :
    (members.foldl (fun known name => known.insert name place) known).lookup name =
      if name ∈ members then some place else known.lookup name := by
  induction members generalizing known with
  | nil => simp
  | cons member rest ih =>
      rw [List.foldl_cons, ih, OrderedMap.lookup_insert]
      by_cases later : name ∈ rest
      · rw [if_pos later, if_pos (List.mem_cons_of_mem _ later)]
      · rw [if_neg later]
        simp [later]

theorem lookup_componentOf_append (cycles : List (List String)) (members : List String)
    (name : String) :
    (componentOf (cycles ++ [members])).lookup name =
      if name ∈ members then some cycles.length else (componentOf cycles).lookup name := by
  unfold componentOf
  rw [List.zipIdx_append, List.foldl_append]
  simp only [List.zipIdx_singleton, List.foldl_cons, List.foldl_nil, Nat.zero_add]
  exact lookup_foldl_insert ..

/-- No lock stands in two of the lists. -/
def Apart (cycles : List (List String)) : Prop :=
  ∀ {first second : Nat} {members others : List String} {lock : String},
    cycles[first]? = some members → cycles[second]? = some others → lock ∈ members →
      lock ∈ others → first = second

/-- The place of a lock is the one of its only cycle. -/
theorem lookup_componentOf {cycles : List (List String)} (apart : Apart cycles) (name : String)
    (place : Nat) :
    (componentOf cycles).lookup name = some place ↔
      ∃ members, cycles[place]? = some members ∧ name ∈ members := by
  induction cycles using List.reverseRecOn with
  | nil => simp [componentOf]
  | append_singleton cycles last ih =>
      have earlier {place : Nat} {members : List String} (here : cycles[place]? = some members) :
          (cycles ++ [last])[place]? = some members := by
        rw [List.getElem?_append_left (List.getElem?_eq_some_iff.mp here).1, here]
      have final : (cycles ++ [last])[cycles.length]? = some last := by simp
      rw [lookup_componentOf_append]
      by_cases inside : name ∈ last
      · rw [if_pos inside]
        constructor
        · intro same
          obtain rfl := Option.some.inj same
          exact ⟨last, final, inside⟩
        · rintro ⟨members, here, member⟩
          rw [apart final here inside member]
      · rw [if_neg inside, ih fun here there => apart (earlier here) (earlier there)]
        constructor
        · rintro ⟨members, here, member⟩
          exact ⟨members, earlier here, member⟩
        · rintro ⟨members, here, member⟩
          rcases Nat.lt_trichotomy place cycles.length with before | rfl | after
          · rw [List.getElem?_append_left before] at here
            exact ⟨members, here, member⟩
          · rw [final] at here
            exact absurd (Option.some.inj here ▸ member) inside
          · rw [List.getElem?_eq_none (by simp; omega)] at here
            cases here

/-- These are the edges with both ends in the cycle. -/
def innerEdges (graph : LockGraph) (members : List String) :
    List ((String × String) × EdgeSites) :=
  (pairsOf graph).filter fun edge => members.contains edge.1.1 && members.contains edge.1.2

theorem insideOf_eq {cycles : List (List String)} (apart : Apart cycles) {place : Nat}
    (here : cycles[place]? = some members) :
    insideOf graph cycles place = innerEdges graph members := by
  have known (name : String) : ((componentOf cycles).lookup name == some place) =
      members.contains name := by
    rw [Bool.eq_iff_iff, beq_iff_eq, lookup_componentOf apart, List.contains_iff_mem]
    constructor
    · rintro ⟨others, there, member⟩
      exact Option.some.inj (there.symm.trans here) ▸ member
    · exact fun member => ⟨members, here, member⟩
  unfold insideOf innerEdges
  simp only [known]

theorem textsJson_injective {left right : List String} (same : textsJson left = textsJson right) :
    left = right :=
  List.map_injective_iff.mpr (fun _ _ same => Json.str.inj same) (Json.arr.inj same)

def Listed (report : LockReport) (members : List String) : Prop :=
  ∃ deadlock ∈ report.deadlocks, deadlock.get "locks" = some (textsJson members)

include strong in
theorem mem_deadlocks_iff (repeating : Finset String) (deadlock : Json) :
    deadlock ∈ (lockReport kosarajuScc graph repeating true).deadlocks ↔
      ∃ members, IsCycle graph members ∧
        readersOnly members (innerEdges graph members) graph.writers = false ∧
        cycleJson members (innerEdges graph members) repeating = some deadlock := by
  have apart : Apart (cyclesOf kosarajuScc graph) := fun here there inHere inThere =>
    cycle_unique strong here there inHere inThere
  have listed : (lockReport kosarajuScc graph repeating true).deadlocks =
      (cyclesOf kosarajuScc graph).zipIdx.flatMap fun cycle =>
        if readersOnly cycle.1 (insideOf graph (cyclesOf kosarajuScc graph) cycle.2)
          graph.writers then []
        else (cycleJson cycle.1 (insideOf graph (cyclesOf kosarajuScc graph) cycle.2)
          repeating).toList := rfl
  rw [listed, List.mem_flatMap]
  constructor
  · rintro ⟨⟨members, place⟩, member, inside⟩
    have here := List.mem_zipIdx_iff_getElem?.mp member
    simp only [insideOf_eq apart here] at inside
    split_ifs at inside with readers
    · exact nomatch inside
    · exact ⟨members, (mem_cyclesOf_iff strong).mp (List.mem_of_getElem? here),
        Bool.eq_false_iff.mpr readers, Option.mem_toList.mp inside⟩
  · rintro ⟨members, cycle, writers, made⟩
    obtain ⟨place, here⟩ := List.mem_iff_getElem?.mp ((mem_cyclesOf_iff strong).mpr cycle)
    refine ⟨(members, place), List.mem_zipIdx_iff_getElem?.mpr here, ?_⟩
    simp only [insideOf_eq apart here, writers, made]
    simp

include strong in
/-- A cycle is listed where its first edge meets an edge that may run with it. -/
theorem listed_iff (repeating : Finset String) (cycle : IsCycle graph members) :
    Listed (lockReport kosarajuScc graph repeating true) members ↔
      readersOnly members (innerEdges graph members) graph.writers = false ∧
        concurrentCycle (innerEdges graph members) repeating = true := by
  unfold Listed
  constructor
  · rintro ⟨deadlock, member, locks⟩
    obtain ⟨others, _, writers, made⟩ := (mem_deadlocks_iff strong repeating deadlock).mp member
    unfold cycleJson at made
    split_ifs at made with concurrent
    obtain rfl := Option.some.inj made
    have same : textsJson others = textsJson members := Option.some.inj locks
    rw [← textsJson_injective same]
    exact ⟨writers, concurrent⟩
  · rintro ⟨writers, concurrent⟩
    obtain ⟨deadlock, made, locks⟩ : ∃ deadlock,
        cycleJson members (innerEdges graph members) repeating = some deadlock ∧
          deadlock.get "locks" = some (textsJson members) := ⟨_, if_pos concurrent, rfl⟩
    exact ⟨deadlock, (mem_deadlocks_iff strong repeating deadlock).mpr
      ⟨members, cycle, writers, made⟩, locks⟩

end Cycles

section Threads

variable {repeating : Finset String}

theorem threadsConcurrent_nil_right (left : List String) :
    threadsConcurrent left [] repeating = false := by
  cases left <;> rfl

theorem threadsConcurrent_single (one other : String) :
    threadsConcurrent [one] [other] repeating =
      if one = other then decide (one ∈ repeating) || decide (one = unattributed) else true := rfl

/-- Threads that may run with some others may run with any threads, or those with the others. -/
theorem threadsConcurrent_split {first left right : List String} (some_ : first ≠ [])
    (both : threadsConcurrent left right repeating = true) :
    threadsConcurrent first left repeating = true ∨
      threadsConcurrent first right repeating = true := by
  rcases first with _ | ⟨thread, _ | ⟨other, more⟩⟩
  · exact absurd rfl some_
  · rcases left with _ | ⟨l, _ | ⟨l', ls⟩⟩
    · exact nomatch both
    · rcases right with _ | ⟨r, _ | ⟨r', rs⟩⟩
      · exact nomatch both
      · rw [threadsConcurrent_single] at both ⊢
        rw [threadsConcurrent_single]
        by_cases leftSame : thread = l
        · by_cases rightSame : thread = r
          · subst leftSame rightSame
            exact .inl both
          · exact .inr (by rw [if_neg rightSame])
        · exact .inl (by rw [if_neg leftSame])
      · exact .inr rfl
    · exact .inl rfl
  · rcases left with _ | ⟨l, ls⟩
    · exact nomatch both
    · exact .inl (by cases ls <;> rfl)

/-- Threads that may run with themselves may run with any threads. -/
theorem threadsConcurrent_lists_self {first other : List String} (some_ : other ≠ [])
    (self : threadsConcurrent first first repeating = true) :
    threadsConcurrent first other repeating = true := by
  rcases first with _ | ⟨thread, _ | ⟨next, more⟩⟩
  · exact nomatch self
  · rcases other with _ | ⟨o, _ | ⟨o', os⟩⟩
    · exact absurd rfl some_
    · rw [threadsConcurrent_single] at self ⊢
      rw [if_pos rfl] at self
      split_ifs
      · exact self
      · rfl
    · rfl
  · rcases other with _ | ⟨o, os⟩
    · exact absurd rfl some_
    · cases os <;> rfl

/-- Some two of the edges may be taken by threads that run at once. -/
def MayRunTogether (repeating : Finset String)
    (edges : List ((String × String) × EdgeSites)) : Prop :=
  ∃ left right, [left, right].Sublist edges ∧
    threadsConcurrent (threadsOfEdge left.2) (threadsOfEdge right.2) repeating = true

/-- An edge without threads hides no others from the first place, and the first edge is not the
only one with threads where these may run with themselves. -/
def FirstDecides (repeating : Finset String) :
    List ((String × String) × EdgeSites) → Prop
  | [] => True
  | first :: rest =>
      (threadsOfEdge first.2 = [] → ¬MayRunTogether repeating rest) ∧
        ((∀ edge ∈ rest, threadsOfEdge edge.2 = []) →
          threadsConcurrent (threadsOfEdge first.2) (threadsOfEdge first.2) repeating = false)

theorem mayRunTogether_cons {first : (String × String) × EdgeSites}
    {rest : List ((String × String) × EdgeSites)} :
    MayRunTogether repeating (first :: rest) ↔
      (∃ edge ∈ rest,
        threadsConcurrent (threadsOfEdge first.2) (threadsOfEdge edge.2) repeating = true) ∨
      MayRunTogether repeating rest := by
  constructor
  · rintro ⟨left, right, inside, together⟩
    rcases List.sublist_cons_iff.mp inside with later | ⟨remaining, same, later⟩
    · exact .inr ⟨left, right, later, together⟩
    · obtain ⟨rfl, rfl⟩ := List.cons.inj same
      exact .inl ⟨right, List.singleton_sublist.mp later, together⟩
  · rintro (⟨edge, member, together⟩ | ⟨left, right, inside, together⟩)
    · exact ⟨first, edge, .cons_cons _ (List.singleton_sublist.mpr member), together⟩
    · exact ⟨left, right, inside.cons _, together⟩

/-- The test against the first edge finds two edges that may run at once. -/
theorem concurrentCycle_iff (edges : List ((String × String) × EdgeSites)) :
    (concurrentCycle edges repeating = true ↔ MayRunTogether repeating edges) ↔
      FirstDecides repeating edges := by
  cases edges with
  | nil =>
      refine iff_of_true ⟨(fun met => nomatch met), ?_⟩ trivial
      rintro ⟨left, right, inside, _⟩
      exact nomatch inside
  | cons first rest =>
      have met : concurrentCycle (first :: rest) repeating = true ↔
          threadsConcurrent (threadsOfEdge first.2) (threadsOfEdge first.2) repeating = true ∨
          ∃ edge ∈ rest,
            threadsConcurrent (threadsOfEdge first.2) (threadsOfEdge edge.2) repeating = true := by
        simp [concurrentCycle]
      rw [met, mayRunTogether_cons]
      constructor
      · intro exact_
        refine ⟨?_, ?_⟩
        · intro none together
          rcases exact_.mpr (.inr together) with self | ⟨edge, _, meets⟩
          · rw [none] at self
            exact nomatch self
          · rw [none] at meets
            exact nomatch meets
        · intro alone
          rw [Bool.eq_false_iff]
          intro self
          rcases exact_.mp (.inl self) with ⟨edge, member, meets⟩ | ⟨left, right, inside, meets⟩
          · rw [alone edge member, threadsConcurrent_nil_right] at meets
            exact nomatch meets
          · rw [alone left (inside.subset (List.mem_cons_self ..))] at meets
            exact nomatch meets
      · rintro ⟨hidden, alone⟩
        constructor
        · rintro (self | meets)
          · by_contra apart
            have empty : ∀ edge ∈ rest, threadsOfEdge edge.2 = [] := by
              intro edge member
              by_contra threads
              exact apart (.inl ⟨edge, member, threadsConcurrent_lists_self threads self⟩)
            rw [alone empty] at self
            exact nomatch self
          · exact .inl meets
        · rintro (meets | together)
          · exact .inr meets
          · have threads : threadsOfEdge first.2 ≠ [] := fun none => hidden none together
            obtain ⟨left, right, inside, meets⟩ := together
            rcases threadsConcurrent_split threads meets with one | two
            · exact .inr ⟨left, inside.subset (List.mem_cons_self ..), one⟩
            · exact .inr ⟨right, inside.subset (List.mem_cons_of_mem _ (List.mem_cons_self ..)),
                two⟩

end Threads

/-- Some edge is exclusive, or some lock of the cycle is ever taken in exclusive mode. -/
def HasWriter (operations : List LockOperation) (members : List String)
    (edges : List ((String × String) × EdgeSites)) : Prop :=
  (∃ edge ∈ edges, edge.2.exclusive = true) ∨
    ∃ lock ∈ members, operations.any (takesExclusive lock) = true

/-- The report lists the cycles that may deadlock and the self edges, and counts all
acquisitions. -/
structure ReportExact (operations : List LockOperation) (repeating : Finset String)
    (graph : LockGraph) (report : LockReport) : Prop where
  deadlocks : ∀ members, IsCycle graph members →
    (Listed report members ↔ MayRunTogether repeating (innerEdges graph members) ∧
      HasWriter operations members (innerEdges graph members))
  onlyCycles : ∀ deadlock ∈ report.deadlocks, ∃ members, IsCycle graph members ∧
    deadlock.get "locks" = some (textsJson members)
  doubleLocks : ∀ entry, entry ∈ report.doubleLock ↔ ∃ lock edge,
    graph.edges.lookup (toLex (lock, lock)) = some edge ∧ entry = doubleLockJson lock edge
  counted : graph.sitesDropped + graph.edges.total EdgeSites.count = operations.countP isRecord

theorem mem_doubleLock_iff (kosarajuScc : DiGraph String → List (List Nat)) (graph : LockGraph)
    (repeating : Finset String) (threadsDetected : Bool) (entry : Json) :
    entry ∈ (lockReport kosarajuScc graph repeating threadsDetected).doubleLock ↔ ∃ lock edge,
      graph.edges.lookup (toLex (lock, lock)) = some edge ∧ entry = doubleLockJson lock edge := by
  unfold lockReport
  simp only [List.mem_map, List.mem_filter, beq_iff_eq]
  constructor
  · rintro ⟨⟨⟨first, second⟩, edge⟩, ⟨member, same⟩, rfl⟩
    obtain rfl : first = second := same
    exact ⟨first, edge, (mem_pairsOf_iff ..).mp member, rfl⟩
  · rintro ⟨lock, edge, found, rfl⟩
    exact ⟨((lock, lock), edge), ⟨(mem_pairsOf_iff ..).mpr found, rfl⟩, rfl⟩

/-- A cycle has two edges, so its graph has room for edges. -/
theorem cap_ne_zero_of_cycle {cap : Nat} {operations : List LockOperation} {members : List String}
    (cycle : IsCycle (.built cap operations) members) : cap ≠ 0 := by
  rintro rfl
  obtain ⟨first, second, rest, same⟩ : ∃ first second rest, members = first :: second :: rest := by
    rcases members with _ | ⟨first, _ | ⟨second, rest⟩⟩
    · exact absurd cycle.several (by simp)
    · exact absurd cycle.several (by simp)
    · exact ⟨first, second, rest, rfl⟩
  subst same
  have path := ((cycle.connected first (List.mem_cons_self ..) second).mp
    (List.mem_cons_of_mem _ (List.mem_cons_self ..))).1
  rcases ReflTransGen.cases_head path with equal | ⟨next, step, _⟩
  · exact ((List.pairwise_cons.mp cycle.sorted).1 second (List.mem_cons_self ..)).ne equal
  · unfold LockOrder at step
    rw [edges_built_zero] at step
    exact nomatch step

theorem readersOnly_eq_false_iff {cap : Nat} {operations : List LockOperation}
    {members : List String} (cycle : IsCycle (.built cap operations) members) :
    readersOnly members (innerEdges (.built cap operations) members)
        (LockGraph.built cap operations).writers = false ↔
      HasWriter operations members (innerEdges (.built cap operations) members) := by
  unfold readersOnly HasWriter
  simp only [writers_built (cap_ne_zero_of_cycle cycle)]
  rw [Bool.and_eq_false_iff, Bool.not_eq_false', List.all_eq_false, List.any_eq_true]
  simp only [Bool.not_eq_true', Bool.not_eq_false]

/-- The report is exact where the first edge of each written cycle decides it. -/
theorem lockReport_exact_iff (kosarajuScc : DiGraph String → List (List Nat)) (cap : Nat)
    (operations : List LockOperation) (repeating : Finset String)
    (strong : StrongComponents (directedGraph (arcsOf (adjacency (.built cap operations))))
      (kosarajuScc (directedGraph (arcsOf (adjacency (.built cap operations)))))) :
    ReportExact operations repeating (.built cap operations)
        (lockReport kosarajuScc (.built cap operations) repeating true) ↔
      ∀ members, IsCycle (.built cap operations) members →
        HasWriter operations members (innerEdges (.built cap operations) members) →
          FirstDecides repeating (innerEdges (.built cap operations) members) := by
  constructor
  · intro exact_ members cycle writer
    rw [← concurrentCycle_iff]
    have listed := exact_.deadlocks members cycle
    rw [listed_iff strong repeating cycle, readersOnly_eq_false_iff cycle] at listed
    constructor
    · exact fun met => (listed.mp ⟨writer, met⟩).1
    · exact fun together => (listed.mpr ⟨together, writer⟩).2
  · intro decides
    refine ⟨?_, ?_, mem_doubleLock_iff kosarajuScc _ repeating true,
      siteCount_built cap operations⟩
    · intro members cycle
      rw [listed_iff strong repeating cycle, readersOnly_eq_false_iff cycle]
      constructor
      · rintro ⟨writer, met⟩
        exact ⟨((concurrentCycle_iff _).mpr (decides members cycle writer)).mp met, writer⟩
      · rintro ⟨together, writer⟩
        exact ⟨writer, ((concurrentCycle_iff _).mpr (decides members cycle writer)).mpr together⟩
    · intro deadlock member
      obtain ⟨members, cycle, _, made⟩ := (mem_deadlocks_iff strong repeating deadlock).mp member
      unfold cycleJson at made
      split_ifs at made
      obtain rfl := Option.some.inj made
      exact ⟨members, cycle, rfl⟩

def acquisition (first second : String) (threads : List String) : LockOperation :=
  .record first second false { file := "f.c", line := 1, threads }

/-- Two threads take two locks in both orders. -/
def inversion : List LockOperation := [acquisition "a" "b" ["left"], acquisition "b" "a" ["right"]]

/-- Both locks stand in one component. -/
theorem inversion_strong : StrongComponents
    (directedGraph (arcsOf (adjacency (.built 8 inversion)))) [[1, 0]] := by
  refine .of_rank (fun _ => 0) ?_ ?_ ?_ ?_ ?_ <;> decide +kernel

theorem lockReport_exact_iff_example :
    ReportExact inversion ∅ (.built 8 inversion)
        (lockReport (fun _ => [[1, 0]]) (.built 8 inversion) ∅ true) ↔
      ∀ members, IsCycle (.built 8 inversion) members →
        HasWriter inversion members (innerEdges (.built 8 inversion) members) →
          FirstDecides ∅ (innerEdges (.built 8 inversion) members) :=
  lockReport_exact_iff (fun _ => [[1, 0]]) 8 inversion ∅ inversion_strong

/-- The first acquisition stands outside all functions, so no thread is known for it. -/
def threadless : List LockOperation :=
  [acquisition "a" "b" [], acquisition "b" "c" ["left"], acquisition "c" "a" ["right"]]

/-- The three locks are a cycle that two threads may close, and the report lists no deadlock. -/
theorem lockReport_hides_deadlock :
    ¬ReportExact threadless ∅ (.built 8 threadless)
      (lockReport (fun _ => [[2, 1, 0]]) (.built 8 threadless) ∅ true) := by
  intro exact_
  have order (first second : String)
      (edge : LockOrder (.built 8 threadless) first second) :
      second ∈ ["a", "b", "c"] := by
    have listed := (mem_map_pairsOf (.built 8 threadless) (first, second)).mpr edge
    have keys : (pairsOf (.built 8 threadless)).map Prod.fst =
        [("a", "b"), ("b", "c"), ("c", "a")] := by decide +kernel
    rw [keys] at listed
    simp only [List.mem_cons, List.not_mem_nil, or_false, Prod.mk.injEq] at listed ⊢
    rcases listed with ⟨_, rfl⟩ | ⟨_, rfl⟩ | ⟨_, rfl⟩ <;> simp
  have first : ReflTransGen (LockOrder (.built 8 threadless)) "a" "b" :=
    .single (by unfold LockOrder; decide +kernel)
  have second : ReflTransGen (LockOrder (.built 8 threadless)) "b" "c" :=
    .single (by unfold LockOrder; decide +kernel)
  have third : ReflTransGen (LockOrder (.built 8 threadless)) "c" "a" :=
    .single (by unfold LockOrder; decide +kernel)
  have all : ∀ lock ∈ ["a", "b", "c"], ReflTransGen (LockOrder (.built 8 threadless)) "a" lock ∧
      ReflTransGen (LockOrder (.built 8 threadless)) lock "a" := by
    intro lock member
    simp only [List.mem_cons, List.not_mem_nil, or_false] at member
    rcases member with rfl | rfl | rfl
    · exact ⟨.refl, .refl⟩
    · exact ⟨first, second.trans third⟩
    · exact ⟨first.trans second, third⟩
  have cycle : IsCycle (.built 8 threadless) ["a", "b", "c"] := by
    refine ⟨by decide, by decide, ?_⟩
    intro lock member other
    constructor
    · intro inside
      exact ⟨(all lock member).2.trans (all other inside).1,
        (all other inside).2.trans (all lock member).1⟩
    · intro both
      rcases ReflTransGen.cases_tail both.1 with rfl | ⟨_, _, edge⟩
      · exact member
      · exact order _ _ edge
  have together : MayRunTogether ∅ (innerEdges (.built 8 threadless) ["a", "b", "c"]) := by
    have three : (innerEdges (.built 8 threadless) ["a", "b", "c"]).length = 3 := by decide +kernel
    have threads : (innerEdges (.built 8 threadless) ["a", "b", "c"]).map
        (fun edge => threadsOfEdge edge.2) = [[], ["left"], ["right"]] := by decide +kernel
    obtain ⟨ab, bc, ca, edges⟩ := List.length_eq_three.mp three
    rw [edges] at threads ⊢
    simp only [List.map_cons, List.map_nil, List.cons.injEq, and_true] at threads
    refine ⟨bc, ca, List.sublist_cons_self .., ?_⟩
    rw [threads.2.1, threads.2.2]
    decide
  have writer : HasWriter threadless ["a", "b", "c"]
      (innerEdges (.built 8 threadless) ["a", "b", "c"]) :=
    .inl (List.any_eq_true.mp (by decide +kernel))
  obtain ⟨deadlock, member, _⟩ := (exact_.deadlocks _ cycle).mpr ⟨together, writer⟩
  have none : (lockReport (fun _ => [[2, 1, 0]]) (.built 8 threadless) ∅ true).deadlocks.length =
      0 := by decide +kernel
  rw [List.length_eq_zero_iff.mp none] at member
  exact nomatch member

end FramaCMcp.Concurrency
