/-
This file orders the functions of a call graph and finds the functions that are ready.
-/

import FramaCMcp.Construction.Profile
import FramaCMcp.Foundation.Digraph
import FramaCMcp.Foundation.Fixpoint

namespace FramaCMcp.Topo

open Digraph Fixpoint Profile

/-- The map gives the index of each listed name. -/
structure NamedNodes where
  names : List String
  nameToNode : HashMap Nat
  indexed : ∀ name index, nameToNode.lookup name = some index ↔ names[index]? = some name

namespace NamedNodes

def empty : NamedNodes where
  names := []
  nameToNode := ∅
  indexed := by simp

/-- A new name gets the next index. -/
def add (nodes : NamedNodes) (name : String) (fresh : nodes.nameToNode.lookup name = none) :
    NamedNodes where
  names := nodes.names ++ [name]
  nameToNode := nodes.nameToNode.insert name nodes.names.length
  indexed := by
    intro other index
    have known := nodes.indexed other index
    rw [HashMap.lookup_insert_cases]
    by_cases same : other = name
    · subst same
      have absent := nodes.indexed other
      rw [fresh] at absent
      rcases Nat.lt_trichotomy index nodes.names.length with before | rfl | after
      · have unlisted := absent index
        rw [List.getElem?_append_left before]
        simp only [if_true, Option.some.injEq]
        constructor
        · intro equal
          omega
        · intro listed
          cases unlisted.mpr listed
      · simp
      · rw [List.getElem?_eq_none (by simp only [List.length_append, List.length_singleton]; omega)]
        simp only [if_true, Option.some.injEq, reduceCtorEq, iff_false]
        omega
    · rw [if_neg same, known]
      rcases Nat.lt_trichotomy index nodes.names.length with before | rfl | after
      · rw [List.getElem?_append_left before]
      · simpa using Ne.symm same
      · rw [List.getElem?_eq_none (by omega),
          List.getElem?_eq_none (by simp only [List.length_append, List.length_singleton]; omega)]

/-- A known name keeps its index. -/
def orInsert (nodes : NamedNodes) (name : String) : NamedNodes :=
  match found : nodes.nameToNode.lookup name with
  | some _ => nodes
  | none => nodes.add name found

theorem lookup_bound (nodes : NamedNodes) (name : String) (index : Nat)
    (found : nodes.nameToNode.lookup name = some index) : index < nodes.names.length :=
  (List.getElem?_eq_some_iff.mp ((nodes.indexed name index).mp found)).1

end NamedNodes

/-- Each vertex becomes a node where it first occurs. -/
def nameNodes (vertices : List String) : NamedNodes :=
  vertices.foldl NamedNodes.orInsert .empty

/-- An edge with an undeclared end is dropped. -/
def resolveEdge (nameToNode : HashMap Nat) (edge : String × String) : Option (Nat × Nat) :=
  match nameToNode.lookup edge.1, nameToNode.lookup edge.2 with
  | some caller, some callee => some (caller, callee)
  | _, _ => none

theorem resolveEdge_eq_some {nameToNode : HashMap Nat} {edge : String × String}
    {resolved : Nat × Nat} : resolveEdge nameToNode edge = some resolved ↔
      nameToNode.lookup edge.1 = some resolved.1 ∧ nameToNode.lookup edge.2 = some resolved.2 := by
  unfold resolveEdge
  cases nameToNode.lookup edge.1 <;> cases nameToNode.lookup edge.2 <;> simp [Prod.ext_iff]

/-- The nodes are named once and the edges keep their duplicates. -/
def buildGraph (vertices : List String) (edges : List (String × String)) : DiGraph String where
  nodes := (nameNodes vertices).names
  edges := edges.filterMap (resolveEdge (nameNodes vertices).nameToNode)
  within := by
    intro resolved member
    obtain ⟨edge, _, found⟩ := List.mem_filterMap.mp member
    obtain ⟨caller, callee⟩ := resolveEdge_eq_some.mp found
    exact ⟨NamedNodes.lookup_bound _ _ _ caller, NamedNodes.lookup_bound _ _ _ callee⟩

structure SccGroup where
  id : Nat
  members : List String
  level : Nat
  isCycle : Bool
  deriving DecidableEq, Repr

structure Level where
  level : Nat
  groups : List SccGroup
  deriving DecidableEq, Repr

/-- This is the state at the head of the layering loop. -/
structure Layering where
  outDegree : List Nat
  levelsMap : List Nat
  currentLevel : Nat
  ready : List Nat

/-- A caller loses one outstanding callee, and the last one makes it ready. A counter at zero has
nothing to lose. -/
def loseCallee (state : List Nat × List Nat) (caller : Nat) : Option (List Nat × List Nat) :=
  match state.1[caller]? with
  | some (left + 1) =>
      some (state.1.set caller left, if left = 0 then state.2 ++ [caller] else state.2)
  | _ => none

section Layers

variable {Weight : Type} (condensed : DiGraph Weight)

/-- The callers of the ready groups are visited in order, once for each edge. -/
def callersOf (ready : List Nat) : List Nat :=
  ready.flatMap fun group => condensed.neighborsDirected group .incoming

/-- One level is assigned and the next one is collected. -/
def layerRound (state : Layering) : Option Layering := do
  let (outDegree, nextReady) ← (callersOf condensed state.ready).foldlM loseCallee
    (state.outDegree, [])
  some {
    outDegree
    levelsMap := state.ready.foldl (fun levels group => levels.set group state.currentLevel)
      state.levelsMap
    currentLevel := state.currentLevel + 1
    ready := nextReady }

/-- The loop ends where nothing is ready or where a counter would go below zero. -/
def layeringRound : Option Layering → Option (Option Layering)
  | none => none
  | some state => if state.ready.isEmpty then none else some (layerRound condensed state)

/-- Each decrement is paid from the counters. -/
def layeringSize : Option Layering → Nat
  | none => 0
  | some state => state.outDegree.sum + (if state.ready.isEmpty then 0 else 1) + 1

/-- A smaller value at one index lowers the sum by the difference. -/
theorem sum_set_counter (counters : List Nat) (index left : Nat)
    (counter : counters[index]? = some (left + 1)) :
    (counters.set index left).sum + 1 = counters.sum := by
  induction counters generalizing index with
  | nil => simp at counter
  | cons head rest ih =>
      cases index with
      | zero =>
          simp only [List.getElem?_cons_zero, Option.some.injEq] at counter
          simp only [List.set_cons_zero, List.sum_cons]
          omega
      | succ index =>
          have smaller := ih index (by simpa using counter)
          simp only [List.set_cons_succ, List.sum_cons]
          omega

theorem loseCallee_eq_some {state next : List Nat × List Nat} {caller : Nat} :
    loseCallee state caller = some next ↔ ∃ left, state.1[caller]? = some (left + 1) ∧
      next = (state.1.set caller left,
        if left = 0 then state.2 ++ [caller] else state.2) := by
  unfold loseCallee
  split
  · rename_i left counter
    constructor
    · intro lost
      exact ⟨left, counter, (Option.some.inj lost).symm⟩
    · intro lost
      obtain ⟨other, same, rfl⟩ := lost
      rw [counter] at same
      obtain rfl := Nat.succ.inj (Option.some.inj same)
      rfl
  · rename_i exhausted
    constructor
    · intro lost
      cases lost
    · intro lost
      obtain ⟨left, counter, _⟩ := lost
      exact absurd counter (exhausted left)

/-- Each visited caller takes one from the sum of the counters. -/
theorem foldlM_loseCallee_sum (callers : List Nat) (state next : List Nat × List Nat)
    (lost : callers.foldlM loseCallee state = some next) :
    next.1.sum + callers.length = state.1.sum := by
  induction callers generalizing state with
  | nil =>
      simp only [List.foldlM_nil, Option.pure_def, Option.some.injEq] at lost
      simp [lost]
  | cons caller rest ih =>
      simp only [List.foldlM_cons, Option.bind_eq_bind, Option.bind_eq_some_iff] at lost
      obtain ⟨between, first, remaining⟩ := lost
      have later := ih between remaining
      obtain ⟨left, counter, rfl⟩ := loseCallee_eq_some.mp first
      have smaller := sum_set_counter state.1 caller left counter
      simp only [List.length_cons] at later ⊢
      omega

theorem layerRound_eq_some {state next : Layering}
    (round : layerRound condensed state = some next) :
    ∃ outDegree nextReady, (callersOf condensed state.ready).foldlM loseCallee
      (state.outDegree, []) = some (outDegree, nextReady) ∧ next = {
        outDegree
        levelsMap := state.ready.foldl (fun levels group => levels.set group state.currentLevel)
          state.levelsMap
        currentLevel := state.currentLevel + 1
        ready := nextReady } := by
  simp only [layerRound, Option.bind_eq_bind, Option.bind_eq_some_iff] at round
  obtain ⟨⟨outDegree, nextReady⟩, lost, same⟩ := round
  exact ⟨outDegree, nextReady, lost, (Option.some.inj same).symm⟩

theorem layeringRound_decreases (state next : Option Layering)
    (round : layeringRound condensed state = some next) :
    layeringSize next < layeringSize state := by
  cases state with
  | none => cases round
  | some state =>
      simp only [layeringRound] at round
      split_ifs at round with stopped
      obtain rfl := Option.some.inj round
      cases found : layerRound condensed state with
      | none => simp [layeringSize]
      | some next =>
          obtain ⟨outDegree, nextReady, lost, rfl⟩ := layerRound_eq_some condensed found
          have paid := foldlM_loseCallee_sum _ _ _ lost
          simp only [layeringSize, if_neg stopped]
          -- A round without callers finds nothing ready, and any other pays for its callers.
          cases callers : callersOf condensed state.ready with
          | nil =>
              rw [callers] at lost
              simp only [List.foldlM_nil, Option.pure_def, Option.some.injEq,
                Prod.mk.injEq] at lost
              simp [lost.1, ← lost.2]
          | cons caller rest =>
              simp only [callers, List.length_cons] at paid
              split_ifs <;> omega

/-- The layers rise from the groups without callees. -/
def layering : Descent (Option Layering) where
  round := layeringRound condensed
  size := layeringSize
  decreases := layeringRound_decreases condensed

def initialLayering : Layering :=
  let outDegree := (List.range condensed.nodeCount).map fun group =>
    (condensed.neighborsDirected group .outgoing).length
  { outDegree
    levelsMap := List.replicate condensed.nodeCount 0
    currentLevel := 0
    ready := (List.range condensed.nodeCount).filter fun group => outDegree.getD group 0 == 0 }

/-- This is the state after the loop, or nothing where a counter went below zero. -/
def finalLayering : Option Layering :=
  (layering condensed).loop (some (initialLayering condensed))

end Layers

/-- A group is recursive where it has two members or its only member calls itself. -/
def sccGroup (selfLoopNames : List String) (levelsMap : List Nat) (index : Nat)
    (weight : List String) : SccGroup where
  id := index % 2 ^ 32
  members := sortTexts weight
  level := levelsMap.getD index 0
  isCycle := decide (2 ≤ (sortTexts weight).length) ||
    (decide ((sortTexts weight).length = 1) &&
      selfLoopNames.contains ((sortTexts weight).headD ""))

def sccGroups (selfLoopNames : List String) (condensed : DiGraph (List String))
    (levelsMap : List Nat) : List SccGroup :=
  condensed.nodes.mapIdx (sccGroup selfLoopNames levelsMap)

/-- The identifiers ascend with the level and the earlier identifier. -/
def renumber (groups : List SccGroup) : List SccGroup :=
  (StableSort.sortByKey (fun group : SccGroup => toLex (group.level, group.id)) groups).mapIdx
    fun position group => { group with id := position % 2 ^ 32 }

def pushGroup (levels : List Level) (group : SccGroup) : List Level :=
  levels.modify group.level fun level => { level with groups := level.groups ++ [group] }

/-- Each level up to the highest one receives its groups in order. -/
def collectLevels (maxLevel : Nat) (groups : List SccGroup) : List Level :=
  groups.foldl pushGroup ((List.range (maxLevel + 1)).map fun level => { level, groups := [] })

def selfLoopNames (graph : DiGraph String) : List String :=
  ((List.range graph.nodeCount).filter fun node => graph.containsEdge node node).filterMap
    fun node => graph.nodes[node]?

section Condensation

-- The condensation of a graph is computed elsewhere.
variable (condensation : DiGraph String → Bool → DiGraph (List String))

/-- The levels ascend from the leaves. There is no result where a counter would go below zero. -/
def computeTopologicalOrder (vertices : List String) (edges : List (String × String)) :
    Option (List Level) :=
  let graph := buildGraph vertices edges
  if graph.nodeCount = 0 then some []
  else
    let condensed := condensation graph true
    (finalLayering condensed).map fun state =>
      collectLevels (state.levelsMap.max?.getD 0)
        (renumber (sccGroups (selfLoopNames graph) condensed state.levelsMap))

end Condensation

structure ReadyFunc where
  function : String
  sccId : Option Nat
  isCycle : Bool
  sccMembers : List String
  deriving DecidableEq, Repr

/-- This is one strong component with the names of its members. -/
structure Scc where
  names : List String
  isCycle : Bool

def sccOfNodes (graph : DiGraph String) (component : List Nat) : Scc where
  names := component.filterMap fun node => graph.nodes[node]?
  isCycle := decide (2 ≤ component.length) || (decide (component.length = 1) &&
    graph.containsEdge (component.headD 0) (component.headD 0))

/-- Each name leads to the position of its component. -/
def sccOf (sccs : List Scc) : HashMap Nat :=
  HashMap.ofList (sccs.zipIdx.flatMap fun entry => entry.1.names.map fun name => (name, entry.2))

/-- Each callee outside the component of a recursive function must be done. -/
def calleesDone (graph : DiGraph String) (sccOf : HashMap Nat) (done : List String) (node : Nat)
    (position : Nat) (isCycle : Bool) : Bool :=
  ((graph.neighborsDirected node .outgoing).filterMap fun callee => graph.nodes[callee]?).all
    fun callee => (sccOf.lookup callee == some position && isCycle) || done.contains callee

/-- A vertex without a node or a component stops the computation. -/
def readyFunction (graph : DiGraph String) (nameToNode : HashMap Nat) (sccs : List Scc)
    (done : List String) (vertex : String) : Option (Option ReadyFunc) := do
  let node ← nameToNode.lookup vertex
  let position ← (sccOf sccs).lookup vertex
  let scc ← sccs[position]?
  some <|
    if calleesDone graph (sccOf sccs) done node position scc.isCycle then some {
      function := vertex
      sccId := if scc.isCycle then some (position % 2 ^ 32) else none
      isCycle := scc.isCycle
      sccMembers := if scc.isCycle then sortTexts scc.names else [vertex] }
    else none

section Components

-- The strong components of a graph are computed elsewhere.
variable (tarjanScc : DiGraph String → List (List Nat))

/-- The functions whose callees are done are sorted by name. -/
def computeReadyFunctions (vertices : List String) (edges : List (String × String))
    (done inProgress : List String) : Option (List ReadyFunc) := do
  let graph := buildGraph vertices edges
  let sccs := (tarjanScc graph).map (sccOfNodes graph)
  let pending := vertices.filter fun vertex =>
    !(done.contains vertex || inProgress.contains vertex)
  let out ← pending.mapM (readyFunction graph (nameNodes vertices).nameToNode sccs done)
  some (StableSort.sortByKey ReadyFunc.function (out.filterMap id))

end Components

end FramaCMcp.Topo
