/-
This file shows that the ready functions are exactly those without an outstanding callee and that
verification never gets stuck.
-/

import FramaCMcp.Proof.CallGraph

namespace FramaCMcp.Topo

open Digraph Relation

/-- Every callee of the unfinished function is done or recursive with it. -/
def Ready (vertices : List String) (edges : List (String × String)) (done inProgress : List String)
    (function : String) : Prop :=
  function ∈ vertices ∧ function ∉ done ∧ function ∉ inProgress ∧
    ∀ callee, Calls vertices edges function callee →
      callee ∈ done ∨ SameComponent vertices edges function callee ∧
        OnCycle vertices edges function

theorem keys_sccOf (sccs : List Scc) (start : Nat) :
    ((sccs.zipIdx start).flatMap fun entry => entry.1.names.map fun name =>
      (name, entry.2)).map Prod.fst = sccs.flatMap Scc.names := by
  induction sccs generalizing start with
  | nil => rfl
  | cons head rest ih =>
      rw [List.zipIdx_cons, List.flatMap_cons, List.map_append, ih, List.flatMap_cons,
        List.map_map]
      simp [Function.comp_def]

theorem mapM_some {Input Output : Type} (compute : Input → Option Output) (value : Input → Output)
    (inputs : List Input) (found : ∀ input ∈ inputs, compute input = some (value input)) :
    inputs.mapM compute = some (inputs.map value) := by
  induction inputs with
  | nil => rfl
  | cons head rest ih =>
      rw [List.mapM_cons, found head List.mem_cons_self,
        ih fun input member => found input (List.mem_cons_of_mem head member)]
      rfl

section Components

variable {vertices : List String} {edges : List (String × String)} {components : List (List Nat)}

/-- Each name leads to the position of the component that holds it. -/
theorem lookup_sccOf (strong : StrongComponents (buildGraph vertices edges) components)
    (name : String) (position : Nat) :
    (sccOf (components.map (sccOfNodes (buildGraph vertices edges)))).lookup name = some position ↔
      ∃ component, components[position]? = some component ∧
        name ∈ componentNames (buildGraph vertices edges) component := by
  have names : (components.map (sccOfNodes (buildGraph vertices edges))).flatMap Scc.names =
      components.flatMap (componentNames (buildGraph vertices edges)) := List.flatMap_map _ _ _
  have distinct : (((components.map (sccOfNodes (buildGraph vertices edges))).zipIdx.flatMap
      fun entry => entry.1.names.map fun name => (name, entry.2)).map Prod.fst).Nodup := by
    rw [keys_sccOf, names, (flatMap_componentNames strong).nodup_iff]
    exact List.nodup_dedup vertices
  rw [sccOf, HashMap.lookup_ofList_iff _ distinct]
  simp only [List.mem_flatMap, List.mem_map, Prod.mk.injEq]
  constructor
  · intro found
    obtain ⟨⟨scc, index⟩, listed, _, inside, rfl, rfl⟩ := found
    rw [List.mem_zipIdx_iff_getElem?, List.getElem?_map, Option.map_eq_some_iff] at listed
    obtain ⟨component, at_, rfl⟩ := listed
    exact ⟨component, at_, inside⟩
  · intro found
    obtain ⟨component, at_, inside⟩ := found
    refine ⟨(sccOfNodes (buildGraph vertices edges) component, position), ?_, name, inside, rfl, rfl⟩
    rw [List.mem_zipIdx_iff_getElem?, List.getElem?_map, at_]
    rfl

theorem sccOfNodes_isCycle (strong : StrongComponents (buildGraph vertices edges) components)
    {component : List Nat} (listed : component ∈ components) {name : String}
    (member : name ∈ componentNames (buildGraph vertices edges) component) :
    (sccOfNodes (buildGraph vertices edges) component).isCycle = true ↔
      OnCycle vertices edges name := by
  obtain ⟨index, inside, named⟩ := mem_componentNames.mp member
  rw [onCycle_iff strong listed member, length_componentNames strong listed,
    ← edge_iff_calls named named]
  simp only [sccOfNodes, Bool.or_eq_true, Bool.and_eq_true, decide_eq_true_eq,
    DiGraph.containsEdge_iff]
  cases component with
  | nil => cases inside
  | cons head rest =>
      cases rest with
      | nil =>
          rw [List.mem_singleton] at inside
          simp [inside]
      | cons second rest => simp

theorem readyFunction_spec (strong : StrongComponents (buildGraph vertices edges) components)
    (done : List String) (vertex : String) (declared : vertex ∈ vertices) :
    ∃ entry, readyFunction (buildGraph vertices edges) (nameNodes vertices).nameToNode
        (components.map (sccOfNodes (buildGraph vertices edges))) done vertex = some entry ∧
      (∀ row, entry = some row → row.function = vertex) ∧
      (entry.isSome = true ↔ ∀ callee, Calls vertices edges vertex callee →
        callee ∈ done ∨ SameComponent vertices edges vertex callee ∧
          OnCycle vertices edges vertex) := by
  obtain ⟨node, named⟩ := exists_node edges declared
  have bound : node < (buildGraph vertices edges).nodeCount :=
    (List.getElem?_eq_some_iff.mp named).1
  obtain ⟨component, listed, inside⟩ := strong.exists_component node bound
  obtain ⟨position, placed⟩ := List.mem_iff_getElem?.mp listed
  have member := mem_componentNames.mpr ⟨node, inside, named⟩
  have found := (lookup_sccOf strong vertex position).mpr ⟨component, placed, member⟩
  have row : (components.map (sccOfNodes (buildGraph vertices edges)))[position]? =
      some (sccOfNodes (buildGraph vertices edges) component) := by
    rw [List.getElem?_map, placed]
    rfl
  have cycle := sccOfNodes_isCycle strong listed member
  -- A callee has the position of the vertex where it is in the same component.
  have same : ∀ callee, (sccOf (components.map (sccOfNodes (buildGraph vertices edges)))).lookup
      callee = some position ↔ SameComponent vertices edges vertex callee := by
    intro callee
    rw [lookup_sccOf strong, ← mem_componentNames_iff strong listed member]
    constructor
    · intro has
      obtain ⟨other, at_, has⟩ := has
      obtain rfl := Option.some.inj (placed.symm.trans at_)
      exact has
    · intro has
      exact ⟨component, placed, has⟩
  have callees : calleesDone (buildGraph vertices edges)
      (sccOf (components.map (sccOfNodes (buildGraph vertices edges)))) done node position
      (sccOfNodes (buildGraph vertices edges) component).isCycle = true ↔
        ∀ callee, Calls vertices edges vertex callee → callee ∈ done ∨
          SameComponent vertices edges vertex callee ∧ OnCycle vertices edges vertex := by
    simp only [calleesDone, List.all_eq_true, List.mem_filterMap, Bool.or_eq_true,
      Bool.and_eq_true, beq_iff_eq, List.contains_iff_mem, same, cycle]
    constructor
    · intro all callee calls
      obtain ⟨index, calleeNamed⟩ := exists_node edges calls.2.1
      exact (all callee ⟨index, (DiGraph.mem_outgoing _).mpr
        ((edge_iff_calls named calleeNamed).mpr calls), calleeNamed⟩).symm
    · intro all callee outgoing
      obtain ⟨index, edge, calleeNamed⟩ := outgoing
      exact (all callee ((edge_iff_calls named calleeNamed).mp
        ((DiGraph.mem_outgoing _).mp edge))).symm
  refine ⟨_, by
    rw [readyFunction, buildGraph_name.mp named, Option.bind_eq_bind, Option.bind_some, found,
      Option.bind_eq_bind, Option.bind_some, row, Option.bind_some], ?_, ?_⟩
  · intro entry equal
    split_ifs at equal <;> exact (congrArg ReadyFunc.function (Option.some.inj equal)).symm
  · rw [← callees]
    split_ifs with all <;> simp [all]

/-- The result lists exactly the ready functions. -/
theorem computeReadyFunctions_spec (tarjanScc : DiGraph String → List (List Nat))
    (strong : StrongComponents (buildGraph vertices edges) (tarjanScc (buildGraph vertices edges)))
    (done inProgress : List String) :
    ∃ rows, computeReadyFunctions tarjanScc vertices edges done inProgress = some rows ∧
      ∀ function, function ∈ rows.map ReadyFunc.function ↔
        Ready vertices edges done inProgress function := by
  have row := readyFunction_spec strong done
  have found := mapM_some
    (readyFunction (buildGraph vertices edges) (nameNodes vertices).nameToNode
      ((tarjanScc (buildGraph vertices edges)).map (sccOfNodes (buildGraph vertices edges))) done)
    (fun vertex => (readyFunction (buildGraph vertices edges) (nameNodes vertices).nameToNode
      ((tarjanScc (buildGraph vertices edges)).map (sccOfNodes (buildGraph vertices edges))) done
        vertex).getD none)
    (vertices.filter fun vertex => !(done.contains vertex || inProgress.contains vertex))
    (by
      intro vertex pending
      obtain ⟨entry, computed, _⟩ := row vertex (List.mem_filter.mp pending).1
      rw [computed]
      rfl)
  refine ⟨_, by
    rw [computeReadyFunctions, Option.bind_eq_bind, found, Option.bind_some], ?_⟩
  intro function
  rw [List.mem_map]
  constructor
  · intro listed
    obtain ⟨entry, sorted, rfl⟩ := listed
    rw [(StableSort.sortByKey_perm _ _).mem_iff, List.mem_filterMap] at sorted
    obtain ⟨value, member, same⟩ := sorted
    obtain ⟨vertex, pending, rfl⟩ := List.mem_map.mp member
    obtain ⟨declared, unfinished⟩ := List.mem_filter.mp pending
    obtain ⟨value, computed, named, ready⟩ := row vertex declared
    simp only [computed, Option.getD_some, id_eq] at same
    subst same
    rw [named entry rfl]
    simp only [Bool.not_eq_true', Bool.or_eq_false_iff, List.contains_eq_mem,
      decide_eq_false_iff_not] at unfinished
    exact ⟨declared, unfinished.1, unfinished.2, ready.mp rfl⟩
  · intro ready
    obtain ⟨declared, notDone, notStarted, callees⟩ := ready
    obtain ⟨value, computed, named, isReady⟩ := row function declared
    obtain ⟨entry, rfl⟩ := Option.isSome_iff_exists.mp (isReady.mpr callees)
    refine ⟨entry, ?_, named entry rfl⟩
    rw [(StableSort.sortByKey_perm _ _).mem_iff, List.mem_filterMap]
    refine ⟨some entry, List.mem_map.mpr ⟨function, List.mem_filter.mpr ⟨declared, ?_⟩, ?_⟩, rfl⟩
    · simp [notDone, notStarted]
    · rw [computed]
      rfl

end Components

/-- An unfinished function that no chain of calls takes to a lower unfinished one is ready. -/
theorem exists_ready (vertices : List String) (edges : List (String × String)) (done : List String)
    (unfinished : ∃ vertex ∈ vertices, vertex ∉ done) :
    ∃ function, Ready vertices edges done [] function := by
  obtain ⟨vertex, declared, notDone⟩ := unfinished
  obtain ⟨least, member, lowest⟩ := exists_last (Above (Calls vertices edges))
    (above_irreflexive _) (above_transitive _)
    (vertices.filter fun function => decide (function ∉ done))
    (List.ne_nil_of_mem (List.mem_filter.mpr ⟨declared, by simpa using notDone⟩))
  obtain ⟨leastDeclared, pending⟩ := List.mem_filter.mp member
  refine ⟨least, leastDeclared, by simpa using pending, List.not_mem_nil, ?_⟩
  intro callee calls
  by_cases finished : callee ∈ done
  · exact .inl finished
  · have back : ReflTransGen (Calls vertices edges) callee least := by
      by_contra apart
      exact lowest callee (List.mem_filter.mpr ⟨calls.2.1, by simpa using finished⟩)
        ⟨.single calls, apart⟩
    exact .inr ⟨⟨.single calls, back⟩, TransGen.head' calls back⟩

/-- These are the finished functions and those being verified. -/
structure Progress where
  done : List String
  inProgress : List String

/-- A ready function is started, or a started one is finished. -/
inductive VerificationStep (tarjanScc : DiGraph String → List (List Nat)) (vertices : List String)
    (edges : List (String × String)) : Progress → Progress → Prop where
  | start {done inProgress : List String} {rows : List ReadyFunc} (row : ReadyFunc)
      (computed : computeReadyFunctions tarjanScc vertices edges done inProgress = some rows)
      (listed : row ∈ rows) :
      VerificationStep tarjanScc vertices edges ⟨done, inProgress⟩
        ⟨done, row.function :: inProgress⟩
  | finish {done inProgress : List String} (function : String) (started : function ∈ inProgress) :
      VerificationStep tarjanScc vertices edges ⟨done, inProgress⟩
        ⟨function :: done, inProgress.erase function⟩

/-- So many steps lead from one progress to another. -/
inductive VerificationRun (tarjanScc : DiGraph String → List (List Nat)) (vertices : List String)
    (edges : List (String × String)) : Nat → Progress → Progress → Prop where
  | stop (progress : Progress) : VerificationRun tarjanScc vertices edges 0 progress progress
  | next {count : Nat} {progress between last : Progress}
      (step : VerificationStep tarjanScc vertices edges progress between)
      (rest : VerificationRun tarjanScc vertices edges count between last) :
      VerificationRun tarjanScc vertices edges (count + 1) progress last

/-- A function that was not started needs two steps and a started one needs one. -/
def stepsLeft (vertices : List String) (progress : Progress) : Nat :=
  2 * (vertices.dedup.countP fun vertex =>
    decide (vertex ∉ progress.done ∧ vertex ∉ progress.inProgress)) + progress.inProgress.length

section Runs

variable {tarjanScc : DiGraph String → List (List Nat)} {vertices : List String}
  {edges : List (String × String)}

/-- One listed element fewer satisfies the test. -/
theorem countP_remove (names : List String) (distinct : names.Nodup) (name : String)
    (listed : name ∈ names) (test : String → Bool) (passes : test name = true) :
    names.countP (fun other => test other && decide (other ≠ name)) + 1 = names.countP test := by
  induction names with
  | nil => cases listed
  | cons head rest ih =>
      obtain ⟨fresh, later⟩ := List.nodup_cons.mp distinct
      by_cases same : head = name
      · subst same
        have others : rest.countP (fun other => test other && decide (other ≠ head)) =
            rest.countP test := by
          refine List.countP_congr fun other member => ?_
          have different : other ≠ head := fun equal => fresh (equal ▸ member)
          simp [different]
        rw [List.countP_cons_of_neg (by simp), List.countP_cons_of_pos passes, others]
      · have smaller := ih later ((List.mem_cons.mp listed).resolve_left (Ne.symm same))
        rw [List.countP_cons, List.countP_cons]
        simp only [same, ne_eq, not_false_eq_true, decide_true, Bool.and_true] at smaller ⊢
        omega

theorem step_stepsLeft (strong : StrongComponents (buildGraph vertices edges)
      (tarjanScc (buildGraph vertices edges))) {progress next : Progress}
    (step : VerificationStep tarjanScc vertices edges progress next) :
    stepsLeft vertices next + 1 = stepsLeft vertices progress := by
  cases step with
  | @start done inProgress rows row computed listed =>
      obtain ⟨other, found, ready⟩ := computeReadyFunctions_spec tarjanScc strong done inProgress
      rw [computed] at found
      obtain rfl := Option.some.inj found
      obtain ⟨declared, notDone, notStarted, _⟩ :=
        (ready row.function).mp (List.mem_map_of_mem listed)
      have fewer := countP_remove vertices.dedup (List.nodup_dedup vertices) row.function
        (List.mem_dedup.mpr declared)
        (fun vertex => decide (vertex ∉ done ∧ vertex ∉ inProgress)) (by simp [notDone, notStarted])
      have same : (vertices.dedup.countP fun vertex =>
          decide (vertex ∉ done ∧ vertex ∉ row.function :: inProgress)) =
            vertices.dedup.countP fun vertex =>
              decide (vertex ∉ done ∧ vertex ∉ inProgress) && decide (vertex ≠ row.function) := by
        refine List.countP_congr fun vertex _ => ?_
        simp only [List.mem_cons, not_or, decide_eq_true_eq, Bool.and_eq_true]
        tauto
      simp only [stepsLeft, same, List.length_cons]
      omega
  | @finish done inProgress function started =>
      have length := List.length_erase_of_mem started
      have positive := List.length_pos_of_mem started
      have same : (vertices.dedup.countP fun vertex =>
          decide (vertex ∉ function :: done ∧ vertex ∉ inProgress.erase function)) =
            vertices.dedup.countP fun vertex => decide (vertex ∉ done ∧ vertex ∉ inProgress) := by
        refine List.countP_congr fun vertex _ => ?_
        by_cases equal : vertex = function
        · subst equal
          simp [started]
        · simp [equal, List.mem_erase_of_ne equal]
      simp only [stepsLeft, same, length]
      omega

theorem run_stepsLeft (strong : StrongComponents (buildGraph vertices edges)
      (tarjanScc (buildGraph vertices edges))) {count : Nat} {progress last : Progress}
    (run : VerificationRun tarjanScc vertices edges count progress last) :
    stepsLeft vertices last + count = stepsLeft vertices progress := by
  induction run with
  | stop progress => rfl
  | next step rest ih =>
      have one := step_stepsLeft strong step
      omega

/-- A started function can be finished, and without one some function is ready. -/
theorem exists_step (strong : StrongComponents (buildGraph vertices edges)
      (tarjanScc (buildGraph vertices edges))) (progress : Progress)
    (unfinished : ∃ vertex ∈ vertices, vertex ∉ progress.done) :
    ∃ next, VerificationStep tarjanScc vertices edges progress next := by
  obtain ⟨done, inProgress⟩ := progress
  cases inProgress with
  | cons function rest => exact ⟨_, .finish function List.mem_cons_self⟩
  | nil =>
      obtain ⟨function, ready⟩ := exists_ready vertices edges done unfinished
      obtain ⟨rows, computed, spec⟩ := computeReadyFunctions_spec tarjanScc strong done []
      obtain ⟨row, listed, _⟩ := List.mem_map.mp ((spec function).mpr ready)
      exact ⟨_, .start row computed listed⟩

end Runs

/-- The result is exact, it is not empty while nothing is in progress and something is unfinished,
and every run takes a bounded number of steps and only ends with every function finished. -/
theorem computeReadyFunctions_progress (tarjanScc : DiGraph String → List (List Nat))
    (vertices : List String) (edges : List (String × String))
    (strong : StrongComponents (buildGraph vertices edges)
      (tarjanScc (buildGraph vertices edges))) :
    (∀ done inProgress, ∃ rows,
      computeReadyFunctions tarjanScc vertices edges done inProgress = some rows ∧
        ∀ function, function ∈ rows.map ReadyFunc.function ↔
          Ready vertices edges done inProgress function) ∧
    (∀ done, (∃ vertex ∈ vertices, vertex ∉ done) →
      ∃ row rest, computeReadyFunctions tarjanScc vertices edges done [] = some (row :: rest)) ∧
    ∀ done count last, VerificationRun tarjanScc vertices edges count ⟨done, []⟩ last →
      count ≤ 2 * (vertices.dedup.countP fun vertex => decide (vertex ∉ done)) ∧
        ((∀ vertex ∈ vertices, vertex ∈ last.done) ∨
          ∃ next, VerificationStep tarjanScc vertices edges last next) := by
  refine ⟨computeReadyFunctions_spec tarjanScc strong, ?_, ?_⟩
  · intro done unfinished
    obtain ⟨function, ready⟩ := exists_ready vertices edges done unfinished
    obtain ⟨rows, computed, spec⟩ := computeReadyFunctions_spec tarjanScc strong done []
    obtain ⟨row, listed, _⟩ := List.mem_map.mp ((spec function).mpr ready)
    obtain ⟨first, rest, rfl⟩ := List.exists_cons_of_ne_nil (List.ne_nil_of_mem listed)
    exact ⟨first, rest, computed⟩
  · intro done count last run
    have paid := run_stepsLeft strong run
    have start : stepsLeft vertices ⟨done, []⟩ =
        2 * (vertices.dedup.countP fun vertex => decide (vertex ∉ done)) := by
      simp [stepsLeft]
    refine ⟨by omega, ?_⟩
    by_cases finished : ∀ vertex ∈ vertices, vertex ∈ last.done
    · exact .inl finished
    · refine .inr (exists_step strong last ?_)
      simpa using finished

/-- The example has a leaf below two mutually recursive callers. -/
theorem computeReadyFunctions_progress_example :
    (∀ done inProgress, ∃ rows,
      computeReadyFunctions (fun _ => [[2], [0, 1]]) exampleVertices exampleEdges done inProgress =
          some rows ∧
        ∀ function, function ∈ rows.map ReadyFunc.function ↔
          Ready exampleVertices exampleEdges done inProgress function) ∧
    (∀ done, (∃ vertex ∈ exampleVertices, vertex ∉ done) → ∃ row rest,
      computeReadyFunctions (fun _ => [[2], [0, 1]]) exampleVertices exampleEdges done [] =
        some (row :: rest)) ∧
    ∀ done count last, VerificationRun (fun _ => [[2], [0, 1]]) exampleVertices exampleEdges count
        ⟨done, []⟩ last →
      count ≤ 2 * (exampleVertices.dedup.countP fun vertex => decide (vertex ∉ done)) ∧
        ((∀ vertex ∈ exampleVertices, vertex ∈ last.done) ∨ ∃ next,
          VerificationStep (fun _ => [[2], [0, 1]]) exampleVertices exampleEdges last next) :=
  computeReadyFunctions_progress (fun _ => [[2], [0, 1]]) exampleVertices exampleEdges
    exampleGraph_strong

end FramaCMcp.Topo
