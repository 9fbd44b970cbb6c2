/-
This file proves which edges a call chain lists and at which depths.
-/

import FramaCMcp.Construction.ProgramStep

namespace FramaCMcp.CallChain

open BreadthFirst ProgramStep

section Exactness

variable (program : Program) (direction : Direction) (stops : List String) (start : String)

/-- A path of so many stored edges leads to a function. It comes to no stop function but its start. -/
inductive Path : String → Nat → Prop where
  | start : Path start 0
  | along {edge : CallEdge} {steps : Nat} (path : Path (direction.near edge) steps)
      (stored : edge ∈ program.callgraphEdges)
      (free : direction.far edge = start ∨ direction.far edge ∉ stops) :
      Path (direction.far edge) (steps + 1)

/-- The function is reached within the limit, and no shorter path leads to it. -/
def ReachedAt (limit : Nat) (marker : String) (depth : Nat) : Prop :=
  depth ≤ limit ∧ IsLeast {steps | Path program direction stops start marker steps} depth

def edgeRow (edge : CallEdge) (depth : Nat) : ChainRow :=
  chainRow program (direction.near edge) depth (direction.far edge)

/-- Each stored edge whose near end is reached has one row, and there are no other rows. -/
def ExactChain (limit : Nat) (rows : List ChainRow) : Prop :=
  ∃ depthOf : String → Option Nat,
    (∀ marker depth, depthOf marker = some depth ↔
      ReachedAt program direction stops start limit marker depth) ∧
    rows.Perm (program.callgraphEdges.filterMap fun edge =>
      (depthOf (direction.near edge)).map (edgeRow program direction edge))

end Exactness

variable {program : Program} {direction : Direction} {stops : List String} {start : String}
  {limit : Nat}

theorem path_iff_walk {marker : String} {steps : Nat} :
    Path program direction stops start marker steps ↔
      (chainSearch program direction limit stops).Walk start marker steps := by
  constructor
  · intro path
    induction path with
    | start => exact .start
    | along path stored free ih =>
        apply Search.Walk.step ih
        · exact mem_neighbors.mpr ⟨_, stored, rfl, rfl⟩
        · apply free.imp_right
          intro free
          change stops.contains _ = false
          rw [List.contains_eq_mem, decide_eq_false free]
  · intro walk
    induction walk with
    | start => exact .start
    | step walk edge free ih =>
        obtain ⟨edge, stored, rfl, rfl⟩ := mem_neighbors.mp edge
        apply Path.along ih stored
        apply free.imp_right
        intro free member
        change stops.contains _ = false at free
        rw [List.contains_iff_mem.mpr member] at free
        cases free

theorem mem_run_iff_reachedAt {marker : String} {depth : Nat} :
    (marker, depth) ∈ (chainSearch program direction limit stops).run start ↔
      ReachedAt program direction stops start limit marker depth := by
  have same : {steps | Path program direction stops start marker steps} =
      {steps | (chainSearch program direction limit stops).Walk start marker steps} := by
    ext steps
    exact path_iff_walk
  rw [Search.mem_run_iff, ReachedAt, same]
  rfl

theorem lookup_eq_some_iff_mem {entries : List (String × Nat)}
    (distinct : (entries.map Prod.fst).Nodup) {marker : String} {depth : Nat} :
    entries.lookup marker = some depth ↔ (marker, depth) ∈ entries := by
  constructor
  · intro found
    obtain ⟨before, after, rfl, -⟩ := List.lookup_eq_some_iff.mp found
    exact List.mem_append_right _ List.mem_cons_self
  · intro member
    obtain ⟨before, after, rfl⟩ := List.append_of_mem member
    apply List.lookup_eq_some_iff.mpr
    refine ⟨before, after, rfl, fun other earlier => ?_⟩
    rw [List.map_append, List.nodup_append] at distinct
    rw [bne_iff_ne]
    exact (distinct.2.2 _ (List.mem_map_of_mem earlier) _ List.mem_cons_self).symm

/-- Where no node repeats, at most one entry has the node of the edge. -/
theorem flatMap_row_eq_lookup (edge : CallEdge) (entries : List (String × Nat))
    (distinct : (entries.map Prod.fst).Nodup) :
    (entries.flatMap fun entry => if direction.near edge == entry.1 then
      [edgeRow program direction edge entry.2] else []) =
    ((entries.lookup (direction.near edge)).map (edgeRow program direction edge)).toList := by
  induction entries with
  | nil => rfl
  | cons entry rest ih =>
      obtain ⟨fresh, others⟩ := List.nodup_cons.mp distinct
      rw [List.flatMap_cons, ih others, List.lookup_cons]
      by_cases own : direction.near edge = entry.1
      · have absent : rest.lookup (direction.near edge) = none := by
          rw [List.lookup_eq_none_iff]
          intro other member
          rw [bne_iff_ne]
          intro same
          exact fresh (own ▸ same ▸ List.mem_map_of_mem member)
        rw [beq_iff_eq.mpr own, absent]
        rfl
      · rw [beq_false_of_ne own]
        rfl

theorem flatMap_rows_perm (entries : List (String × Nat))
    (distinct : (entries.map Prod.fst).Nodup) (edges : List CallEdge) :
    (entries.flatMap fun entry =>
      ((edges.filter fun edge => direction.near edge == entry.1).map fun edge =>
        edgeRow program direction edge entry.2)).Perm
      (edges.filterMap fun edge =>
        (entries.lookup (direction.near edge)).map (edgeRow program direction edge)) := by
  induction edges with
  | nil => simp
  | cons edge edges ih =>
      have split (entry : String × Nat) :
          ((edge :: edges).filter fun edge => direction.near edge == entry.1).map
            (fun edge => edgeRow program direction edge entry.2) =
          (if direction.near edge == entry.1 then [edgeRow program direction edge entry.2] else []) ++
            (edges.filter fun edge => direction.near edge == entry.1).map
              fun edge => edgeRow program direction edge entry.2 := by
        rw [List.filter_cons]
        split_ifs <;> rfl
      simp only [split]
      apply (List.flatMap_append_perm entries _ _).symm.trans
      rw [flatMap_row_eq_lookup edge entries distinct]
      have rows : ((edge :: edges).filterMap fun edge =>
          (entries.lookup (direction.near edge)).map (edgeRow program direction edge)) =
          ((entries.lookup (direction.near edge)).map (edgeRow program direction edge)).toList ++
            edges.filterMap fun edge =>
              (entries.lookup (direction.near edge)).map (edgeRow program direction edge) := by
        rw [List.filterMap_cons]
        cases (entries.lookup (direction.near edge)).map (edgeRow program direction edge) <;> rfl
      rw [rows]
      exact ih.append_left _

theorem chainRows_exact :
    ExactChain program direction stops start limit
      (chainRows program direction limit stops start) := by
  have distinct := (chainSearch program direction limit stops).nodes_run_nodup start
  refine ⟨fun marker => ((chainSearch program direction limit stops).run start).lookup marker,
    fun marker depth => ?_, ?_⟩
  · rw [← mem_run_iff_reachedAt]
    exact lookup_eq_some_iff_mem distinct
  · have rows : chainRows program direction limit stops start =
        ((chainSearch program direction limit stops).run start).flatMap fun entry =>
          ((program.callgraphEdges.filter fun edge => direction.near edge == entry.1).map fun edge =>
            edgeRow program direction edge entry.2) := by
      rw [chainRows]
      apply congrArg (fun rows => List.flatMap rows _)
      funext entry
      rw [neighbors_eq, List.map_map]
      apply List.map_congr_left
      intro edge member
      have near := beq_iff_eq.mp (List.mem_filter.mp member).2
      rw [edgeRow, near]
      rfl
    rw [rows]
    exact flatMap_rows_perm _ distinct _

variable (resolveFunctionOrRefresh : String → Except String String)

/-- A chain is exact to the depth in force, with a row for each stored edge that it comes to. -/
theorem callChainPayload_exact (program : Program) (function direction : String)
    (maxDepth : Option Nat) (stopAt : Option (List String)) (declaration : String)
    (known : Direction) (found : resolveFunctionOrRefresh function = .ok declaration)
    (parsed : parseDirection direction = some known) :
    ∃ rows, callChainPayload resolveFunctionOrRefresh program function direction maxDepth stopAt =
        .ok (.arr (rows.map ChainRow.toJson)) ∧
      ExactChain program known (stopMarkers resolveFunctionOrRefresh stopAt) declaration
        (depthInForce maxDepth) rows := by
  refine ⟨_, ?_, chainRows_exact⟩
  simp only [callChainPayload, found, parsed]
  rfl

theorem callChainPayload_exact_recursive :
    ∃ rows, callChainPayload (fun _ => .ok "#F1")
        ⟨.ofList [("f", ⟨"f", true⟩)], [⟨"f", "#F1"⟩], [⟨"#F1", "#F1"⟩, ⟨"#F1", "#F2"⟩]⟩
        "f" "callees" none none = .ok (.arr (rows.map ChainRow.toJson)) ∧
      ExactChain ⟨.ofList [("f", ⟨"f", true⟩)], [⟨"f", "#F1"⟩], [⟨"#F1", "#F1"⟩, ⟨"#F1", "#F2"⟩]⟩
        .callees [] "#F1" 5 rows :=
  callChainPayload_exact _ _ "f" "callees" none none "#F1" .callees rfl rfl

theorem ExactChain.reachedAt {rows : List ChainRow}
    (exact : ExactChain program direction stops start limit rows) {row : ChainRow}
    (listed : row ∈ rows) :
    ReachedAt program direction stops start limit row.fromMarker row.depth := by
  obtain ⟨depthOf, reached, perm⟩ := exact
  obtain ⟨edge, -, made⟩ := List.mem_filterMap.mp (perm.mem_iff.mp listed)
  obtain ⟨depth, found, rfl⟩ := Option.map_eq_some_iff.mp made
  exact (reached _ _).mp found

theorem ExactChain.mem_of_reachedAt {rows : List ChainRow}
    (exact : ExactChain program direction stops start limit rows) (edge : CallEdge) {depth : Nat}
    (stored : edge ∈ program.callgraphEdges)
    (at_ : ReachedAt program direction stops start limit (direction.near edge) depth) :
    edgeRow program direction edge depth ∈ rows := by
  obtain ⟨depthOf, reached, perm⟩ := exact
  apply perm.mem_iff.mpr
  exact List.mem_filterMap.mpr ⟨edge, stored, by rw [(reached _ _).mpr at_]; rfl⟩

theorem ChainRow.toJson_injective : Function.Injective ChainRow.toJson := by
  rintro ⟨_, _, _, _, _⟩ ⟨_, _, _, _, _⟩ same
  simpa [ChainRow.toJson] using same

section Deep

def deepMarker (index : Nat) : String := String.ofList (List.replicate (index + 1) 'f')

/-- Each function calls the next one. -/
def deepProgram : Program where
  functions := HashMap.ofList [("f", ⟨"f", true⟩)]
  callgraphVertices := []
  callgraphEdges := (List.range 30).map fun index =>
    { src := deepMarker index, dst := deepMarker (index + 1) }

theorem deepMarker_injective {first second : Nat} (same : deepMarker first = deepMarker second) :
    first = second := by
  have lists := congrArg (fun text : String => text.toList.length) same
  simp only [deepMarker, String.toList_ofList, List.length_replicate] at lists
  omega

theorem path_deepProgram {marker : String} {steps : Nat}
    (path : Path deepProgram .callees [] (deepMarker 0) marker steps) :
    marker = deepMarker steps := by
  induction path with
  | start => rfl
  | along path stored _ ih =>
      obtain ⟨index, -, rfl⟩ := List.mem_map.mp stored
      obtain rfl := deepMarker_injective ih
      rfl

theorem deepProgram_path {index : Nat} (inside : index ≤ 30) :
    Path deepProgram .callees [] (deepMarker 0) (deepMarker index) index := by
  induction index with
  | zero => exact .start
  | succ index ih =>
      exact @Path.along deepProgram .callees [] _ ⟨deepMarker index, deepMarker (index + 1)⟩ _
        (ih (by omega))
        (List.mem_map.mpr ⟨index, List.mem_range.mpr (by omega), rfl⟩) (.inr List.not_mem_nil)

/-- A caller who asks for twenty-five levels gets no edge of the level after the twentieth. -/
theorem callChainPayload_not_exact_deep :
    ¬ ∃ rows, callChainPayload (fun _ => .ok (deepMarker 0)) deepProgram "f" "callees" (some 25) none
        = .ok (.arr (rows.map ChainRow.toJson)) ∧
      ExactChain deepProgram .callees [] (deepMarker 0) 25 rows := by
  rintro ⟨rows, answered, exact⟩
  have least : ReachedAt deepProgram .callees [] (deepMarker 0) 25 (deepMarker 21) 21 := by
    refine ⟨by omega, deepProgram_path (by omega), fun steps path => ?_⟩
    exact (deepMarker_injective (path_deepProgram path)).le
  have row := exact.mem_of_reachedAt ⟨deepMarker 21, deepMarker 22⟩
    (List.mem_map.mpr ⟨21, List.mem_range.mpr (by omega), rfl⟩) least
  have same : rows = chainRows deepProgram .callees 20 [] (deepMarker 0) := by
    have lists := Json.arr.inj (Except.ok.inj answered)
    exact (List.map_injective_iff.mpr ChainRow.toJson_injective lists).symm
  rw [same] at row
  obtain ⟨within, path, -⟩ := chainRows_exact.reachedAt row
  have deep := deepMarker_injective (path_deepProgram path)
  omega

end Deep

end FramaCMcp.CallChain
