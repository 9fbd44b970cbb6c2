/-
This file searches a graph level by level from one node, and says what a depth-first search has
marked while some of its nodes are unfinished.
-/

import FramaCMcp.Foundation.Fixpoint
import Mathlib.Algebra.BigOperators.Group.Finset.Basic
import Mathlib.Order.Bounds.Basic
import Mathlib.Tactic.Tauto
import Mathlib.Data.List.Basic
import Mathlib.Data.Set.Insert
import Mathlib.Logic.Relation

namespace BreadthFirst

open Fixpoint

/-- Each node has its next nodes. The search goes on from no blocked node but the first one, and from
no node beyond the limit. Only the sources have next nodes. -/
structure Search (Node : Type) where
  next : Node → List Node
  blocked : Node → Bool
  limit : Nat
  sources : List Node
  covered : ∀ node, next node ≠ [] → node ∈ sources

/-- The queued nodes wait with their depths, and the expanded ones are listed in their order. -/
structure State (Node : Type) where
  queue : List (Node × Nat)
  expanded : List (Node × Nat)

variable {Node : Type}

def State.nodes (state : State Node) : List Node := state.expanded.map Prod.fst

namespace Search

variable (search : Search Node)

def expand (state : State Node) (entry : Node × Nat) (rest : List (Node × Nat)) : State Node where
  queue := rest ++ (search.next entry.1).map fun node => (node, entry.2 + 1)
  expanded := state.expanded ++ [entry]

theorem nodes_expand (state : State Node) (entry : Node × Nat) (rest : List (Node × Nat)) :
    (search.expand state entry rest).nodes = state.nodes ++ [entry.1] := by
  rw [State.nodes, expand, List.map_append, List.map_singleton, State.nodes]

variable [DecidableEq Node]

def skips (state : State Node) (entry : Node × Nat) : Bool :=
  decide (search.limit < entry.2) || state.nodes.contains entry.1 ||
    (decide (0 < entry.2) && search.blocked entry.1)

/-- The first node of the queue is skipped or expanded. -/
def round (state : State Node) : Option (State Node) :=
  match state.queue with
  | [] => none
  | entry :: rest =>
      if search.skips state entry then some { state with queue := rest }
      else some (search.expand state entry rest)

/-- Each edge of a node that is not expanded may still enter the queue. -/
def size (state : State Node) : Nat :=
  (∑ node ∈ search.sources.toFinset with node ∉ state.nodes, (search.next node).length) +
    state.queue.length

theorem size_expand (state : State Node) (entry : Node × Nat) (rest : List (Node × Nat))
    (queued : state.queue = entry :: rest) (fresh : entry.1 ∉ state.nodes) :
    search.size (search.expand state entry rest) < search.size state := by
  have fewer : (search.sources.toFinset.filter fun node =>
      node ∉ (search.expand state entry rest).nodes) =
      (search.sources.toFinset.filter fun node => node ∉ state.nodes).erase entry.1 := by
    ext node
    rw [Finset.mem_filter, Finset.mem_erase, Finset.mem_filter, nodes_expand, List.mem_append,
      List.mem_singleton]
    tauto
  have length : (search.expand state entry rest).queue.length =
      rest.length + (search.next entry.1).length := by
    rw [expand, List.length_append, List.length_map]
  rw [size, size, fewer, length, queued, List.length_cons]
  by_cases listed : entry.1 ∈ search.sources.toFinset.filter fun node => node ∉ state.nodes
  · have split := Finset.add_sum_erase _ (fun node => (search.next node).length) listed
    omega
  · have none : search.next entry.1 = [] := by
      by_contra some
      exact listed (Finset.mem_filter.mpr
        ⟨List.mem_toFinset.mpr (search.covered _ some), fresh⟩)
    rw [Finset.erase_eq_of_notMem listed, none, List.length_nil]
    omega

variable {state : State Node} {entry : Node × Nat} {rest : List (Node × Nat)}

theorem not_mem_of_not_skips (taken : ¬ search.skips state entry = true) :
    entry.2 ≤ search.limit ∧ entry.1 ∉ state.nodes ∧
      (0 < entry.2 → search.blocked entry.1 = false) := by
  unfold skips at taken
  simp only [Bool.or_eq_true, Bool.and_eq_true, decide_eq_true_eq, not_or, not_and, not_lt,
    List.contains_iff_mem, Bool.not_eq_true] at taken
  exact ⟨taken.1.1, taken.1.2, taken.2⟩

/-- A round takes the first entry of the queue, and skips or expands it. -/
theorem round_cases {state later : State Node} (found : search.round state = some later) :
    ∃ entry rest, state.queue = entry :: rest ∧
      (search.skips state entry = true ∧ later = { state with queue := rest } ∨
        ¬ search.skips state entry = true ∧ later = search.expand state entry rest) := by
  unfold round at found
  cases queued : state.queue with
  | nil =>
      rw [queued] at found
      cases found
  | cons entry rest =>
      rw [queued] at found
      simp only at found
      split_ifs at found with skipped
      · exact ⟨entry, rest, rfl, .inl ⟨skipped, (Option.some.inj found).symm⟩⟩
      · exact ⟨entry, rest, rfl, .inr ⟨skipped, (Option.some.inj found).symm⟩⟩

theorem round_decreases (state later : State Node) (found : search.round state = some later) :
    search.size later < search.size state := by
  obtain ⟨entry, rest, queued, ⟨-, rfl⟩ | ⟨taken, rfl⟩⟩ := search.round_cases found
  · rw [size, size, queued, List.length_cons]
    exact Nat.lt_succ_self _
  · exact search.size_expand state entry rest queued (search.not_mem_of_not_skips taken).2.1

def descent : Descent (State Node) where
  round := search.round
  size := search.size
  decreases := search.round_decreases

/-- These are the expanded nodes with their depths, in the order of the search. -/
def run (start : Node) : List (Node × Nat) :=
  (search.descent.loop { queue := [(start, 0)], expanded := [] }).expanded

/-- A walk of so many steps leads to a node. It comes to no blocked node but the first one. -/
inductive Walk (start : Node) : Node → Nat → Prop where
  | start : Walk start start 0
  | step {node later : Node} {steps : Nat} (walk : Walk start node steps)
      (edge : later ∈ search.next node) (free : later = start ∨ search.blocked later = false) :
      Walk start later (steps + 1)

/-- The depths in the queue rise by one at most. -/
def Layered (queue : List (Node × Nat)) : Prop :=
  (queue.Pairwise fun early late => early.2 ≤ late.2) ∧
    ∀ early ∈ queue, ∀ late ∈ queue, late.2 ≤ early.2 + 1

/-- The expanded nodes have their least depths. What follows an expanded node is expanded, waits in
the queue or lies beyond the limit. -/
structure Searches (start : Node) (state : State Node) : Prop where
  layered : Layered state.queue
  queued : ∀ entry ∈ state.queue, entry = (start, 0) ∨
    ∃ steps, entry.2 = steps + 1 ∧ ∃ node, search.Walk start node steps ∧
      entry.1 ∈ search.next node
  least : ∀ entry ∈ state.expanded, entry.2 ≤ search.limit ∧
    IsLeast {steps | search.Walk start entry.1 steps} entry.2
  distinct : state.nodes.Nodup
  started : (start, 0) ∈ state.expanded ∨ (start, 0) ∈ state.queue
  closed : ∀ entry ∈ state.expanded, ∀ later ∈ search.next entry.1,
    later = start ∨ search.blocked later = false →
      (∃ depth ≤ entry.2 + 1, (later, depth) ∈ state.expanded) ∨
        (later, entry.2 + 1) ∈ state.queue ∨ search.limit < entry.2 + 1

variable {search} {start : Node}

/-- A walk that is shorter than all that waits leads to an expanded node. -/
theorem Searches.reached (searches : search.Searches start state) {node : Node} {steps : Nat}
    (walk : search.Walk start node steps) (within : steps ≤ search.limit)
    (before : ∀ entry ∈ state.queue, steps < entry.2) :
    ∃ depth ≤ steps, (node, depth) ∈ state.expanded := by
  induction walk with
  | start =>
      rcases searches.started with expanded | waits
      · exact ⟨0, le_rfl, expanded⟩
      · exact absurd (before _ waits) (lt_irrefl 0)
  | step walk edge free ih =>
      obtain ⟨depth, least, expanded⟩ := ih (by omega) fun entry member => by
        have := before entry member
        omega
      rcases searches.closed _ expanded _ edge free with ⟨other, bound, found⟩ | waits | beyond
      · simp only at bound
        exact ⟨other, by omega, found⟩
      · have := before _ waits
        simp only at this
        omega
      · simp only at beyond
        omega

/-- A node that waits first lies no nearer than the start. -/
theorem Searches.start_expanded (searches : search.Searches start state)
    (queued : state.queue = entry :: rest) (behind : 0 < entry.2) :
    (start, 0) ∈ state.expanded := by
  rcases searches.started with expanded | waits
  · exact expanded
  · have sorted := searches.layered.1
    rw [queued] at sorted waits
    rcases List.mem_cons.mp waits with rfl | later
    · exact absurd behind (lt_irrefl 0)
    · have := (List.pairwise_cons.mp sorted).1 _ later
      simp only at this
      omega

omit [DecidableEq Node] in
/-- The walk to a node that waits has as many steps as its depth. -/
theorem Searches.walk (searches : search.Searches start state) (waits : entry ∈ state.queue)
    (free : 0 < entry.2 → entry.1 = start ∨ search.blocked entry.1 = false) :
    search.Walk start entry.1 entry.2 := by
  rcases searches.queued entry waits with rfl | ⟨steps, same, node, walk, edge⟩
  · exact .start
  · rw [same]
    exact .step walk edge (free (by omega))

/-- A node that is skipped is expanded already, or it lies beyond the limit. -/
theorem Searches.expanded_of_skips (searches : search.Searches start state)
    (queued : state.queue = entry :: rest) (skipped : search.skips state entry = true)
    (free : entry.1 = start ∨ search.blocked entry.1 = false) :
    (∃ depth ≤ entry.2, (entry.1, depth) ∈ state.expanded) ∨ search.limit < entry.2 := by
  unfold skips at skipped
  simp only [Bool.or_eq_true, Bool.and_eq_true, decide_eq_true_eq, List.contains_iff_mem] at skipped
  rcases skipped with (beyond | member) | ⟨behind, blocked⟩
  · exact .inr beyond
  · obtain ⟨⟨node, depth⟩, expanded, rfl⟩ := List.mem_map.mp member
    have walk := searches.walk (queued ▸ List.mem_cons_self) fun _ => free
    exact .inl ⟨depth, (searches.least _ expanded).2.2 walk, expanded⟩
  · rcases free with same | open_
    · exact .inl ⟨0, Nat.zero_le _, same ▸ searches.start_expanded queued behind⟩
    · rw [blocked] at open_
      cases open_

theorem Searches.skip (searches : search.Searches start state)
    (queued : state.queue = entry :: rest) (skipped : search.skips state entry = true) :
    search.Searches start { state with queue := rest } := by
  have inside (other : Node × Nat) (member : other ∈ rest) : other ∈ state.queue :=
    queued ▸ List.mem_cons_of_mem _ member
  obtain ⟨sorted, near⟩ := searches.layered
  rw [queued] at sorted
  exact {
    layered := ⟨(List.pairwise_cons.mp sorted).2, fun early first late second =>
      near early (inside early first) late (inside late second)⟩
    queued := fun other member => searches.queued other (inside other member)
    least := searches.least
    distinct := searches.distinct
    started := by
      rcases searches.started with expanded | waits
      · exact .inl expanded
      · rw [queued] at waits
        rcases List.mem_cons.mp waits with rfl | later
        · rcases searches.expanded_of_skips queued skipped (.inl rfl) with ⟨depth, least, found⟩ | beyond
          · obtain rfl := Nat.le_zero.mp least
            exact .inl found
          · exact absurd beyond (Nat.not_lt_zero _)
        · exact .inr later
    closed := by
      intro expanded member later edge free
      rcases searches.closed expanded member later edge free with found | waits | beyond
      · exact .inl found
      · rw [queued] at waits
        rcases List.mem_cons.mp waits with rfl | behind
        · exact (searches.expanded_of_skips queued skipped free).imp id .inr
        · exact .inr (.inl behind)
      · exact .inr (.inr beyond) }

theorem Searches.expand (searches : search.Searches start state)
    (queued : state.queue = entry :: rest) (taken : ¬ search.skips state entry = true) :
    search.Searches start (search.expand state entry rest) := by
  obtain ⟨within, fresh, open_⟩ := search.not_mem_of_not_skips taken
  have first : entry ∈ state.queue := queued ▸ List.mem_cons_self
  have inside (other : Node × Nat) (member : other ∈ rest) : other ∈ state.queue :=
    queued ▸ List.mem_cons_of_mem _ member
  obtain ⟨sorted, near⟩ := searches.layered
  rw [queued] at sorted
  obtain ⟨ahead, behind⟩ := List.pairwise_cons.mp sorted
  have walk := searches.walk first fun deep => .inr (open_ deep)
  have new (other : Node × Nat)
      (member : other ∈ (search.next entry.1).map fun node => (node, entry.2 + 1)) :
      other.2 = entry.2 + 1 ∧ other.1 ∈ search.next entry.1 := by
    obtain ⟨node, edge, rfl⟩ := List.mem_map.mp member
    exact ⟨rfl, edge⟩
  -- a shorter walk would have led to an expanded node
  have least : IsLeast {steps | search.Walk start entry.1 steps} entry.2 := by
    refine ⟨walk, fun steps shorter => ?_⟩
    by_contra less
    obtain ⟨depth, -, expanded⟩ := searches.reached shorter (by omega) fun other member => by
      rw [queued] at member
      rcases List.mem_cons.mp member with rfl | later
      · omega
      · have := ahead other later
        omega
    exact fresh (List.mem_map.mpr ⟨_, expanded, rfl⟩)
  exact {
    layered := by
      constructor
      · refine List.pairwise_append.mpr ⟨behind, ?_, fun early member late added => ?_⟩
        · refine List.Pairwise.map _ (fun _ _ _ => le_rfl) (List.pairwise_of_forall fun _ _ => trivial)
        · rw [(new late added).1]
          exact near entry first early (inside early member)
      · intro early member late other
        have low : entry.2 ≤ early.2 := by
          rcases List.mem_append.mp member with old | added
          · exact ahead early old
          · rw [(new early added).1]
            exact Nat.le_succ _
        have high : late.2 ≤ entry.2 + 1 := by
          rcases List.mem_append.mp other with old | added
          · exact near entry first late (inside late old)
          · exact (new late added).1.le
        omega
    queued := by
      intro other member
      rcases List.mem_append.mp member with old | added
      · exact searches.queued other (inside other old)
      · exact .inr ⟨entry.2, (new other added).1, entry.1, walk, (new other added).2⟩
    least := by
      intro other member
      rcases List.mem_append.mp member with old | added
      · exact searches.least other old
      · rw [List.mem_singleton.mp added]
        exact ⟨within, least⟩
    distinct := by
      rw [search.nodes_expand]
      exact List.nodup_append.mpr ⟨searches.distinct, List.nodup_singleton _,
        fun node old other same => by
          rw [List.mem_singleton.mp same]
          exact fun equal => fresh (equal ▸ old)⟩
    started := by
      rcases searches.started with expanded | waits
      · exact .inl (List.mem_append_left _ expanded)
      · rw [queued] at waits
        rcases List.mem_cons.mp waits with rfl | later
        · exact .inl (List.mem_append_right _ (List.mem_singleton_self _))
        · exact .inr (List.mem_append_left _ later)
    closed := by
      intro expanded member later edge free
      rcases List.mem_append.mp member with old | added
      · rcases searches.closed expanded old later edge free with ⟨depth, bound, found⟩ | waits | beyond
        · exact .inl ⟨depth, bound, List.mem_append_left _ found⟩
        · rw [queued] at waits
          rcases List.mem_cons.mp waits with rfl | waiting
          · exact .inl ⟨_, le_rfl, List.mem_append_right _ (List.mem_singleton_self _)⟩
          · exact .inr (.inl (List.mem_append_left _ waiting))
        · exact .inr (.inr beyond)
      · obtain rfl := List.mem_singleton.mp added
        exact .inr (.inl (List.mem_append_right _ (List.mem_map.mpr ⟨later, edge, rfl⟩))) }

theorem Searches.step {state later : State Node} (searches : search.Searches start state)
    (found : search.round state = some later) : search.Searches start later := by
  obtain ⟨entry, rest, queued, ⟨skipped, rfl⟩ | ⟨taken, rfl⟩⟩ := search.round_cases found
  · exact searches.skip queued skipped
  · exact searches.expand queued taken

omit [DecidableEq Node] in
theorem searches_start : search.Searches start { queue := [(start, 0)], expanded := [] } where
  layered := by
    refine ⟨List.pairwise_singleton _ _, fun early first late second => ?_⟩
    rw [List.mem_singleton.mp first, List.mem_singleton.mp second]
    exact Nat.le_succ _
  queued := fun entry member => .inl (List.mem_singleton.mp member)
  least := fun entry member => nomatch member
  distinct := List.nodup_nil
  started := .inr (List.mem_singleton_self _)
  closed := fun entry member => nomatch member

/-- The search stops when no node waits. -/
theorem searches_run (start : Node) : ∃ state, state.expanded = search.run start ∧ state.queue = [] ∧
    search.Searches start state := by
  obtain ⟨searches, stopped⟩ := search.descent.loop_invariant (search.Searches start)
    (fun _ _ searches found => searches.step found) _ searches_start
  refine ⟨_, rfl, ?_, searches⟩
  change search.round _ = none at stopped
  unfold round at stopped
  cases queued : (search.descent.loop { queue := [(start, 0)], expanded := [] }).queue with
  | nil => rfl
  | cons entry rest =>
      rw [queued] at stopped
      simp only at stopped
      split_ifs at stopped

/-- The search expands the nodes within the limit, each at its least depth. -/
theorem mem_run_iff {node : Node} {depth : Nat} : (node, depth) ∈ search.run start ↔
    depth ≤ search.limit ∧ IsLeast {steps | search.Walk start node steps} depth := by
  obtain ⟨state, same, empty, searches⟩ := search.searches_run start
  rw [← same]
  constructor
  · exact searches.least (node, depth)
  · rintro ⟨within, walk, least⟩
    obtain ⟨other, bound, expanded⟩ := searches.reached walk within fun entry member => by
      rw [empty] at member
      exact nomatch member
    have lower := least (searches.least _ expanded).2.1
    obtain rfl := Nat.le_antisymm bound lower
    exact expanded

/-- No node is expanded twice. -/
theorem nodes_run_nodup (start : Node) : ((search.run start).map Prod.fst).Nodup := by
  obtain ⟨state, same, -, searches⟩ := search.searches_run start
  rw [← same]
  exact searches.distinct

end Search

end BreadthFirst

namespace DepthFirst

section Closure

variable {Node : Type} {next : Node → List Node}

/-- What follows a marked node is marked, unless the node is unfinished. -/
def ClosedExcept (next : Node → List Node) (unfinished marked : Set Node) : Prop :=
  ∀ node ∈ marked, node ∉ unfinished → ∀ later ∈ next node, later ∈ marked

variable {unfinished marked : Set Node} {node : Node}

/-- A node is unfinished when it is marked. -/
theorem ClosedExcept.mark (closed : ClosedExcept next unfinished marked) (node : Node) :
    ClosedExcept next (insert node unfinished) (insert node marked) := by
  intro other member finished later edge
  rcases member with rfl | old
  · exact absurd (Set.mem_insert _ _) finished
  · exact .inr (closed other old (fun inside => finished (.inr inside)) later edge)

theorem ClosedExcept.finish (closed : ClosedExcept next (insert node unfinished) marked)
    (followed : ∀ later ∈ next node, later ∈ marked) : ClosedExcept next unfinished marked := by
  intro other member finished later edge
  by_cases same : other = node
  · exact followed later (same ▸ edge)
  · exact closed other member (fun inside => inside.elim same finished) later edge

/-- A marked node that nothing follows changes nothing else. -/
theorem ClosedExcept.insert_of_nil (closed : ClosedExcept next unfinished marked)
    (last : next node = []) : ClosedExcept next unfinished (insert node marked) := by
  apply (closed.mark node).finish
  rw [last]
  exact nofun

/-- Where all is finished, all that a marked node leads to is marked. -/
theorem ClosedExcept.reaches (closed : ClosedExcept next ∅ marked) {source target : Node}
    (member : source ∈ marked)
    (path : Relation.ReflTransGen (fun node later => later ∈ next node) source target) :
    target ∈ marked := by
  induction path with
  | refl => exact member
  | tail _ edge ih => exact closed _ ih (Set.notMem_empty _) _ edge

end Closure

section Tables

variable {Key : Type}

structure Tidy (marks list : List Key) : Prop where
  distinct : list.Nodup
  marked : list ⊆ marks

/-- The search lists only keys that it marks itself. -/
structure Grows (marks list marks' list' : List Key) : Prop where
  kept : marks ⊆ marks'
  suffix : list <:+ list'
  fresh : ∀ key ∈ list', key ∈ list ∨ key ∉ marks
  tidy : Tidy marks list → Tidy marks' list'

theorem Grows.refl (marks list : List Key) : Grows marks list marks list :=
  ⟨fun _ member => member, List.suffix_rfl, fun _ member => .inl member, id⟩

variable {marks list marks' list' marks'' list'' : List Key}

theorem Grows.trans (first : Grows marks list marks' list')
    (second : Grows marks' list' marks'' list'') : Grows marks list marks'' list'' where
  kept := fun _ member => second.kept (first.kept member)
  suffix := first.suffix.trans second.suffix
  fresh := by
    intro key member
    rcases second.fresh key member with old | new
    · exact first.fresh key old
    · exact .inr fun marked => new (first.kept marked)
  tidy := fun tidy => second.tidy (first.tidy tidy)

variable {key : Key}

theorem Grows.of_mark (grows : Grows (key :: marks) list marks' list') :
    Grows marks list marks' list' where
  kept := fun _ member => grows.kept (List.mem_cons_of_mem _ member)
  suffix := grows.suffix
  fresh := fun other member =>
    (grows.fresh other member).imp id fun new marked => new (List.mem_cons_of_mem _ marked)
  tidy := fun tidy => grows.tidy
    ⟨tidy.distinct, fun _ member => List.mem_cons_of_mem _ (tidy.marked member)⟩

/-- A key that was not marked before is listed when it is finished. -/
theorem Grows.of_list (grows : Grows (key :: marks) list marks' list') (new : key ∉ marks) :
    Grows marks list marks' (key :: list') where
  kept := grows.of_mark.kept
  suffix := grows.suffix.trans (List.suffix_cons _ _)
  fresh := by
    intro other member
    rcases List.mem_cons.mp member with rfl | inside
    · exact .inr new
    · exact grows.of_mark.fresh other inside
  tidy := by
    intro tidy
    have later := grows.of_mark.tidy tidy
    have absent : key ∉ list' := by
      intro inside
      rcases grows.fresh key inside with old | unmarked
      · exact new (tidy.marked old)
      · exact unmarked List.mem_cons_self
    exact ⟨List.nodup_cons.mpr ⟨absent, later.distinct⟩,
      List.cons_subset.mpr ⟨grows.kept List.mem_cons_self, later.marked⟩⟩

end Tables

end DepthFirst
