/-
This file gives the loop that stops where nothing changes, the nodes that lead to a source, and the
queue of reached nodes that follows the edges of a graph.
-/

import Mathlib.Data.List.Basic
import Mathlib.Logic.Relation
import Mathlib.Order.Monotone.Basic

namespace Fixpoint

/-- Each further round makes the size of the state smaller. -/
structure Descent (State : Type) where
  round : State → Option State
  size : State → Nat
  decreases : ∀ state next, round state = some next → size next < size state

namespace Descent

variable {State : Type} (descent : Descent State)

/-- The loop stops at the first state without a next round. -/
def loop (state : State) : State :=
  match _found : descent.round state with
  | none => state
  | some next => loop next
termination_by descent.size state
decreasing_by exact descent.decreases state next ‹_›

theorem loop_none (state : State) (stopped : descent.round state = none) :
    descent.loop state = state := by
  rw [loop]
  split <;> simp_all

theorem loop_some (state next : State) (found : descent.round state = some next) :
    descent.loop state = descent.loop next := by
  rw [loop]
  split <;> simp_all

theorem loop_invariant (invariant : State → Prop)
    (preserved : ∀ state next, invariant state → descent.round state = some next → invariant next)
    (state : State) (start : invariant state) :
    invariant (descent.loop state) ∧ descent.round (descent.loop state) = none := by
  induction state using loop.induct descent with
  | case1 state stopped =>
      rw [descent.loop_none state stopped]
      exact ⟨start, stopped⟩
  | case2 state next found ih =>
      rw [descent.loop_some state next found]
      exact ih (preserved state next start found)

/-- So many rounds lead from one state to another. -/
inductive Rounds : Nat → State → State → Prop where
  | stop (state : State) : Rounds 0 state state
  | next {count : Nat} {state between last : State} (found : descent.round state = some between)
      (rest : Rounds count between last) : Rounds (count + 1) state last

/-- A further round follows the last state. -/
theorem Rounds.snoc {count : Nat} {state last next : State}
    (rounds : descent.Rounds count state last) (found : descent.round last = some next) :
    descent.Rounds (count + 1) state next := by
  induction rounds with
  | stop state => exact .next found (.stop next)
  | next first _ ih => exact .next first (ih found)

/-- The size of the first state bounds the number of rounds. -/
theorem loop_rounds (state : State) :
    ∃ count ≤ descent.size state, descent.Rounds count state (descent.loop state) := by
  induction state using loop.induct descent with
  | case1 state stopped =>
      rw [descent.loop_none state stopped]
      exact ⟨0, Nat.zero_le _, .stop state⟩
  | case2 state next found ih =>
      rw [descent.loop_some state next found]
      obtain ⟨count, bound, rounds⟩ := ih
      have smaller := descent.decreases state next found
      exact ⟨count + 1, by omega, .next found rounds⟩

end Descent

section Leads

variable {Node : Type}

/-- A path of edges leads from this node to a source. -/
def Leads (edge : Node → Node → Prop) (source : Node → Prop) (node : Node) : Prop :=
  ∃ last, Relation.ReflTransGen edge node last ∧ source last

variable {edge : Node → Node → Prop} {source : Node → Prop}

theorem leads_of_source {node : Node} (own : source node) : Leads edge source node :=
  ⟨node, .refl, own⟩

theorem Leads.of_edge {node next : Node} (leads : Leads edge source next)
    (step : edge node next) : Leads edge source node := by
  obtain ⟨last, path, own⟩ := leads
  exact ⟨last, .head step path, own⟩

/-- The nodes that lead to a source are the least closed set that holds the sources. -/
theorem leads_least (marked : Node → Prop) (sources : ∀ node, source node → marked node)
    (closed : ∀ node next, edge node next → marked next → marked node) (node : Node)
    (leads : Leads edge source node) : marked node := by
  obtain ⟨last, path, own⟩ := leads
  induction path using Relation.ReflTransGen.head_induction_on with
  | refl => exact sources last own
  | head step _ ih => exact closed _ _ step ih

theorem leads_iff {node : Node} :
    Leads edge source node ↔ source node ∨ ∃ next, edge node next ∧ Leads edge source next := by
  constructor
  · rintro ⟨last, path, own⟩
    rcases path.cases_head with rfl | ⟨next, step, rest⟩
    · exact .inl own
    · exact .inr ⟨next, step, last, rest, own⟩
  · rintro (own | ⟨next, step, leads⟩)
    · exact leads_of_source own
    · exact leads.of_edge step

/-- A node leads to a source where it is one or a path of edges ends in one. -/
theorem leads_iff_transGen {node : Node} : Leads edge source node ↔
    source node ∨ ∃ last, Relation.TransGen edge node last ∧ source last := by
  constructor
  · rintro ⟨last, path, own⟩
    rcases Relation.reflTransGen_iff_eq_or_transGen.mp path with rfl | steps
    · exact .inl own
    · exact .inr ⟨last, steps, own⟩
  · rintro (own | ⟨last, steps, own⟩)
    · exact leads_of_source own
    · exact ⟨last, steps.to_reflTransGen, own⟩

/-- More edges and more sources are led to by more nodes. -/
theorem Leads.mono {wider : Node → Node → Prop} {more : Node → Prop}
    (edges : ∀ node next, edge node next → wider node next)
    (sources : ∀ node, source node → more node) {node : Node} (leads : Leads edge source node) :
    Leads wider more node := by
  obtain ⟨last, path, own⟩ := leads
  exact ⟨last, Relation.ReflTransGen.mono edges _ _ path, sources last own⟩

end Leads

theorem countP_lt_of_mem {Element : Type} {strict test : Element → Bool}
    {elements : List Element} {element : Element} (member : element ∈ elements)
    (kept : ∀ other, strict other = true → test other = true)
    (lost : strict element = false) (counted : test element = true) :
    elements.countP strict < elements.countP test := by
  induction elements with
  | nil => cases member
  | cons head rest ih =>
      have bound : rest.countP strict ≤ rest.countP test :=
        List.countP_mono_left fun other _ => kept other
      rw [List.countP_cons, List.countP_cons]
      rcases List.mem_cons.mp member with rfl | later
      · rw [lost, counted, if_pos rfl, if_neg Bool.false_ne_true]
        omega
      · have less := ih later
        by_cases now : strict head = true
        · rw [if_pos now, if_pos (kept head now)]
          omega
        · rw [if_neg now]
          omega

/-- The count falls where a change takes the property from one element and gives it to none. -/
theorem countP_map_lt {Element : Type} (test : Element → Bool) (change : Element → Element)
    (kept : ∀ element, test (change element) = true → test element = true)
    (elements : List Element) (lost : ∃ element ∈ elements, test element = true ∧
      test (change element) = false) :
    (elements.map change).countP test < elements.countP test := by
  obtain ⟨element, member, before, after⟩ := lost
  rw [List.countP_map]
  exact countP_lt_of_mem member kept after before

section Marked

variable {Key : Type} [BEq Key] [LawfulBEq Key] {keys marked more : List Key}

/-- More marks leave fewer keys to mark. -/
theorem countP_new_le (grows : marked ⊆ more) :
    (keys.countP fun key => !more.contains key) ≤ keys.countP fun key => !marked.contains key := by
  apply List.countP_mono_left
  intro key _ new
  rw [Bool.not_eq_true', ← Bool.not_eq_true, List.contains_iff_mem] at new ⊢
  exact fun member => new (grows member)

theorem countP_new_cons_lt {key : Key} (listed : key ∈ keys) (new : key ∉ marked) :
    (keys.countP fun other => !(key :: marked).contains other) <
      keys.countP fun other => !marked.contains other := by
  apply countP_lt_of_mem listed
  · intro other fresh
    rw [Bool.not_eq_true', ← Bool.not_eq_true, List.contains_iff_mem] at fresh ⊢
    exact fun member => fresh (List.mem_cons_of_mem _ member)
  · simp
  · rw [Bool.not_eq_true', ← Bool.not_eq_true, List.contains_iff_mem]
    exact new

end Marked

section Ends

variable {Value Result : Type} {first : Nat → Option Value} {value : Value} {result : Result}

/-- Enough steps give the result. -/
def Ends (run : Nat → Option Value) (value : Value) : Prop :=
  ∃ enough, ∀ steps, enough ≤ steps → run steps = some value

theorem Ends.pure (value : Value) : Ends (fun _ => some value) value := ⟨0, fun _ _ => rfl⟩

theorem Ends.bind {next : Nat → Value → Option Result} (starts : Ends first value)
    (goesOn : Ends (fun steps => next steps value) result) :
    Ends (fun steps => (first steps).bind (next steps)) result := by
  obtain ⟨least, found⟩ := starts
  obtain ⟨most, later⟩ := goesOn
  refine ⟨max least most, fun steps enough => ?_⟩
  dsimp only
  rw [found steps ((le_max_left _ _).trans enough), Option.bind_some]
  exact later steps ((le_max_right _ _).trans enough)

theorem Ends.map (starts : Ends first value) (change : Value → Result) :
    Ends (fun steps => (first steps).map change) (change value) := by
  obtain ⟨enough, found⟩ := starts
  refine ⟨enough, fun steps more => ?_⟩
  dsimp only
  rw [found steps more, Option.map_some]

/-- A run with one step more ends too. -/
theorem Ends.succ {run : Nat → Option Value} (ends : Ends (fun steps => run (steps + 1)) value) :
    Ends run value := by
  obtain ⟨count, found⟩ := ends
  refine ⟨count + 1, fun steps enough => ?_⟩
  obtain ⟨more, rfl⟩ := Nat.exists_eq_add_of_le enough
  rw [Nat.add_right_comm]
  exact found _ (Nat.le_add_right _ _)

end Ends

section WhileLoop

variable {State : Type} (again : State → Bool) (next : State → State)

/-- The loop goes on as long as the test holds. -/
def whileLoop : Nat → State → Option State
  | 0, _ => none
  | rounds + 1, state => if again state then whileLoop rounds (next state) else some state

/-- One round leads from the first state to the second. -/
def Round (state later : State) : Prop := again state = true ∧ next state = later

variable {again next}

theorem whileLoop_round {state later : State} (round : Round again next state later)
    (rounds : Nat) : whileLoop again next (rounds + 1) state = whileLoop again next rounds later := by
  rw [whileLoop, if_pos round.1, round.2]

/-- No number of rounds ends a loop that leads to a state that its round keeps. -/
theorem whileLoop_stuck {state stuck : State}
    (path : Relation.ReflTransGen (Round again next) state stuck)
    (kept : Round again next stuck stuck) (rounds : Nat) :
    whileLoop again next rounds state = none := by
  induction rounds generalizing state with
  | zero => rfl
  | succ rounds ih =>
      rcases path.cases_head with rfl | ⟨later, round, rest⟩
      · rw [whileLoop_round kept]
        exact ih .refl
      · rw [whileLoop_round round]
        exact ih rest

/-- A loop that has ended needs no further round. -/
theorem whileLoop_ends {rounds : Nat} {state last : State}
    (found : whileLoop again next rounds state = some last) :
    Ends (fun more => whileLoop again next more state) last := by
  induction rounds generalizing state with
  | zero => cases found
  | succ rounds ih =>
      rw [whileLoop] at found
      by_cases goes : again state = true
      · rw [if_pos goes] at found
        exact Ends.succ (by simp only [whileLoop, if_pos goes]; exact ih found)
      · rw [if_neg goes] at found
        obtain rfl := Option.some.inj found
        exact Ends.succ (by simp only [whileLoop, if_neg goes]; exact Ends.pure state)

/-- A loop whose rounds make the state smaller or keep it ends where no state that it leads to is
kept. -/
theorem whileLoop_ends_iff (size : State → Nat)
    (smaller : ∀ state, again state = true → next state = state ∨ size (next state) < size state)
    (state : State) :
    (∃ last, Ends (fun rounds => whileLoop again next rounds state) last) ↔
      ∀ stuck, Relation.ReflTransGen (Round again next) state stuck →
        ¬ Round again next stuck stuck := by
  constructor
  · rintro ⟨last, enough, found⟩ stuck path kept
    have ended : whileLoop again next enough state = some last := found enough le_rfl
    rw [whileLoop_stuck path kept] at ended
    cases ended
  · intro moves
    induction count : size state using Nat.strong_induction_on generalizing state with
    | _ count ih =>
        subst count
        by_cases goes : again state = true
        · have less : size (next state) < size state :=
            (smaller state goes).resolve_left fun same => moves state .refl ⟨goes, same⟩
          obtain ⟨last, ends⟩ := ih (size (next state)) less (next state)
            (fun stuck path => moves stuck (.head ⟨goes, rfl⟩ path)) rfl
          exact ⟨last, Ends.succ (by simp only [whileLoop, if_pos goes]; exact ends)⟩
        · exact ⟨state, Ends.succ (by simp only [whileLoop, if_neg goes]; exact Ends.pure state)⟩

end WhileLoop

section Settle

variable {next : Nat → Nat} {value bound : Nat}

/-- The loop stops at the first value that the next round keeps. -/
def settle (next : Nat → Nat) : Nat → Nat → Option Nat
  | 0, _ => none
  | steps + 1, value => if next value = value then some value else settle next steps (next value)

/-- The loop ends at a value that the next round keeps. -/
def SettlesAt (next : Nat → Nat) (value last : Nat) : Prop :=
  next last = last ∧ Ends (fun steps => settle next steps value) last

theorem SettlesAt.of_fixed (fixed : next value = value) : SettlesAt next value value :=
  ⟨fixed, Ends.succ (by simp only [settle, if_pos fixed]; exact Ends.pure value)⟩

theorem SettlesAt.of_next {last : Nat} (moves : next value ≠ value)
    (later : SettlesAt next (next value) last) : SettlesAt next value last :=
  ⟨later.1, Ends.succ (by simp only [settle, if_neg moves]; exact later.2)⟩

theorem exists_settlesAt_rising (monotone : Monotone next) (rising : value ≤ next value)
    (below : value ≤ bound) (kept : next bound ≤ bound) :
    ∃ last ≤ bound, SettlesAt next value last := by
  induction distance : bound - value using Nat.strong_induction_on generalizing value with
  | _ distance ih =>
      by_cases fixed : next value = value
      · exact ⟨value, below, .of_fixed fixed⟩
      · have closer : next value ≤ bound := (monotone below).trans kept
        obtain ⟨last, small, later⟩ :=
          ih (bound - next value) (by omega) (monotone rising) closer rfl
        exact ⟨last, small, later.of_next fixed⟩

theorem exists_settlesAt_falling (monotone : Monotone next) (falling : next value ≤ value) :
    ∃ last ≤ value, SettlesAt next value last := by
  induction value using Nat.strong_induction_on with
  | _ value ih =>
      by_cases fixed : next value = value
      · exact ⟨value, le_rfl, .of_fixed fixed⟩
      · obtain ⟨last, small, later⟩ := ih (next value) (by omega) (monotone falling)
        exact ⟨last, small.trans falling, later.of_next fixed⟩

/-- A monotone round settles where it does not rise above some later value. -/
theorem exists_settlesAt (monotone : Monotone next) (below : value ≤ bound)
    (kept : next bound ≤ bound) : ∃ last ≤ bound, SettlesAt next value last := by
  rcases le_total value (next value) with rising | falling
  · exact exists_settlesAt_rising monotone rising below kept
  · obtain ⟨last, small, settles⟩ := exists_settlesAt_falling monotone falling
    exact ⟨last, small.trans below, settles⟩

end Settle

end Fixpoint

namespace Worklist

open Fixpoint Relation

/-- Only finitely many nodes are admitted. -/
structure Search (Node : Type) where
  next : Node → List Node
  admitted : Node → Bool
  nodes : List Node
  covered : ∀ node, admitted node = true → node ∈ nodes

/-- The walked nodes have left the queue. A node that starts in the queue need not be reached. -/
structure State (Node : Type) where
  queue : List Node
  reached : List Node := []
  walked : List Node := []

namespace Search

variable {Node : Type} [DecidableEq Node] (search : Search Node)

/-- A node enters the queue when it is reached first. -/
def reach (state : State Node) (node : Node) : State Node :=
  if search.admitted node && !state.reached.contains node then
    { state with reached := node :: state.reached, queue := state.queue ++ [node] }
  else state

def round (state : State Node) : Option (State Node) :=
  match state.queue with
  | [] => none
  | node :: rest =>
      some ((search.next node).foldl search.reach
        { state with queue := rest, walked := node :: state.walked })

/-- Each admitted node may still enter the queue. -/
def size (state : State Node) : Nat :=
  (search.nodes.filter fun node => !state.reached.contains node).length + state.queue.length

theorem size_reach_le (state : State Node) (node : Node) :
    search.size (search.reach state node) ≤ search.size state := by
  rw [reach]
  split_ifs with fresh
  · rw [Bool.and_eq_true, Bool.not_eq_true', ← Bool.not_eq_true, List.contains_iff_mem] at fresh
    have fewer : (search.nodes.filter fun other => !(node :: state.reached).contains other).length <
        (search.nodes.filter fun other => !state.reached.contains other).length := by
      have subset : (search.nodes.filter fun other => !(node :: state.reached).contains other) =
          (search.nodes.filter fun other => !state.reached.contains other).filter
            fun other => other ≠ node := by
        rw [List.filter_filter]
        apply List.filter_congr
        intro other _
        by_cases same : other = node <;> simp [same]
      rw [subset, List.length_filter_lt_length_iff_exists]
      refine ⟨node, List.mem_filter.mpr ⟨search.covered node fresh.1, ?_⟩, by simp⟩
      simpa using fresh.2
    rw [size, size, List.length_append, List.length_singleton]
    dsimp only at fewer ⊢
    omega
  · exact le_rfl

theorem size_reach_foldl_le (nodes : List Node) (state : State Node) :
    search.size (nodes.foldl search.reach state) ≤ search.size state := by
  induction nodes generalizing state with
  | nil => exact le_rfl
  | cons node nodes ih => exact (ih _).trans (search.size_reach_le state node)

theorem round_decreases (state later : State Node) (found : search.round state = some later) :
    search.size later < search.size state := by
  rw [round] at found
  split at found
  · cases found
  · rename_i node rest queued
    obtain rfl := Option.some.inj found
    apply (search.size_reach_foldl_le _ _).trans_lt
    rw [size, size, queued, List.length_cons]
    exact Nat.lt_succ_self _

def descent : Descent (State Node) where
  round := search.round
  size := search.size
  decreases := search.round_decreases

/-- The search ends when the queue is empty. -/
def run (seeds : List Node) : State Node := search.descent.loop { queue := seeds }

/-- An edge leads to an admitted node. -/
def Edge (node later : Node) : Prop := later ∈ search.next node ∧ search.admitted later = true

/-- What was reached follows a seed, and what follows a walked node was reached. The reached nodes
and the seeds are the ones that wait or were walked. -/
structure Follows (seeds : List Node) (state : State Node) : Prop where
  sound : ∀ node ∈ state.reached, ∃ seed ∈ seeds, TransGen search.Edge seed node
  closed : ∀ node ∈ state.walked, ∀ later, search.Edge node later → later ∈ state.reached
  kept : ∀ node, (node ∈ state.queue ∨ node ∈ state.walked) ↔ (node ∈ seeds ∨ node ∈ state.reached)

variable {search} {seeds : List Node}

omit [DecidableEq Node] in
theorem Follows.source {state : State Node} (follows : search.Follows seeds state) {node : Node}
    (member : node ∈ state.queue ∨ node ∈ state.walked) :
    ∃ seed ∈ seeds, ReflTransGen search.Edge seed node := by
  rcases (follows.kept node).mp member with own | reached
  · exact ⟨node, own, .refl⟩
  · obtain ⟨seed, own, path⟩ := follows.sound node reached
    exact ⟨seed, own, path.to_reflTransGen⟩

/-- While the followers of a node are reached, only that node is not closed yet. -/
theorem reach_foldl {node : Node} (nodes : List Node) (state : State Node)
    (inside : ∀ later ∈ nodes, later ∈ search.next node)
    (sound : ∀ other ∈ state.reached, ∃ seed ∈ seeds, TransGen search.Edge seed other)
    (source : ∃ seed ∈ seeds, ReflTransGen search.Edge seed node)
    (kept : ∀ other, (other ∈ state.queue ∨ other ∈ state.walked) ↔
      (other ∈ seeds ∨ other ∈ state.reached)) :
    (∀ other ∈ (nodes.foldl search.reach state).reached,
        ∃ seed ∈ seeds, TransGen search.Edge seed other) ∧
      (∀ other, (other ∈ (nodes.foldl search.reach state).queue ∨
          other ∈ (nodes.foldl search.reach state).walked) ↔
        (other ∈ seeds ∨ other ∈ (nodes.foldl search.reach state).reached)) ∧
      (nodes.foldl search.reach state).walked = state.walked ∧
      (∀ other ∈ state.reached, other ∈ (nodes.foldl search.reach state).reached) ∧
      ∀ later ∈ nodes, search.admitted later = true →
        later ∈ (nodes.foldl search.reach state).reached := by
  induction nodes generalizing state with
  | nil => exact ⟨sound, kept, rfl, fun _ member => member, nofun⟩
  | cons later nodes ih =>
      rw [List.foldl_cons]
      have rest := fun other member => inside other (List.mem_cons_of_mem later member)
      by_cases fresh : (search.admitted later && !state.reached.contains later) = true
      · have step : search.reach state later =
            { state with reached := later :: state.reached, queue := state.queue ++ [later] } := by
          rw [reach, if_pos fresh]
        rw [step]
        obtain ⟨sound', kept', walked', old', all'⟩ := ih { state with
            reached := later :: state.reached, queue := state.queue ++ [later] } rest
          (by
            intro other member
            rcases List.mem_cons.mp member with rfl | old
            · obtain ⟨seed, own, path⟩ := source
              exact ⟨seed, own, .tail' path ⟨inside _ (List.mem_cons_self ..),
                (Bool.and_eq_true _ _ ▸ fresh).1⟩⟩
            · exact sound other old)
          (by
            intro other
            rw [List.mem_append, List.mem_singleton, List.mem_cons]
            have := kept other
            tauto)
        refine ⟨sound', kept', walked', fun other member => old' other (.tail _ member), ?_⟩
        intro other member admitted
        rcases List.mem_cons.mp member with rfl | later
        · exact old' _ (List.mem_cons_self ..)
        · exact all' other later admitted
      · have step : search.reach state later = state := by rw [reach, if_neg fresh]
        rw [step]
        obtain ⟨sound', kept', walked', old', all'⟩ := ih state rest sound kept
        refine ⟨sound', kept', walked', old', ?_⟩
        intro other member admitted
        rcases List.mem_cons.mp member with rfl | later
        · apply old'
          by_contra unreached
          exact fresh (by simp [admitted, unreached])
        · exact all' other later admitted

theorem follows_round {state later : State Node} (follows : search.Follows seeds state)
    (found : search.round state = some later) : search.Follows seeds later := by
  rw [round] at found
  split at found
  · cases found
  · rename_i node rest queued
    obtain rfl := Option.some.inj found
    have source := follows.source (.inl (queued ▸ List.mem_cons_self ..))
    obtain ⟨sound, kept, walked, old, all⟩ := reach_foldl (search.next node)
      { state with queue := rest, walked := node :: state.walked }
      (fun _ member => member) follows.sound source (by
        intro other
        rw [← follows.kept other, queued, List.mem_cons, List.mem_cons]
        tauto)
    refine ⟨sound, ?_, kept⟩
    intro other member next edge
    rw [walked] at member
    rcases List.mem_cons.mp member with rfl | earlier
    · exact all next edge.1 edge.2
    · exact old next (follows.closed other earlier next edge)

theorem run_spec (search : Search Node) (seeds : List Node) (node : Node) :
    (node ∈ (search.run seeds).reached ↔ ∃ seed ∈ seeds, TransGen search.Edge seed node) ∧
      (node ∈ (search.run seeds).walked ↔ node ∈ seeds ∨ node ∈ (search.run seeds).reached) := by
  obtain ⟨follows, stopped⟩ := search.descent.loop_invariant (search.Follows seeds)
    (fun _ _ follows found => follows_round follows found) { queue := seeds }
    ⟨nofun, nofun, fun node => by simp⟩
  have empty : (search.run seeds).queue = [] := by
    change search.round (search.run seeds) = none at stopped
    rw [round] at stopped
    split at stopped
    · assumption
    · cases stopped
  have walked (node : Node) :
      node ∈ (search.run seeds).walked ↔ node ∈ seeds ∨ node ∈ (search.run seeds).reached := by
    have kept : (node ∈ (search.run seeds).queue ∨ node ∈ (search.run seeds).walked) ↔
        (node ∈ seeds ∨ node ∈ (search.run seeds).reached) := follows.kept node
    rw [empty] at kept
    rw [← kept]
    exact ⟨.inr, fun member => member.resolve_left List.not_mem_nil⟩
  refine ⟨⟨follows.sound node, ?_⟩, walked node⟩
  rintro ⟨seed, own, path⟩
  induction path with
  | single edge => exact follows.closed seed ((walked seed).mpr (.inl own)) _ edge
  | tail _ edge ih => exact follows.closed _ ((walked _).mpr (.inr ih)) _ edge

end Search

end Worklist
