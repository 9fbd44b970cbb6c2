/-
This file says what a survey of calls and spawns holds and finds what runs more than once.
-/

import FramaCMcp.Construction.Structure

namespace FramaCMcp.Concurrency

open Digraph Fixpoint

/-- The spawners are the functions that start a thread at this entry. A spawner that repeats starts
several threads at one site. -/
structure Spawn where
  sites : Nat
  inLoop : Bool
  spawners : OrderedSet String
  spawnerRepeats : Bool

def Spawn.empty : Spawn where
  sites := 0
  inLoop := false
  spawners := OrderedMap.empty
  spawnerRepeats := false

def Spawn.mayRepeat (spawn : Spawn) : Bool :=
  decide (1 < spawn.sites) || spawn.inLoop || spawn.spawnerRepeats

structure CallSites where
  count : Nat
  inLoop : Bool
  deriving DecidableEq, Repr

/-- The edges lead from the callers to the defined callees. -/
structure CallSurvey where
  entries : OrderedMap String Spawn
  edges : OrderedMap String (OrderedSet String)
  calls : OrderedMap String CallSites

/-- The queue is worked off from its end, which stands first here. -/
structure Frontier where
  seen : OrderedSet String
  queue : List String

/-- A function that is reached for the first time puts its callees into the queue. -/
def reachRound (edges : OrderedMap String (OrderedSet String)) (state : Frontier) :
    Option Frontier :=
  match state.queue with
  | [] => none
  | function :: rest =>
      if OrderedMap.contains state.seen function then some { state with queue := rest }
      else some { seen := state.seen.add function
                  queue := (targetsOf edges function).reverse ++ rest }

/-- Each edge of a function that was not reached may still enter the queue. -/
def reachSize (edges : OrderedMap String (OrderedSet String)) (state : Frontier) : Nat :=
  (∑ function ∈ edges.keys.toFinset with OrderedMap.contains state.seen function = false,
    (targetsOf edges function).length) + state.queue.length

theorem targetsOf_absent {edges : OrderedMap String (OrderedSet String)} {function : String}
    (absent : function ∉ edges.keys) : targetsOf edges function = [] := by
  rw [OrderedMap.mem_keys, OrderedMap.contains, Bool.not_eq_true, Option.isSome_eq_false_iff,
    Option.isNone_iff_eq_none] at absent
  rw [targetsOf, absent]
  rfl

theorem contains_add (set : OrderedSet String) (added name : String) :
    OrderedMap.contains (set.add added) name = (decide (name = added) || OrderedMap.contains set name) := by
  rw [Bool.eq_iff_iff, Bool.or_eq_true, decide_eq_true_eq, ← OrderedMap.mem_keys,
    ← OrderedMap.mem_keys, OrderedSet.mem_keys_add]

theorem reachRound_decreases (edges : OrderedMap String (OrderedSet String))
    (state next : Frontier) (found : reachRound edges state = some next) :
    reachSize edges next < reachSize edges state := by
  obtain ⟨seen, queue⟩ := state
  cases queue with
  | nil => cases found
  | cons function rest =>
      unfold reachRound at found
      simp only at found
      split_ifs at found with known
      · obtain rfl := Option.some.inj found
        unfold reachSize
        simp only [List.length_cons]
        omega
      · obtain rfl := Option.some.inj found
        have fewer : (edges.keys.toFinset.filter fun name =>
            OrderedMap.contains (seen.add function) name = false) =
            (edges.keys.toFinset.filter fun name =>
              OrderedMap.contains seen name = false).erase function := by
          ext name
          rw [Finset.mem_filter, Finset.mem_erase, Finset.mem_filter, contains_add,
            Bool.or_eq_false_iff, decide_eq_false_iff_not]
          tauto
        unfold reachSize
        simp only [List.length_append, List.length_reverse, List.length_cons]
        rw [fewer]
        by_cases listed : function ∈ edges.keys.toFinset.filter fun name =>
            OrderedMap.contains seen name = false
        · have split := Finset.add_sum_erase _ (fun name => (targetsOf edges name).length) listed
          omega
        · have none : targetsOf edges function = [] := by
            apply targetsOf_absent
            intro member
            exact listed (Finset.mem_filter.mpr ⟨List.mem_toFinset.mpr member,
              Bool.eq_false_iff.mpr known⟩)
          rw [Finset.erase_eq_of_notMem listed, none, List.length_nil]
          omega

def reachDescent (edges : OrderedMap String (OrderedSet String)) : Descent Frontier where
  round := reachRound edges
  size := reachSize edges
  decreases := reachRound_decreases edges

/-- These are the functions that the calls reach from the seeds, with the seeds. -/
def reach (edges : OrderedMap String (OrderedSet String)) (seeds : List String) :
    OrderedSet String :=
  ((reachDescent edges).loop { seen := OrderedMap.empty, queue := seeds.reverse }).seen

/-- A call leads from the first function to the second. -/
def CallEdge (edges : OrderedMap String (OrderedSet String)) (caller callee : String) : Prop :=
  callee ∈ targetsOf edges caller

/-- The walk has found nothing but what is reached, and the callees of what it has seen wait in the
queue or were seen. -/
structure Explores (edges : OrderedMap String (OrderedSet String)) (seeds : List String)
    (state : Frontier) : Prop where
  sound : ∀ name, name ∈ state.seen.keys ∨ name ∈ state.queue →
    ∃ seed ∈ seeds, Relation.ReflTransGen (CallEdge edges) seed name
  seeded : ∀ seed ∈ seeds, seed ∈ state.seen.keys ∨ seed ∈ state.queue
  expanded : ∀ caller ∈ state.seen.keys, ∀ callee, CallEdge edges caller callee →
    callee ∈ state.seen.keys ∨ callee ∈ state.queue

theorem Explores.step {edges : OrderedMap String (OrderedSet String)} {seeds : List String}
    {state next : Frontier} (explores : Explores edges seeds state)
    (found : reachRound edges state = some next) : Explores edges seeds next := by
  obtain ⟨seen, queue⟩ := state
  cases queue with
  | nil => cases found
  | cons function rest =>
      unfold reachRound at found
      simp only at found
      obtain ⟨sound, seeded, expanded⟩ := explores
      split_ifs at found with known
      · obtain rfl := Option.some.inj found
        have listed : function ∈ seen.keys := (OrderedMap.mem_keys ..).mpr known
        have kept (name : String) (member : name ∈ seen.keys ∨ name ∈ function :: rest) :
            name ∈ seen.keys ∨ name ∈ rest := by
          rcases member with before | queued
          · exact .inl before
          · rcases List.mem_cons.mp queued with rfl | later
            · exact .inl listed
            · exact .inr later
        exact {
          sound := fun name member => sound name (member.imp id (List.mem_cons_of_mem _))
          seeded := fun seed member => kept seed (seeded seed member)
          expanded := fun caller member callee edge => kept callee (expanded caller member callee edge) }
      · obtain rfl := Option.some.inj found
        have kept (name : String) (member : name ∈ seen.keys ∨ name ∈ function :: rest) :
            name ∈ (seen.add function).keys ∨
              name ∈ (targetsOf edges function).reverse ++ rest := by
          rw [OrderedSet.mem_keys_add, List.mem_append]
          rw [List.mem_cons] at member
          tauto
        refine ⟨fun name member => ?_, fun seed member => kept seed (seeded seed member),
          fun caller member callee edge => ?_⟩
        · rw [OrderedSet.mem_keys_add, List.mem_append, List.mem_reverse] at member
          rcases member with (rfl | before) | target | later
          · exact sound _ (.inr (List.mem_cons_self ..))
          · exact sound name (.inl before)
          · obtain ⟨seed, inside, path⟩ := sound function (.inr (List.mem_cons_self ..))
            exact ⟨seed, inside, path.tail target⟩
          · exact sound name (.inr (List.mem_cons_of_mem _ later))
        · rcases (OrderedSet.mem_keys_add ..).mp member with rfl | before
          · exact .inr (List.mem_append_left _ (List.mem_reverse.mpr edge))
          · exact kept callee (expanded caller before callee edge)

/-- The walk ends with what the calls reach from the seeds. -/
theorem mem_reach_iff (edges : OrderedMap String (OrderedSet String)) (seeds : List String)
    (name : String) : name ∈ (reach edges seeds).keys ↔
      ∃ seed ∈ seeds, Relation.ReflTransGen (CallEdge edges) seed name := by
  have start : Explores edges seeds { seen := OrderedMap.empty, queue := seeds.reverse } := {
    sound := by
      rintro seed (none | queued)
      · exact nomatch none
      · exact ⟨seed, List.mem_reverse.mp queued, .refl⟩
    seeded := fun seed member => .inr (List.mem_reverse.mpr member)
    expanded := fun _ none => nomatch none }
  obtain ⟨explores, stopped⟩ := (reachDescent edges).loop_invariant (Explores edges seeds)
    (fun _ _ explores found => explores.step found) _ start
  have empty : ((reachDescent edges).loop
      { seen := OrderedMap.empty, queue := seeds.reverse }).queue = [] := by
    revert stopped
    generalize (reachDescent edges).loop
      { seen := OrderedMap.empty, queue := seeds.reverse } = last
    obtain ⟨seen, queue⟩ := last
    intro stopped
    cases queue with
    | nil => rfl
    | cons function rest =>
        change reachRound edges { seen, queue := function :: rest } = none at stopped
        unfold reachRound at stopped
        simp only at stopped
        split_ifs at stopped
  obtain ⟨sound, seeded, expanded⟩ := explores
  simp only [empty, List.not_mem_nil, or_false] at sound seeded expanded
  constructor
  · exact sound name
  · rintro ⟨seed, member, path⟩
    induction path with
    | refl => exact seeded seed member
    | tail _ edge ih => exact expanded _ ih _ edge

/-- These functions have two call sites or one in a loop. -/
def repeatingCalls (survey : CallSurvey) : List String :=
  (survey.calls.entries.filter fun entry =>
    decide (1 < entry.2.count) || entry.2.inLoop).map Prod.fst

/-- The first function of a component has an edge to itself. -/
def callsItself (edges : OrderedMap String (OrderedSet String)) (component : List String) : Bool :=
  component.head?.any fun name =>
    (edges.lookup name).any fun callees => OrderedMap.contains callees name

/-- These entries are spawned twice, in a loop or by one of the functions. -/
def repeatingEntries (survey : CallSurvey) (many : OrderedSet String) : List String :=
  (survey.entries.entries.filter fun entry =>
    decide (1 < entry.2.sites) || entry.2.inLoop ||
      entry.2.spawners.keys.any (OrderedMap.contains many)).map Prod.fst

def growRepeating (survey : CallSurvey) (many : OrderedSet String) : OrderedSet String :=
  reach survey.edges (many.keys ++ repeatingEntries survey many)

/-- The set is grown as long as its size changes. -/
def growRound (survey : CallSurvey) (many : OrderedSet String) : Option (OrderedSet String) :=
  let next := growRepeating survey many
  if next.entries.length = many.entries.length then none else some next

theorem mem_growRepeating_iff (survey : CallSurvey) (many : OrderedSet String) (name : String) :
    name ∈ (growRepeating survey many).keys ↔
      ∃ seed, (seed ∈ many.keys ∨ seed ∈ repeatingEntries survey many) ∧
        Relation.ReflTransGen (CallEdge survey.edges) seed name := by
  unfold growRepeating
  rw [mem_reach_iff]
  simp only [List.mem_append]

theorem mem_growRepeating_of_mem (survey : CallSurvey) (many : OrderedSet String) (name : String)
    (member : name ∈ many.keys) : name ∈ (growRepeating survey many).keys :=
  (mem_growRepeating_iff ..).mpr ⟨name, .inl member, .refl⟩

/-- Only callees and entries enter the set. -/
def joining (survey : CallSurvey) : Finset String :=
  ((arcsOf survey.edges).map Prod.snd ++ survey.entries.keys).toFinset

theorem mem_joining (survey : CallSurvey) (many : OrderedSet String) (name : String)
    (member : name ∈ (growRepeating survey many).keys) (fresh : name ∉ many.keys) :
    name ∈ joining survey := by
  obtain ⟨seed, start, path⟩ := (mem_growRepeating_iff ..).mp member
  rw [joining, List.mem_toFinset, List.mem_append]
  rcases Relation.ReflTransGen.cases_tail path with same | ⟨caller, -, edge⟩
  · subst same
    obtain ⟨entry, listed, rfl⟩ := List.mem_map.mp (start.resolve_left fresh)
    exact .inr (List.mem_map_of_mem (List.mem_of_mem_filter listed))
  · exact .inl (List.mem_map.mpr ⟨(caller, name), (mem_arcsOf ..).mpr edge, rfl⟩)

def growSize (survey : CallSurvey) (many : OrderedSet String) : Nat :=
  ((joining survey).filter fun name => name ∉ many.keys).card

theorem length_entries (set : OrderedSet String) : set.entries.length = set.keys.toFinset.card := by
  have distinct : set.keys.Nodup := set.keys_sorted.imp fun less => less.ne
  rw [List.toFinset_card_of_nodup distinct, OrderedMap.keys, List.length_map]

/-- A round that goes on has found more names. -/
theorem growRound_eq_some {survey : CallSurvey} {many next : OrderedSet String}
    (found : growRound survey many = some next) :
    next = growRepeating survey many ∧ next.entries.length ≠ many.entries.length := by
  unfold growRound at found
  simp only at found
  split_ifs at found with same
  obtain rfl := Option.some.inj found
  exact ⟨rfl, same⟩

theorem growRound_decreases (survey : CallSurvey) (many next : OrderedSet String)
    (found : growRound survey many = some next) : growSize survey next < growSize survey many := by
  obtain ⟨rfl, same⟩ := growRound_eq_some found
  have wider : many.keys.toFinset ⊆ (growRepeating survey many).keys.toFinset := fun name member =>
    List.mem_toFinset.mpr (mem_growRepeating_of_mem survey many name (List.mem_toFinset.mp member))
  have missing : ¬ (growRepeating survey many).keys.toFinset ⊆ many.keys.toFinset := by
    intro back
    rw [length_entries, length_entries, wider.antisymm back] at same
    exact same rfl
  obtain ⟨name, member, fresh⟩ := Finset.not_subset.mp missing
  rw [List.mem_toFinset] at member fresh
  apply Finset.card_lt_card
  refine Finset.ssubset_iff_of_subset (fun other kept => ?_) |>.mpr ⟨name, ?_, ?_⟩
  · obtain ⟨listed, outside⟩ := Finset.mem_filter.mp kept
    exact Finset.mem_filter.mpr ⟨listed, fun inside =>
      outside (mem_growRepeating_of_mem survey many other inside)⟩
  · exact Finset.mem_filter.mpr ⟨mem_joining survey many name member fresh, fresh⟩
  · exact fun kept => (Finset.mem_filter.mp kept).2 member

def growDescent (survey : CallSurvey) : Descent (OrderedSet String) where
  round := growRound survey
  size := growSize survey
  decreases := growRound_decreases survey

section Components

-- The strong components of a graph are computed elsewhere.
variable (kosarajuScc : DiGraph String → List (List Nat))

/-- Each function of a call cycle repeats. -/
def startsRepeating (survey : CallSurvey) : OrderedSet String :=
  ((components kosarajuScc survey.edges).filter fun component =>
    decide (1 < component.length) || callsItself survey.edges component).foldl OrderedSet.addAll
    (OrderedSet.addAll OrderedMap.empty (repeatingCalls survey))

/-- The set of the last round is grown once more and has the same size. -/
def runsMoreThanOnce (survey : CallSurvey) : OrderedSet String :=
  growRepeating survey ((growDescent survey).loop (startsRepeating kosarajuScc survey))

/-- The spawns learn whether one of their spawners repeats. -/
def finishCalls (survey : CallSurvey) : CallSurvey :=
  { survey with entries := survey.entries.mapValues fun spawn =>
      { spawn with spawnerRepeats :=
          spawn.spawners.keys.any (OrderedMap.contains (runsMoreThanOnce kosarajuScc survey)) } }

end Components

end FramaCMcp.Concurrency
