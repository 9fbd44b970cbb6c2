/-
This file shows that the functions that run more than once are a least closed set.
-/

import FramaCMcp.Construction.Repetition
import Mathlib.Order.Bounds.Defs

namespace FramaCMcp.Concurrency

open Digraph Fixpoint Relation

/-- Each function of the set runs more than once for one of these reasons, and the set has all of
them. -/
structure RepeatsIn (survey : CallSurvey) (many : Set String) : Prop where
  site : ∀ name sites, survey.calls.lookup name = some sites →
    1 < sites.count ∨ sites.inLoop = true → name ∈ many
  cycle : ∀ name, TransGen (CallEdge survey.edges) name name → name ∈ many
  callee : ∀ caller ∈ many, ∀ name, CallEdge survey.edges caller name → name ∈ many
  entry : ∀ name spawn, survey.entries.lookup name = some spawn →
    (1 < spawn.sites ∨ spawn.inLoop = true ∨ ∃ spawner ∈ spawn.spawners.keys, spawner ∈ many) →
    name ∈ many

def members (many : OrderedSet String) : Set String := {name | name ∈ many.keys}

section Start

variable {survey : CallSurvey}

theorem mem_repeatingCalls_iff (name : String) : name ∈ repeatingCalls survey ↔
    ∃ sites, survey.calls.lookup name = some sites ∧ (1 < sites.count ∨ sites.inLoop = true) := by
  unfold repeatingCalls
  rw [List.mem_map]
  constructor
  · rintro ⟨⟨_, sites⟩, member, rfl⟩
    obtain ⟨listed, often⟩ := List.mem_filter.mp member
    rw [Bool.or_eq_true, decide_eq_true_eq] at often
    exact ⟨sites, (OrderedMap.mem_entries_iff ..).mp listed, often⟩
  · rintro ⟨sites, found, often⟩
    refine ⟨(name, sites), List.mem_filter.mpr ⟨(OrderedMap.mem_entries_iff ..).mpr found, ?_⟩, rfl⟩
    rw [Bool.or_eq_true, decide_eq_true_eq]
    exact often

theorem mem_repeatingEntries_iff (many : OrderedSet String) (name : String) :
    name ∈ repeatingEntries survey many ↔ ∃ spawn, survey.entries.lookup name = some spawn ∧
      (1 < spawn.sites ∨ spawn.inLoop = true ∨
        ∃ spawner ∈ spawn.spawners.keys, spawner ∈ members many) := by
  have often (spawn : Spawn) : (decide (1 < spawn.sites) || spawn.inLoop ||
      spawn.spawners.keys.any (OrderedMap.contains many)) = true ↔
      (1 < spawn.sites ∨ spawn.inLoop = true ∨
        ∃ spawner ∈ spawn.spawners.keys, spawner ∈ members many) := by
    rw [Bool.or_eq_true, Bool.or_eq_true, decide_eq_true_eq, or_assoc, List.any_eq_true]
    exact or_congr_right (or_congr_right (exists_congr fun spawner =>
      and_congr_right fun _ => (OrderedMap.mem_keys many spawner).symm))
  unfold repeatingEntries
  rw [List.mem_map]
  constructor
  · rintro ⟨⟨_, spawn⟩, member, rfl⟩
    obtain ⟨listed, repeats⟩ := List.mem_filter.mp member
    exact ⟨spawn, (OrderedMap.mem_entries_iff ..).mp listed, (often spawn).mp repeats⟩
  · rintro ⟨spawn, found, repeats⟩
    exact ⟨(name, spawn), List.mem_filter.mpr
      ⟨(OrderedMap.mem_entries_iff ..).mpr found, (often spawn).mpr repeats⟩, rfl⟩

theorem mem_foldl_addAll (groups : List (List String)) (set : OrderedSet String) (name : String) :
    name ∈ (groups.foldl OrderedSet.addAll set).keys ↔
      name ∈ set.keys ∨ ∃ group ∈ groups, name ∈ group := by
  induction groups generalizing set with
  | nil => simp
  | cons group rest ih =>
      rw [List.foldl_cons, ih, OrderedSet.mem_keys_addAll]
      simp only [List.mem_cons, exists_eq_or_imp]
      tauto

variable {kosarajuScc : DiGraph String → List (List Nat)}
  (strong : StrongComponents (directedGraph (arcsOf survey.edges))
    (kosarajuScc (directedGraph (arcsOf survey.edges))))

theorem callsItself_iff (edges : OrderedMap String (OrderedSet String)) (component : List String) :
    callsItself edges component = true ↔ ∃ first ∈ component.head?, CallEdge edges first first := by
  unfold callsItself CallEdge targetsOf
  rw [Option.any_eq_true]
  refine exists_congr fun name => and_congr_right fun _ => ?_
  cases edges.lookup name with
  | none => exact iff_of_false (by simp) (List.not_mem_nil)
  | some callees => exact (OrderedMap.mem_keys callees name).symm

include strong in
/-- A function of a component lies on a call cycle where the component has a second one or the
function calls itself. -/
theorem onCycle_iff_component {component : List Nat} {name : String}
    (listed : component ∈ kosarajuScc (directedGraph (arcsOf survey.edges)))
    (inside : name ∈ (directedGraph (arcsOf survey.edges)).weightsOf component) :
    TransGen (CallEdge survey.edges) name name ↔
      2 ≤ ((directedGraph (arcsOf survey.edges)).weightsOf component).length ∨
        CallEdge survey.edges name name :=
  transGen_self_iff (CallEdge survey.edges) _
    ((directedGraph_represents survey.edges).weightsOf_nodup strong listed) name inside
    ((directedGraph_represents survey.edges).mem_weightsOf_iff strong listed inside)

include strong in
/-- The members of the chosen components are the functions on a call cycle. -/
theorem mem_cyclicComponent_iff (name : String) :
    (∃ component ∈ (components kosarajuScc survey.edges).filter fun component =>
        decide (1 < component.length) || callsItself survey.edges component, name ∈ component) ↔
      TransGen (CallEdge survey.edges) name name := by
  have sorted (weights : List String) : (StableSort.sortByKey id weights).Perm weights :=
    StableSort.sortByKey_perm id weights
  constructor
  · rintro ⟨chosen, member, inside⟩
    obtain ⟨listed, often⟩ := List.mem_filter.mp member
    obtain ⟨component, scc, rfl⟩ := List.mem_map.mp ((StableSort.sortByKey_perm ..).mem_iff.mp listed)
    have within := (sorted _).mem_iff.mp inside
    rw [onCycle_iff_component strong scc within]
    rcases Bool.or_eq_true_iff.mp often with several | itself
    · rw [decide_eq_true_eq, (sorted _).length_eq] at several
      exact .inl several
    · obtain ⟨first, head, edge⟩ := (callsItself_iff ..).mp itself
      have member := (sorted _).mem_iff.mp (List.mem_of_head? head)
      by_cases same : name = first
      · exact .inr (same ▸ edge)
      · have pair : [name, first].Subperm
            ((directedGraph (arcsOf survey.edges)).weightsOf component) := by
          apply List.Nodup.subperm (by simpa using same)
          intro other listed
          rcases List.mem_pair.mp listed with rfl | rfl
          · exact within
          · exact member
        exact .inl pair.length_le
  · intro cycle
    obtain ⟨callee, edge, -⟩ := TransGen.head'_iff.mp cycle
    obtain ⟨component, scc, within⟩ := Represents.exists_weightsOf strong
      ((directedGraph_represents survey.edges).declared edge).1
    refine ⟨StableSort.sortByKey id ((directedGraph (arcsOf survey.edges)).weightsOf component),
      List.mem_filter.mpr ⟨?_, ?_⟩, (sorted _).mem_iff.mpr within⟩
    · exact (StableSort.sortByKey_perm ..).mem_iff.mpr (List.mem_map_of_mem scc)
    · rw [Bool.or_eq_true, decide_eq_true_eq, (sorted _).length_eq]
      rcases (onCycle_iff_component strong scc within).mp cycle with several | itself
      · exact .inl several
      · by_cases several : 2 ≤ ((directedGraph (arcsOf survey.edges)).weightsOf component).length
        · exact .inl several
        · have alone : (directedGraph (arcsOf survey.edges)).weightsOf component = [name] := by
            have short : ((directedGraph (arcsOf survey.edges)).weightsOf component).length ≤ 1 := by
              omega
            obtain ⟨only, same⟩ := List.length_eq_one_iff.mp
              (le_antisymm short (List.length_pos_of_mem within))
            rw [same] at within ⊢
            rw [List.mem_singleton.mp within]
          refine .inr ((callsItself_iff ..).mpr ⟨name, ?_, itself⟩)
          rw [alone]
          rfl

include strong in
theorem mem_startsRepeating_iff (name : String) :
    name ∈ (startsRepeating kosarajuScc survey).keys ↔
      (∃ sites, survey.calls.lookup name = some sites ∧
        (1 < sites.count ∨ sites.inLoop = true)) ∨
      TransGen (CallEdge survey.edges) name name := by
  have none : name ∉ (OrderedMap.empty : OrderedSet String).keys := List.not_mem_nil
  unfold startsRepeating
  rw [mem_foldl_addAll, mem_cyclicComponent_iff strong, OrderedSet.mem_keys_addAll,
    mem_repeatingCalls_iff, or_iff_left none]

end Start

section Grown

variable {survey : CallSurvey} {many : OrderedSet String}

/-- A closed set that has the members has those of the next round. -/
theorem growRepeating_subset {closed : Set String} (repeats : RepeatsIn survey closed)
    (inside : members many ⊆ closed) : members (growRepeating survey many) ⊆ closed := by
  intro name member
  obtain ⟨seed, start, path⟩ := (mem_growRepeating_iff ..).mp member
  have first : seed ∈ closed := by
    rcases start with old | entry
    · exact inside old
    · obtain ⟨spawn, found, often⟩ := (mem_repeatingEntries_iff ..).mp entry
      refine repeats.entry seed spawn found (often.imp id (Or.imp id ?_))
      rintro ⟨spawner, listed, member⟩
      exact ⟨spawner, listed, inside member⟩
  clear member
  induction path with
  | refl => exact first
  | tail _ edge ih => exact repeats.callee _ ih _ edge

/-- A round that keeps the size adds no member. -/
theorem growRepeating_members (stopped : growRound survey many = none) :
    members (growRepeating survey many) = members many := by
  unfold growRound at stopped
  simp only at stopped
  split_ifs at stopped with same
  rw [length_entries, length_entries] at same
  have wider : many.keys.toFinset ⊆ (growRepeating survey many).keys.toFinset := fun name member =>
    List.mem_toFinset.mpr (mem_growRepeating_of_mem survey many name (List.mem_toFinset.mp member))
  have equal := Finset.eq_of_subset_of_card_le wider same.le
  ext name
  show name ∈ (growRepeating survey many).keys ↔ name ∈ many.keys
  rw [← List.mem_toFinset, ← equal, List.mem_toFinset]

end Grown

section Least

variable {survey : CallSurvey} {kosarajuScc : DiGraph String → List (List Nat)}
  (strong : StrongComponents (directedGraph (arcsOf survey.edges))
    (kosarajuScc (directedGraph (arcsOf survey.edges))))

include strong in
theorem startsRepeating_subset {closed : Set String} (repeats : RepeatsIn survey closed) :
    members (startsRepeating kosarajuScc survey) ⊆ closed := by
  intro name member
  rcases (mem_startsRepeating_iff strong name).mp member with ⟨sites, found, often⟩ | cycle
  · exact repeats.site name sites found often
  · exact repeats.cycle name cycle

def lastRound (kosarajuScc : DiGraph String → List (List Nat)) (survey : CallSurvey) :
    OrderedSet String := (growDescent survey).loop (startsRepeating kosarajuScc survey)

theorem lastRound_stopped : growRound survey (lastRound kosarajuScc survey) = none :=
  ((growDescent survey).loop_invariant (fun _ => True) (fun _ _ _ _ => trivial) _ trivial).2

theorem members_runsMoreThanOnce : members (runsMoreThanOnce kosarajuScc survey) =
    members (lastRound kosarajuScc survey) := growRepeating_members lastRound_stopped

theorem startsRepeating_subset_lastRound :
    members (startsRepeating kosarajuScc survey) ⊆ members (lastRound kosarajuScc survey) := by
  refine ((growDescent survey).loop_invariant
    (fun many => members (startsRepeating kosarajuScc survey) ⊆ members many) ?_ _
    (fun _ member => member)).1
  intro many next inside found name member
  obtain ⟨rfl, _⟩ := growRound_eq_some found
  exact mem_growRepeating_of_mem survey many name (inside member)

theorem lastRound_subset {closed : Set String} (repeats : RepeatsIn survey closed)
    (start : members (startsRepeating kosarajuScc survey) ⊆ closed) :
    members (lastRound kosarajuScc survey) ⊆ closed := by
  refine ((growDescent survey).loop_invariant (fun many => members many ⊆ closed) ?_ _ start).1
  intro many next inside found
  obtain ⟨rfl, _⟩ := growRound_eq_some found
  exact growRepeating_subset repeats inside

include strong in
theorem runsMoreThanOnce_repeatsIn :
    RepeatsIn survey (members (runsMoreThanOnce kosarajuScc survey)) := by
  have stays := @members_runsMoreThanOnce survey kosarajuScc
  have start : members (startsRepeating kosarajuScc survey) ⊆
      members (runsMoreThanOnce kosarajuScc survey) :=
    stays ▸ startsRepeating_subset_lastRound
  refine ⟨fun name sites found often => ?_, fun name cycle => ?_, fun caller member name edge => ?_,
    fun name spawn found often => ?_⟩
  · exact start ((mem_startsRepeating_iff strong name).mpr (.inl ⟨sites, found, often⟩))
  · exact start ((mem_startsRepeating_iff strong name).mpr (.inr cycle))
  · obtain ⟨seed, origin, path⟩ := (mem_growRepeating_iff ..).mp member
    exact (mem_growRepeating_iff ..).mpr ⟨seed, origin, path.tail edge⟩
  · rw [stays] at often
    exact (mem_growRepeating_iff ..).mpr
      ⟨name, .inr ((mem_repeatingEntries_iff ..).mpr ⟨spawn, found, often⟩), .refl⟩

theorem mayRepeat_iff (name : String) (spawn : Spawn)
    (found : (finishCalls kosarajuScc survey).entries.lookup name = some spawn) :
    spawn.mayRepeat = true ↔ 1 < spawn.sites ∨ spawn.inLoop = true ∨
      ∃ spawner ∈ spawn.spawners.keys,
        spawner ∈ members (runsMoreThanOnce kosarajuScc survey) := by
  obtain ⟨before, -, rfl⟩ := Option.map_eq_some_iff.mp
    ((OrderedMap.lookup_mapValues ..).symm.trans found)
  unfold Spawn.mayRepeat
  rw [Bool.or_eq_true, Bool.or_eq_true, decide_eq_true_eq, or_assoc, List.any_eq_true]
  exact or_congr_right (or_congr_right (exists_congr fun spawner =>
    and_congr_right fun _ => (OrderedMap.mem_keys _ spawner).symm))

include strong in
/-- The rounds end at the least closed set, and the spawns agree with it. -/
theorem runsMoreThanOnce_isLeast :
    (∃ rounds ≤ growSize survey (startsRepeating kosarajuScc survey),
      (growDescent survey).Rounds rounds (startsRepeating kosarajuScc survey)
        (lastRound kosarajuScc survey)) ∧
    IsLeast {many | RepeatsIn survey many} (members (runsMoreThanOnce kosarajuScc survey)) ∧
    ∀ name spawn, (finishCalls kosarajuScc survey).entries.lookup name = some spawn →
      (spawn.mayRepeat = true ↔ 1 < spawn.sites ∨ spawn.inLoop = true ∨
        ∃ spawner ∈ spawn.spawners.keys,
          spawner ∈ members (runsMoreThanOnce kosarajuScc survey)) := by
  refine ⟨(growDescent survey).loop_rounds _,
    ⟨runsMoreThanOnce_repeatsIn strong, fun closed repeats => ?_⟩, mayRepeat_iff⟩
  rw [members_runsMoreThanOnce]
  exact lastRound_subset repeats (startsRepeating_subset strong repeats)

end Least

/-- A function that calls itself starts a thread once in its text. -/
def recursiveSpawner : CallSurvey where
  entries := OrderedMap.insert OrderedMap.empty "run"
    { Spawn.empty with sites := 1, spawners := OrderedSet.add OrderedMap.empty "pool" }
  edges := OrderedMap.insert OrderedMap.empty "pool" (OrderedSet.add OrderedMap.empty "pool")
  calls := OrderedMap.insert OrderedMap.empty "pool" ⟨1, false⟩

theorem recursiveSpawner_strong :
    StrongComponents (directedGraph (arcsOf recursiveSpawner.edges)) [[0]] :=
  .of_rank id (by decide) (by decide) (by decide) (by decide) (by decide)

/-- The set of the recursive spawner is least among the closed sets. -/
theorem recursiveSpawner_isLeast : IsLeast {many | RepeatsIn recursiveSpawner many}
    (members (runsMoreThanOnce (fun _ => [[0]]) recursiveSpawner)) :=
  (@runsMoreThanOnce_isLeast recursiveSpawner (fun _ => [[0]]) recursiveSpawner_strong).2.1

end FramaCMcp.Concurrency
