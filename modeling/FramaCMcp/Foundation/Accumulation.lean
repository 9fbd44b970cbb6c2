/-
This file gives what folds accumulate, and it counts all items of a list and keeps the first ones.
-/

import Mathlib.Algebra.BigOperators.Group.List.Basic
import Mathlib.Data.List.Basic
import Mathlib.Data.List.Infix
import Mathlib.Data.List.Induction

namespace Accumulation

variable {State Value : Type} (holds : State → Prop)

theorem holds_foldl (step : State → Value → State) (adds : Value → Prop)
    (one : ∀ state value, holds (step state value) ↔ holds state ∨ adds value)
    (values : List Value) (state : State) :
    holds (values.foldl step state) ↔ holds state ∨ ∃ value ∈ values, adds value := by
  induction values generalizing state with
  | nil => simp
  | cons value rest ih =>
      rw [List.foldl_cons, ih, one, or_assoc]
      simp only [List.mem_cons, exists_eq_or_imp]

/-- The place of a value does not matter for what it adds. -/
theorem holds_foldl_zipIdx (step : State → Value × Nat → State) (adds : Value → Prop)
    (one : ∀ state value, holds (step state value) ↔ holds state ∨ adds value.1)
    (values : List Value) (state : State) :
    holds (values.zipIdx.foldl step state) ↔ holds state ∨ ∃ value ∈ values, adds value := by
  rw [holds_foldl holds step (fun value => adds value.1) one]
  refine or_congr_right ?_
  constructor
  · rintro ⟨⟨value, index⟩, member, added⟩
    exact ⟨value, List.mem_iff_getElem?.mpr ⟨index, List.mem_zipIdx_iff_getElem?.mp member⟩, added⟩
  · rintro ⟨value, member, added⟩
    obtain ⟨index, found⟩ := List.mem_iff_getElem?.mp member
    exact ⟨(value, index), List.mem_zipIdx_iff_getElem?.mpr found, added⟩

/-- Steps that add nothing change nothing. -/
theorem holds_foldl_same (step : State → Value → State)
    (one : ∀ state value, holds (step state value) ↔ holds state)
    (values : List Value) (state : State) : holds (values.foldl step state) ↔ holds state := by
  rw [holds_foldl holds step (fun _ => False) (by simpa using one)]
  simp

section Sums

variable {Total Item : Type} [AddMonoid Total]

def Adds (step : Total → Total) : Prop := ∀ total, step total = total + step 0

theorem adds_id : Adds (fun total : Total => total) := fun total => (add_zero total).symm

theorem Adds.comp {first second : Total → Total} (own : Adds first) (other : Adds second) :
    Adds fun total => second (first total) := by
  intro total
  change second (first total) = total + second (first 0)
  rw [other (first total), own total, other (first 0), add_assoc]

/-- The items add their parts one after another. -/
theorem foldl_eq_add_sum {step : Total → Item → Total} (items : List Item)
    (adds : ∀ item ∈ items, Adds fun total => step total item) (total : Total) :
    items.foldl step total = total + (items.map fun item => step 0 item).sum := by
  induction items generalizing total with
  | nil => exact (add_zero total).symm
  | cons item rest ih =>
      obtain ⟨own, others⟩ := List.forall_mem_cons.mp adds
      have first : step total item = total + step 0 item := own total
      rw [List.foldl_cons, ih others, List.map_cons, List.sum_cons, first, add_assoc]

theorem Adds.foldl {step : Total → Item → Total} (items : List Item)
    (adds : ∀ item ∈ items, Adds fun total => step total item) :
    Adds fun total => items.foldl step total := by
  intro total
  change items.foldl step total = total + items.foldl step 0
  rw [foldl_eq_add_sum items adds, foldl_eq_add_sum items adds 0, zero_add]

end Sums

end Accumulation

namespace History

variable {Entry : Type}

/-- The last matching entry comes with its place. -/
def last (test : Entry → Bool) (history : List Entry) : Option (Nat × Entry) :=
  history.zipIdx.foldl (fun found entry => if test entry.1 then some (entry.2, entry.1) else found)
    none

theorem last_append_singleton (test : Entry → Bool) (history : List Entry) (entry : Entry) :
    last test (history ++ [entry]) =
      if test entry then some (history.length, entry) else last test history := by
  simp [last, List.zipIdx_append, List.foldl_append]

theorem place_lt {test : Entry → Bool} {history : List Entry} {place : Nat} {entry : Entry}
    (found : last test history = some (place, entry)) : place < history.length := by
  induction history using List.reverseRecOn with
  | nil => cases found
  | append_singleton history newest ih =>
      rw [last_append_singleton] at found
      rw [List.length_append, List.length_singleton]
      split_ifs at found
      · cases found
        exact Nat.lt_succ_self _
      · exact Nat.lt_succ_of_lt (ih found)

/-- A longer history finds the same entry or one of its new part. -/
theorem last_of_extension {test : Entry → Bool} {earlier later : List Entry}
    (grown : earlier <+: later) :
    last test later = last test earlier ∨
      ∃ place entry, last test later = some (place, entry) ∧ earlier.length ≤ place := by
  obtain ⟨added, rfl⟩ := grown
  induction added using List.reverseRecOn with
  | nil => exact .inl (by rw [List.append_nil])
  | append_singleton added newest ih =>
      rw [← List.append_assoc, last_append_singleton]
      split_ifs
      · exact .inr ⟨_, _, rfl, by simp⟩
      · exact ih

/-- Two histories that find an entry at the same place find the same one at any time between. -/
theorem last_between {test : Entry → Bool} {first middle final : List Entry}
    (early : first <+: middle) (late : middle <+: final)
    (same : (last test first).map Prod.fst = (last test final).map Prod.fst) :
    last test middle = last test first := by
  rcases @last_of_extension _ test _ _ early with kept | ⟨place, entry, found, new⟩
  · exact kept
  · have newer : ∃ place entry, last test final = some (place, entry) ∧ first.length ≤ place := by
      rcases @last_of_extension _ test _ _ late with kept | ⟨later, other, found', new'⟩
      · exact ⟨place, entry, kept.trans found, new⟩
      · exact ⟨later, other, found', early.length_le.trans new'⟩
    obtain ⟨later, other, found', new'⟩ := newer
    rw [found', Option.map_some] at same
    obtain ⟨⟨old, oldest⟩, here, rfl⟩ := Option.map_eq_some_iff.mp same
    exact absurd (place_lt here) (by simpa using new')

end History

/-- All items are counted, and some of them are kept. -/
structure Sample (Value : Type) where
  count : Nat := 0
  kept : List Value := []

namespace Sample

variable {Value : Type}

/-- An item is made only where it is kept, and its making may fail. -/
def add (bound : Nat) (sample : Sample Value) (item : Option Value) : Option (Sample Value) :=
  if sample.kept.length < bound then
    item.map fun value => { count := sample.count + 1, kept := sample.kept ++ [value] }
  else some { sample with count := sample.count + 1 }

/-- The sample has counted these items and has kept the first ones. -/
structure Tallies (bound : Nat) (items : List (Option Value)) (sample : Sample Value) : Prop where
  count : sample.count = items.length
  kept : sample.kept.map some = items.take bound

variable {bound : Nat} {items : List (Option Value)} {sample next : Sample Value}
  {item : Option Value}

theorem tallies_nil : Tallies bound [] ({} : Sample Value) := ⟨rfl, List.take_nil.symm⟩

theorem Tallies.length_kept (tallies : Tallies bound items sample) :
    sample.kept.length = min bound items.length := by
  rw [← List.length_take, ← tallies.kept, List.length_map]

theorem Tallies.kept_le_count (tallies : Tallies bound items sample) :
    sample.kept.length ≤ sample.count := by
  rw [tallies.length_kept, tallies.count]
  exact Nat.min_le_right _ _

/-- What has been kept was made. -/
theorem Tallies.none_notMem (tallies : Tallies bound items sample) : none ∉ items.take bound := by
  rw [← tallies.kept]
  intro member
  obtain ⟨value, _, absurd⟩ := List.mem_map.mp member
  cases absurd

theorem Tallies.add_some (tallies : Tallies bound items sample)
    (added : sample.add bound item = some next) : Tallies bound (items ++ [item]) next := by
  have length := tallies.length_kept
  rw [add] at added
  split_ifs at added with room
  · obtain ⟨value, rfl, rfl⟩ := Option.map_eq_some_iff.mp added
    have short : items.length < bound := by omega
    refine ⟨by simp [tallies.count], ?_⟩
    rw [List.map_append, tallies.kept, List.take_of_length_le (Nat.le_of_lt short),
      List.take_of_length_le (by simpa using Nat.succ_le_of_lt short)]
    rfl
  · cases added
    have full : bound ≤ items.length := by omega
    refine ⟨by simp [tallies.count], ?_⟩
    rw [tallies.kept, List.take_append_of_le_length full]

theorem Tallies.add_none (tallies : Tallies bound items sample)
    (failed : sample.add bound item = none) : none ∈ (items ++ [item]).take bound := by
  have length := tallies.length_kept
  rw [add] at failed
  split_ifs at failed with room
  obtain rfl := Option.map_eq_none_iff.mp failed
  have short : items.length < bound := by omega
  rw [List.take_of_length_le (by simpa using Nat.succ_le_of_lt short)]
  exact List.mem_append_right _ (List.mem_singleton_self _)

end Sample
