/-
This file gives the maps with text keys and the update of all their values.
-/

import Mathlib.Algebra.Order.Ring.Nat
import Mathlib.Data.List.AList
import Mathlib.Data.List.Induction

/-- This type is a map in which each key occurs once. -/
abbrev HashMap (Value : Type) := AList fun _ : String => Value

namespace HashMap

/-- A later entry replaces an earlier one with the same key. -/
def ofList {Value : Type} (entries : List (String × Value)) : HashMap Value :=
  entries.foldl (fun map entry => map.insert entry.1 entry.2) ∅

def entryUpdate {Value : Type} (update : String → Value → Value)
    (entry : Sigma fun _ : String => Value) : Sigma fun _ : String => Value :=
  ⟨entry.1, update entry.1 entry.2⟩

/-- This function changes each value in place. -/
def sweep {Value : Type} (map : HashMap Value) (update : String → Value → Value) :
    HashMap Value where
  entries := map.entries.map (entryUpdate update)
  nodupKeys := by
    have keys : (map.entries.map (entryUpdate update)).keys = map.entries.keys := by
      simp [List.keys, Function.comp_def, entryUpdate]
    rw [List.NodupKeys, keys]
    exact map.nodupKeys

variable {Value : Type}

theorem dlookup_entryUpdate (update : String → Value → Value) (key : String)
    (entries : List (Sigma fun _ : String => Value)) :
    (entries.map (entryUpdate update)).dlookup key = (entries.dlookup key).map (update key) := by
  induction entries with
  | nil => rfl
  | cons entry rest ih =>
      rcases entry with ⟨name, value⟩
      by_cases same : name = key
      · subst same
        simp [entryUpdate]
      · rw [List.map_cons, entryUpdate, List.dlookup_cons_ne _ _ (Ne.symm same),
          List.dlookup_cons_ne _ _ (Ne.symm same), ih]

/-- The update acts on each value alone. -/
@[simp] theorem lookup_sweep (map : HashMap Value) (update : String → Value → Value) (key : String) :
    (map.sweep update).lookup key = (map.lookup key).map (update key) :=
  dlookup_entryUpdate update key map.entries

theorem sweep_congr {map : HashMap Value} {update other : String → Value → Value}
    (same : ∀ key ∈ map.keys, ∀ value, update key value = other key value) :
    map.sweep update = map.sweep other := by
  apply AList.ext
  apply List.map_congr_left
  intro entry member
  have inside : entry.1 ∈ map.keys := List.mem_map_of_mem member
  rw [entryUpdate, entryUpdate, same entry.1 inside]

theorem sweep_sweep (map : HashMap Value) (first second : String → Value → Value) :
    (map.sweep first).sweep second = map.sweep fun key value => second key (first key value) := by
  apply AList.ext
  simp [sweep, entryUpdate]

theorem sweep_id {Value : Type} {map : HashMap Value} {update : String → Value → Value}
    (same : ∀ key value, update key value = value) : map.sweep update = map := by
  apply AList.ext
  calc map.entries.map (entryUpdate update) = map.entries.map id :=
        List.map_congr_left fun entry _ => by rw [entryUpdate, same, id]
    _ = map.entries := List.map_id _

/-- This function changes the value of one key in place. -/
def adjust {Value : Type} (map : HashMap Value) (key : String) (change : Value → Value) :
    HashMap Value :=
  map.sweep fun name value => if name = key then change value else value

/-- A map keeps or replaces an entry on insertion. -/
theorem lookup_insert_cases (map : HashMap Value) (key name : String) (value : Value) :
    (map.insert key value).lookup name = if name = key then some value else map.lookup name := by
  by_cases same : name = key
  · subst same
    simp
  · rw [if_neg same, AList.lookup_insert_ne same]

theorem ofList_append_singleton (entries : List (String × Value)) (entry : String × Value) :
    ofList (entries ++ [entry]) = (ofList entries).insert entry.1 entry.2 := by
  simp [ofList]

/-- Only the empty list makes an empty map. -/
theorem entries_ofList_eq_nil_iff (entries : List (String × Value)) :
    (ofList entries).entries = [] ↔ entries = [] := by
  induction entries using List.reverseRecOn with
  | nil => exact ⟨fun _ => rfl, fun _ => rfl⟩
  | append_singleton entries entry ih =>
      rw [ofList_append_singleton, AList.entries_insert]
      simp

theorem lookup_ofList_iff (entries : List (String × Value))
    (distinct : (entries.map Prod.fst).Nodup) (key : String) (value : Value) :
    (ofList entries).lookup key = some value ↔ (key, value) ∈ entries := by
  induction entries using List.reverseRecOn with
  | nil => simp [ofList]
  | append_singleton entries entry ih =>
      rw [List.map_append, List.nodup_append] at distinct
      obtain ⟨earlier, -, apart⟩ := distinct
      rw [ofList_append_singleton, lookup_insert_cases, List.mem_append, List.mem_singleton]
      split_ifs with same
      · subst same
        have absent : (entry.1, value) ∉ entries := fun member =>
          apart entry.1 (List.mem_map.mpr ⟨_, member, rfl⟩) entry.1 (by simp) rfl
        simp [absent, Prod.ext_iff, eq_comm]
      · rw [ih earlier]
        simp [Prod.ext_iff, same]

theorem mem_of_lookup_ofList (entries : List (String × Value)) (key : String) (value : Value)
    (found : (ofList entries).lookup key = some value) : (key, value) ∈ entries := by
  induction entries using List.reverseRecOn with
  | nil => simp [ofList] at found
  | append_singleton entries entry ih =>
      rw [ofList_append_singleton, lookup_insert_cases] at found
      split_ifs at found with same
      · subst same
        obtain rfl := Option.some.inj found
        exact List.mem_append_right _ (List.mem_singleton.mpr rfl)
      · exact List.mem_append_left _ (ih found)

/-- Each key of a tabulated function has its own value. -/
theorem lookup_ofList_map (keys : List String) (value : String → Value) (name : String) :
    (ofList (keys.map fun key => (key, value key))).lookup name =
      if name ∈ keys then some (value name) else none := by
  induction keys using List.reverseRecOn with
  | nil => rfl
  | append_singleton keys key ih =>
      rw [List.map_append, List.map_singleton, ofList_append_singleton, lookup_insert_cases, ih]
      by_cases same : name = key
      · simp [same]
      · simp [same]

/-- This is the sum of all values. -/
def total (map : HashMap Nat) : Nat := (map.entries.map Sigma.snd).sum

theorem sum_kerase (key : String) (entries : List (Sigma fun _ : String => Nat)) :
    ((entries.kerase key).map Sigma.snd).sum + (entries.dlookup key).getD 0 =
      (entries.map Sigma.snd).sum := by
  induction entries with
  | nil => rfl
  | cons entry rest ih =>
      rcases entry with ⟨name, value⟩
      by_cases same : key = name
      · subst same
        simp [Nat.add_comm]
      · rw [List.kerase_cons_ne same, List.dlookup_cons_ne _ _ same]
        simp only [List.map_cons, List.sum_cons]
        omega

/-- One more occurrence of a key is one more in the sum. -/
theorem total_count (map : HashMap Nat) (key : String) :
    total (map.insert key ((map.lookup key).getD 0 + 1)) = total map + 1 := by
  have rest := sum_kerase key map.entries
  rw [total, AList.entries_insert, List.map_cons, List.sum_cons, total, AList.lookup]
  show (map.entries.dlookup key).getD 0 + 1 + ((map.entries.kerase key).map Sigma.snd).sum =
    (map.entries.map Sigma.snd).sum + 1
  omega

theorem mem_entries_iff (map : HashMap Value) (key : String) (value : Value) :
    ⟨key, value⟩ ∈ map.entries ↔ map.lookup key = some value :=
  (List.mem_dlookup_iff map.nodupKeys).symm

theorem filter_of_mem (entries : List (Sigma fun _ : String => Value))
    (distinct : entries.NodupKeys) (key : String) (value : Value) (member : ⟨key, value⟩ ∈ entries) :
    entries.filter (fun entry => decide (entry.1 = key)) = [⟨key, value⟩] := by
  induction entries with
  | nil => cases member
  | cons head rest ih =>
      obtain ⟨apart, later⟩ := List.pairwise_cons.mp distinct.pairwise_ne
      rcases List.mem_cons.mp member with rfl | present
      · have others : ∀ entry ∈ rest, ¬ decide (entry.1 = key) = true := by
          intro entry present
          simpa using (apart entry present).symm
        rw [List.filter_cons_of_pos (by simp), List.filter_eq_nil_iff.mpr others]
      · have different : head.1 ≠ key := apart _ present
        rw [List.filter_cons_of_neg (by simpa using different)]
        exact ih (List.nodupKeys_iff_pairwise.mpr later) present

theorem filter_entries (map : HashMap Value) (key : String) (value : Value)
    (found : map.lookup key = some value) :
    map.entries.filter (fun entry => decide (entry.1 = key)) = [⟨key, value⟩] :=
  filter_of_mem map.entries map.nodupKeys key value ((mem_entries_iff map key value).mpr found)

/-- This function keeps the entries that have a new value. -/
def filterMap {Value Other : Type} (map : HashMap Value) (change : String → Value → Option Other) :
    HashMap Other :=
  ofList (map.entries.filterMap fun entry =>
    (change entry.1 entry.2).map fun value => (entry.1, value))

theorem nodup_filterMap {Value Other : Type} (entries : List (Sigma fun _ : String => Value))
    (distinct : entries.NodupKeys) (change : String → Value → Option Other) :
    ((entries.filterMap fun entry =>
      (change entry.1 entry.2).map fun value => (entry.1, value)).map Prod.fst).Nodup := by
  induction entries with
  | nil => exact List.nodup_nil
  | cons head rest ih =>
      obtain ⟨apart, later⟩ := List.nodupKeys_cons.mp distinct
      cases changed : change head.1 head.2 with
      | none => rw [List.filterMap_cons_none (by rw [changed]; rfl)]; exact ih later
      | some value =>
          rw [List.filterMap_cons_some (by rw [changed]; rfl), List.map_cons, List.nodup_cons]
          refine ⟨fun member => apart ?_, ih later⟩
          obtain ⟨entry, kept, same⟩ := List.mem_map.mp member
          obtain ⟨source, present, mapped⟩ := List.mem_filterMap.mp kept
          obtain ⟨_, -, rfl⟩ := Option.map_eq_some_iff.mp mapped
          exact List.mem_map.mpr ⟨source, present, same⟩

@[simp] theorem lookup_filterMap {Value Other : Type} (map : HashMap Value)
    (change : String → Value → Option Other) (key : String) :
    (map.filterMap change).lookup key = (map.lookup key).bind (change key) := by
  apply Option.ext
  intro value
  rw [filterMap, lookup_ofList_iff _ (nodup_filterMap map.entries map.nodupKeys change),
    List.mem_filterMap, Option.bind_eq_some_iff]
  constructor
  · rintro ⟨entry, present, changed⟩
    obtain ⟨other, kept, same⟩ := Option.map_eq_some_iff.mp changed
    obtain ⟨rfl, rfl⟩ := Prod.mk.inj same
    exact ⟨entry.2, (mem_entries_iff map entry.1 entry.2).mp present, kept⟩
  · rintro ⟨old, found, changed⟩
    exact ⟨⟨key, old⟩, (mem_entries_iff map key old).mpr found, by simp [changed]⟩

end HashMap
