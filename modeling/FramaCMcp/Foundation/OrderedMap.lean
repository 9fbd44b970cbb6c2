/-
This file gives a map whose entries stand in the order of their keys and counts the related pairs of
a list.
-/

import Mathlib.Data.List.Basic
import Mathlib.Order.Defs.LinearOrder
import Mathlib.Algebra.Order.Ring.Int
import Mathlib.Algebra.BigOperators.Group.Finset.Basic

/-- The keys of the entries rise, so each key has at most one value. -/
structure OrderedMap (Key Value : Type) [LinearOrder Key] where
  entries : List (Key × Value)
  sorted : entries.Pairwise fun left right => left.1 < right.1

namespace OrderedMap

variable {Key Value : Type} [LinearOrder Key]

def empty : OrderedMap Key Value := ⟨[], .nil⟩

instance : Inhabited (OrderedMap Key Value) := ⟨empty⟩

def lookup (map : OrderedMap Key Value) (key : Key) : Option Value := map.entries.lookup key

/-- The value takes the place of the one with the same key. -/
def insertEntry (key : Key) (value : Value) : List (Key × Value) → List (Key × Value)
  | [] => [(key, value)]
  | entry :: rest =>
      if key < entry.1 then (key, value) :: entry :: rest
      else if key = entry.1 then (key, value) :: rest
      else entry :: insertEntry key value rest

theorem mem_insertEntry {key : Key} {value : Value} {entry : Key × Value} :
    ∀ {entries : List (Key × Value)}, entry ∈ insertEntry key value entries →
      entry = (key, value) ∨ entry ∈ entries := by
  intro entries
  induction entries with
  | nil => exact fun member => .inl (List.mem_singleton.mp member)
  | cons head rest ih =>
      unfold insertEntry
      split_ifs
      · exact List.mem_cons.mp
      · intro member
        rcases List.mem_cons.mp member with new | old
        · exact .inl new
        · exact .inr (List.mem_cons_of_mem _ old)
      · intro member
        rcases List.mem_cons.mp member with rfl | later
        · exact .inr (List.mem_cons_self ..)
        · exact (ih later).imp id (List.mem_cons_of_mem _)

variable {entries : List (Key × Value)}

theorem sorted_insertEntry (key : Key) (value : Value)
    (sorted : entries.Pairwise fun left right => left.1 < right.1) :
    (insertEntry key value entries).Pairwise fun left right => left.1 < right.1 := by
  induction entries with
  | nil => exact List.pairwise_singleton ..
  | cons head rest ih =>
      obtain ⟨above, later⟩ := List.pairwise_cons.mp sorted
      unfold insertEntry
      split_ifs with before same
      · refine List.pairwise_cons.mpr ⟨?_, sorted⟩
        intro entry member
        rcases List.mem_cons.mp member with rfl | member
        · exact before
        · exact lt_trans before (above entry member)
      · refine List.pairwise_cons.mpr ⟨?_, later⟩
        intro entry member
        exact same ▸ above entry member
      · refine List.pairwise_cons.mpr ⟨?_, ih later⟩
        intro entry member
        rcases mem_insertEntry member with rfl | member
        · exact lt_of_le_of_ne (not_lt.mp before) (Ne.symm same)
        · exact above entry member

def insert (map : OrderedMap Key Value) (key : Key) (value : Value) : OrderedMap Key Value :=
  ⟨insertEntry key value map.entries, sorted_insertEntry key value map.sorted⟩

/-- An absent key starts from the default value. -/
def modify (map : OrderedMap Key Value) (key : Key) (default : Value) (change : Value → Value) :
    OrderedMap Key Value :=
  map.insert key (change ((map.lookup key).getD default))

def values (map : OrderedMap Key Value) : List Value := map.entries.map Prod.snd

theorem lookup_insertEntry_self (key : Key) (value : Value) (entries : List (Key × Value)) :
    (insertEntry key value entries).lookup key = some value := by
  induction entries with
  | nil => simp [insertEntry]
  | cons head rest ih =>
      unfold insertEntry
      split_ifs with before same
      · simp
      · simp
      · rw [List.lookup_cons, beq_eq_false_iff_ne.mpr same]
        exact ih

theorem lookup_insertEntry_of_ne {key name : Key} (different : name ≠ key) (value : Value)
    (entries : List (Key × Value)) :
    (insertEntry key value entries).lookup name = entries.lookup name := by
  have other : (name == key) = false := beq_eq_false_iff_ne.mpr different
  induction entries with
  | nil => simp [insertEntry, List.lookup_cons, other]
  | cons head rest ih =>
      unfold insertEntry
      split_ifs with before same
      · rw [List.lookup_cons, other]
      · rw [List.lookup_cons, List.lookup_cons, ← same, other]
      · rw [List.lookup_cons, List.lookup_cons, ih]

@[simp] theorem lookup_empty (key : Key) : (empty : OrderedMap Key Value).lookup key = none := rfl

theorem lookup_insert (map : OrderedMap Key Value) (key name : Key) (value : Value) :
    (map.insert key value).lookup name = if name = key then some value else map.lookup name := by
  by_cases same : name = key
  · rw [if_pos same, same]
    exact lookup_insertEntry_self key value map.entries
  · rw [if_neg same]
    exact lookup_insertEntry_of_ne same value map.entries

theorem lookup_modify (map : OrderedMap Key Value) (key name : Key) (default : Value)
    (change : Value → Value) :
    (map.modify key default change).lookup name =
      if name = key then some (change ((map.lookup key).getD default)) else map.lookup name :=
  lookup_insert ..

def keys (map : OrderedMap Key Value) : List Key := map.entries.map Prod.fst

def contains (map : OrderedMap Key Value) (key : Key) : Bool := (map.lookup key).isSome

/-- The kept entries stay in order. -/
def filter (map : OrderedMap Key Value) (test : Key → Value → Bool) : OrderedMap Key Value :=
  ⟨map.entries.filter fun entry => test entry.1 entry.2, map.sorted.filter _⟩

instance [DecidableEq Value] : DecidableEq (OrderedMap Key Value) := fun left right =>
  decidable_of_iff (left.entries = right.entries) (by
    cases left
    cases right
    simp)

/-- A key below the first one is absent. -/
theorem lookup_of_below {key : Key} (below : ∀ entry ∈ entries, key < entry.1) :
    entries.lookup key = none := by
  induction entries with
  | nil => rfl
  | cons head rest ih =>
      have first : (key == head.1) = false :=
        beq_eq_false_iff_ne.mpr (below head (List.mem_cons_self ..)).ne
      rw [List.lookup_cons, first]
      exact ih fun entry member => below entry (List.mem_cons_of_mem _ member)

theorem lookup_filter_entries (sorted : entries.Pairwise fun left right => left.1 < right.1)
    (test : Key → Value → Bool) (key : Key) :
    (entries.filter fun entry => test entry.1 entry.2).lookup key =
      (entries.lookup key).filter (test key) := by
  induction entries with
  | nil => rfl
  | cons head rest ih =>
      obtain ⟨above, later⟩ := List.pairwise_cons.mp sorted
      by_cases same : key = head.1
      · subst same
        have absent : (rest.filter fun entry => test entry.1 entry.2).lookup head.1 = none :=
          lookup_of_below fun entry member => above entry (List.mem_of_mem_filter member)
        rw [List.lookup_cons_self, List.filter_cons, Option.filter_some]
        split_ifs
        · exact List.lookup_cons_self
        · exact absent
      · have other : (key == head.1) = false := beq_eq_false_iff_ne.mpr same
        rw [List.lookup_cons, other, ← ih later, List.filter_cons]
        split_ifs
        · rw [List.lookup_cons, other]
        · rfl

theorem lookup_filter (map : OrderedMap Key Value) (test : Key → Value → Bool) (key : Key) :
    (map.filter test).lookup key = (map.lookup key).filter (test key) :=
  lookup_filter_entries map.sorted test key

def mapValues {Other : Type} (map : OrderedMap Key Value) (change : Value → Other) :
    OrderedMap Key Other :=
  ⟨map.entries.map fun entry => (entry.1, change entry.2), List.pairwise_map.mpr map.sorted⟩

theorem lookup_mapValues {Other : Type} (map : OrderedMap Key Value) (change : Value → Other)
    (key : Key) : (map.mapValues change).lookup key = (map.lookup key).map change := by
  obtain ⟨entries, sorted⟩ := map
  unfold lookup mapValues
  simp only
  clear sorted
  induction entries with
  | nil => rfl
  | cons head rest ih =>
      rw [List.map_cons, List.lookup_cons, List.lookup_cons]
      split
      · rfl
      · exact ih

theorem mem_keys (map : OrderedMap Key Value) (key : Key) :
    key ∈ map.keys ↔ map.contains key = true := by
  unfold keys contains lookup
  rw [← Option.ne_none_iff_isSome, Ne, List.lookup_eq_none_iff]
  simp only [List.mem_map, bne_iff_ne, not_forall, not_not, exists_prop]
  exact ⟨fun ⟨entry, member, same⟩ => ⟨entry, member, same.symm⟩,
    fun ⟨entry, member, same⟩ => ⟨entry, member, same.symm⟩⟩

theorem keys_sorted (map : OrderedMap Key Value) : map.keys.Pairwise (· < ·) :=
  List.pairwise_map.mpr map.sorted

/-- The lookup of a listed entry gives its value. -/
theorem mem_entries_iff (map : OrderedMap Key Value) (key : Key) (value : Value) :
    (key, value) ∈ map.entries ↔ map.lookup key = some value := by
  rcases map with ⟨entries, sorted⟩
  unfold lookup
  induction entries with
  | nil => simp
  | cons head rest ih =>
      obtain ⟨above, later⟩ := List.pairwise_cons.mp sorted
      rw [List.mem_cons, ih later, List.lookup_cons]
      by_cases same : key = head.1
      · have absent : rest.lookup key = none :=
          lookup_of_below fun entry member => same ▸ above entry member
        rw [absent, beq_iff_eq.mpr same]
        constructor
        · rintro (rfl | listed)
          · rfl
          · exact nomatch listed
        · intro first
          exact .inl (Prod.ext same (Option.some.inj first).symm)
      · rw [beq_eq_false_iff_ne.mpr same]
        constructor
        · rintro (rfl | listed)
          · exact absurd rfl same
          · exact listed
        · exact .inr

theorem ext_lookup {map other : OrderedMap Key Value}
    (same : ∀ key, map.lookup key = other.lookup key) : map = other := by
  have members : ∀ entry, entry ∈ map.entries ↔ entry ∈ other.entries := by
    rintro ⟨key, value⟩
    rw [mem_entries_iff, mem_entries_iff, same]
  have nodup (map : OrderedMap Key Value) : map.entries.Nodup :=
    map.sorted.imp fun below same => below.ne (congrArg Prod.fst same)
  have permuted : map.entries.Perm other.entries :=
    (List.perm_ext_iff_of_nodup (nodup map) (nodup other)).mpr members
  have equal : map.entries = other.entries := by
    apply permuted.eq_of_pairwise _ map.sorted other.sorted
    intro left right _ _ below above
    exact absurd (lt_trans below above) (lt_irrefl _)
  cases map
  cases other
  congr

/-- An insertion replaces the weight of the old value by the weight of the new one. -/
theorem sum_insertEntry (weight : Value → Nat) (key : Key) (value : Value)
    (sorted : entries.Pairwise fun left right => left.1 < right.1) :
    ((insertEntry key value entries).map fun entry => weight entry.2).sum +
        ((entries.lookup key).map weight).getD 0 =
      (entries.map fun entry => weight entry.2).sum + weight value := by
  induction entries with
  | nil => simp [insertEntry]
  | cons head rest ih =>
      obtain ⟨above, later⟩ := List.pairwise_cons.mp sorted
      unfold insertEntry
      split_ifs with before same
      · have absent : (head :: rest).lookup key = none := by
          apply lookup_of_below
          intro entry member
          rcases List.mem_cons.mp member with rfl | member
          · exact before
          · exact lt_trans before (above entry member)
        simp only [absent, List.map_cons, List.sum_cons, Option.map_none, Option.getD_none]
        omega
      · rw [List.lookup_cons, same, beq_self_eq_true]
        simp only [List.map_cons, List.sum_cons, Option.map_some, Option.getD_some]
        omega
      · have step := ih later
        rw [List.lookup_cons, beq_eq_false_iff_ne.mpr same]
        simp only [List.map_cons, List.sum_cons]
        omega

def total (map : OrderedMap Key Value) (weight : Value → Nat) : Nat :=
  (map.values.map weight).sum

theorem total_modify (map : OrderedMap Key Value) (weight : Value → Nat) (key : Key)
    (default : Value) (change : Value → Value) (light : weight default = 0) :
    (map.modify key default change).total weight + weight ((map.lookup key).getD default) =
      map.total weight + weight (change ((map.lookup key).getD default)) := by
  have moved := sum_insertEntry weight key (change ((map.lookup key).getD default)) map.sorted
  have old : ((map.lookup key).map weight).getD 0 = weight ((map.lookup key).getD default) := by
    cases map.lookup key with
    | none => exact light.symm
    | some value => rfl
  simp only [total, values, List.map_map]
  rw [← old]
  exact moved

theorem sum_lookup_entries (weight : Value → Nat) (default : Value)
    (sorted : entries.Pairwise fun left right => left.1 < right.1) :
    (entries.map fun entry => weight entry.2).sum =
      ∑ key ∈ (entries.map Prod.fst).toFinset, weight ((entries.lookup key).getD default) := by
  induction entries with
  | nil => rfl
  | cons head rest ih =>
      obtain ⟨above, later⟩ := List.pairwise_cons.mp sorted
      have fresh : head.1 ∉ (rest.map Prod.fst).toFinset := by
        intro member
        obtain ⟨entry, inside, same⟩ := List.mem_map.mp (List.mem_toFinset.mp member)
        exact (above entry inside).ne same.symm
      rw [List.map_cons, List.sum_cons, ih later, List.map_cons, List.toFinset_cons,
        Finset.sum_insert fresh]
      congr 1
      · rw [List.lookup_cons, beq_self_eq_true]
        rfl
      · apply Finset.sum_congr rfl
        intro key member
        have different : key ≠ head.1 := fun same => fresh (same ▸ member)
        rw [List.lookup_cons, beq_eq_false_iff_ne.mpr different]

/-- The weights of the values add up over any set of keys that misses no weight. -/
theorem total_eq_sum (map : OrderedMap Key Value) (weight : Value → Nat) (default : Value)
    (light : weight default = 0) (keys : Finset Key)
    (outside : ∀ key ∉ keys, weight ((map.lookup key).getD default) = 0) :
    map.total weight = ∑ key ∈ keys, weight ((map.lookup key).getD default) := by
  have own := sum_lookup_entries weight default map.sorted
  have unnamed : ∀ key ∉ (map.entries.map Prod.fst).toFinset,
      weight ((map.lookup key).getD default) = 0 := by
    intro key absent
    have none : map.lookup key = none := by
      apply List.lookup_eq_none_iff.mpr
      intro entry member
      rw [bne_iff_ne]
      rintro rfl
      exact absent (List.mem_toFinset.mpr (List.mem_map_of_mem member))
    rw [none, Option.getD_none, light]
  rw [total, values, List.map_map]
  calc _ = _ := own
    _ = _ := Finset.sum_subset (Finset.subset_union_left : _ ⊆ _ ∪ keys)
        fun key _ absent => unnamed key absent
    _ = _ := (Finset.sum_subset Finset.subset_union_right
        fun key _ absent => outside key absent).symm

end OrderedMap

/-- A set is a map without values. -/
abbrev OrderedSet (Key : Type) [LinearOrder Key] := OrderedMap Key Unit

namespace OrderedSet

variable {Key : Type} [LinearOrder Key]

def add (set : OrderedSet Key) (key : Key) : OrderedSet Key := OrderedMap.insert set key ()

def addAll (set : OrderedSet Key) (keys : List Key) : OrderedSet Key := keys.foldl add set

theorem mem_keys_add (set : OrderedSet Key) (added key : Key) :
    key ∈ OrderedMap.keys (set.add added) ↔ key = added ∨ key ∈ OrderedMap.keys set := by
  rw [OrderedMap.mem_keys, OrderedMap.mem_keys, OrderedMap.contains, OrderedMap.contains, add,
    OrderedMap.lookup_insert]
  by_cases same : key = added
  · simp [same]
  · simp [same]

theorem mem_keys_addAll (set : OrderedSet Key) (keys : List Key) (key : Key) :
    key ∈ OrderedMap.keys (set.addAll keys) ↔ key ∈ keys ∨ key ∈ OrderedMap.keys set := by
  unfold addAll
  induction keys generalizing set with
  | nil => simp
  | cons added rest ih =>
      rw [List.foldl_cons, ih, mem_keys_add, List.mem_cons]
      tauto

end OrderedSet

namespace Pairs

variable {Item Key : Type} [LinearOrder Key]

/-- Each item is paired with itself and with every later one. -/
def unorderedPairs (related : Item → Item → Bool) : List Item → Nat
  | [] => 0
  | item :: rest => (item :: rest).countP (related item) + unorderedPairs related rest

/-- Each item is paired with every later one. -/
def strictPairs (related : Item → Item → Bool) : List Item → Nat
  | [] => 0
  | item :: rest => rest.countP (related item) + strictPairs related rest

theorem unorderedPairs_eq (related : Item → Item → Bool) (items : List Item) :
    unorderedPairs related items =
      (items.countP fun item => related item item) + strictPairs related items := by
  induction items with
  | nil => rfl
  | cons item rest ih =>
      rw [unorderedPairs, strictPairs, ih, List.countP_cons, List.countP_cons]
      omega

theorem strictPairs_append_singleton (related : Item → Item → Bool) (items : List Item)
    (last : Item) :
    strictPairs related (items ++ [last]) =
      strictPairs related items + items.countP fun item => related item last := by
  induction items with
  | nil => rfl
  | cons item rest ih =>
      rw [List.cons_append, strictPairs, strictPairs, ih, List.countP_append]
      simp only [List.countP_cons, List.countP_nil]
      omega

theorem strictPairs_filter (related : Item → Item → Bool) (kept : Item → Bool)
    (items : List Item) :
    strictPairs related (items.filter kept) =
      strictPairs (fun left right => kept left && kept right && related left right) items := by
  induction items with
  | nil => rfl
  | cons item rest ih =>
      rw [strictPairs]
      cases chosen : kept item with
      | true =>
          rw [List.filter_cons_of_pos chosen, strictPairs, ih, List.countP_filter]
          simp only [Bool.true_and, Bool.and_comm]
      | false =>
          rw [List.filter_cons_of_neg (by simp [chosen]), ih]
          simp

theorem strictPairs_congr {related other : Item → Item → Bool} {items : List Item}
    (same : ∀ left ∈ items, ∀ right ∈ items, related left right = other left right) :
    strictPairs related items = strictPairs other items := by
  induction items with
  | nil => rfl
  | cons item rest ih =>
      rw [strictPairs, strictPairs, List.countP_congr fun right member => by
          rw [same item (List.mem_cons_self ..) right (List.mem_cons_of_mem _ member)],
        ih fun left first right second => same left (List.mem_cons_of_mem _ first) right
          (List.mem_cons_of_mem _ second)]

/-- A narrower test counts as many items exactly where no item separates the tests. -/
theorem countP_eq_iff {narrow wide : Item → Bool} {items : List Item}
    (within : ∀ item ∈ items, narrow item = true → wide item = true) :
    items.countP narrow = items.countP wide ↔
      ∀ item ∈ items, wide item = true → narrow item = true := by
  induction items with
  | nil => simp
  | cons item rest ih =>
      have later := ih fun other member => within other (List.mem_cons_of_mem _ member)
      have fewer : rest.countP narrow ≤ rest.countP wide :=
        List.countP_mono_left fun other member => within other (List.mem_cons_of_mem _ member)
      rw [List.countP_cons, List.countP_cons, List.forall_mem_cons, ← later]
      cases first : narrow item with
      | true =>
          rw [within item (List.mem_cons_self ..) first]
          simp
      | false =>
          cases wide item with
          | true =>
              simp
              omega
          | false => simp

/-- The items are collected under their keys, in their order. -/
def group (key : Item → Key) : List Item → OrderedMap Key (List Item) →
    OrderedMap Key (List Item)
  | [], groups => groups
  | item :: rest, groups => group key rest (groups.modify (key item) [] (· ++ [item]))

/-- The groups hold the items with their key, and their pairs are the pairs with one key. -/
structure Grouped (related : Item → Item → Bool) (key : Item → Key) (items : List Item)
    (groups : OrderedMap Key (List Item)) : Prop where
  members : ∀ name, (groups.lookup name).getD [] = items.filter fun item => key item = name
  pairs : groups.total (strictPairs related) =
    strictPairs (fun left right => key left = key right && related left right) items

theorem grouped_empty (related : Item → Item → Bool) (key : Item → Key) :
    Grouped related key [] OrderedMap.empty := ⟨fun _ => rfl, rfl⟩

theorem Grouped.push {related : Item → Item → Bool} {key : Item → Key} {items : List Item}
    {groups : OrderedMap Key (List Item)} (grouped : Grouped related key items groups)
    (item : Item) :
    Grouped related key (items ++ [item]) (groups.modify (key item) [] (· ++ [item])) where
  members := by
    intro name
    rw [OrderedMap.lookup_modify, List.filter_append]
    by_cases same : name = key item
    · rw [if_pos same, Option.getD_some, grouped.members, same]
      simp
    · rw [if_neg same, grouped.members]
      simp [Ne.symm same]
  pairs := by
    have moved := groups.total_modify (strictPairs related) (key item) [] (· ++ [item]) rfl
    rw [strictPairs_append_singleton, grouped.members, grouped.pairs, List.countP_filter] at moved
    rw [strictPairs_append_singleton]
    simp only [Bool.and_comm] at moved ⊢
    omega

theorem Grouped.group {related : Item → Item → Bool} {key : Item → Key} {before : List Item}
    (items : List Item) {groups : OrderedMap Key (List Item)}
    (grouped : Grouped related key before groups) :
    Grouped related key (before ++ items) (Pairs.group key items groups) := by
  induction items generalizing before groups with
  | nil =>
      rw [List.append_nil]
      exact grouped
  | cons item rest ih =>
      rw [← List.singleton_append, ← List.append_assoc]
      exact ih (grouped.push item)

end Pairs
