/-
This file gives the stable sort by a key and the choice of one row of largest weight for each key,
and shows when their results do not depend on the order.
-/

import Mathlib.Data.List.Sort
import Mathlib.Data.List.Nodup
import Mathlib.Data.Set.Insert

namespace StableSort

/-- Rows with one key keep their order. -/
def sortByKey {Row Key : Type} [LinearOrder Key] (key : Row → Key) (rows : List Row) : List Row :=
  rows.insertionSort fun left right => key left ≤ key right

variable {Row Key : Type}

theorem total_key [LinearOrder Key] (key : Row → Key) :
    Std.Total fun left right : Row => key left ≤ key right :=
  ⟨fun left right => le_total (key left) (key right)⟩

theorem trans_key [LinearOrder Key] (key : Row → Key) :
    IsTrans Row fun left right => key left ≤ key right :=
  ⟨fun _ _ _ first second => le_trans first second⟩

theorem sortByKey_perm [LinearOrder Key] (key : Row → Key) (rows : List Row) :
    (sortByKey key rows).Perm rows := List.perm_insertionSort _ rows

theorem sortByKey_eq_nil_iff [LinearOrder Key] (key : Row → Key) (rows : List Row) :
    sortByKey key rows = [] ↔ rows = [] := by
  rw [← List.length_eq_zero_iff, (sortByKey_perm key rows).length_eq, List.length_eq_zero_iff]

theorem sortByKey_sorted [LinearOrder Key] (key : Row → Key) (rows : List Row) :
    (sortByKey key rows).Pairwise fun left right => key left ≤ key right := by
  have total := total_key key
  have trans := trans_key key
  exact List.pairwise_insertionSort _ rows

/-- Rows in order stay as they are. -/
theorem sortByKey_eq_self [LinearOrder Key] (key : Row → Key) {rows : List Row}
    (sorted : rows.Pairwise fun left right => key left ≤ key right) : sortByKey key rows = rows :=
  sorted.insertionSort_eq

/-- The rows that stand in order already keep their places among themselves. -/
theorem filter_sortByKey_of_sorted [LinearOrder Key] (key : Row → Key) (rows : List Row)
    (test : Row → Bool) (tied : (rows.filter test).Pairwise fun left right => key left ≤ key right) :
    (sortByKey key rows).filter test = rows.filter test := by
  have total := total_key key
  have trans := trans_key key
  have kept : (rows.filter test).Sublist (sortByKey key rows) :=
    List.sublist_insertionSort tied List.filter_sublist
  have inner := kept.filter test
  rw [List.filter_filter] at inner
  simp only [Bool.and_self] at inner
  have length := ((sortByKey_perm key rows).filter test).length_eq
  exact (inner.eq_of_length length.symm).symm

/-- The rows of one key are the same before and after the sort. -/
theorem filter_sortByKey [LinearOrder Key] (key : Row → Key) (rows : List Row) (value : Key) :
    (sortByKey key rows).filter (fun row => key row = value) =
      rows.filter fun row => key row = value := by
  apply filter_sortByKey_of_sorted
  apply List.Pairwise.imp_of_mem _ (List.pairwise_of_forall fun _ _ => trivial)
  intro left right leftMember rightMember _
  have leftKey := (List.mem_filter.mp leftMember).2
  have rightKey := (List.mem_filter.mp rightMember).2
  simp only [decide_eq_true_eq] at leftKey rightKey
  rw [leftKey, rightKey]

theorem sortByKey_eq_of_perm [LinearOrder Key] (key : Row → Key) (rows other : List Row)
    (separates : ∀ left ∈ rows, ∀ right ∈ rows,
      key left = key right → left = right) (same : other.Perm rows) :
    sortByKey key other = sortByKey key rows := by
  have permuted : (sortByKey key other).Perm (sortByKey key rows) :=
    (sortByKey_perm key other).trans (same.trans (sortByKey_perm key rows).symm)
  apply permuted.eq_of_pairwise _ (sortByKey_sorted key other) (sortByKey_sorted key rows)
  intro left right leftMember rightMember below above
  have leftRow := same.mem_iff.mp ((sortByKey_perm key other).mem_iff.mp leftMember)
  have rightRow := (sortByKey_perm key rows).mem_iff.mp rightMember
  exact separates left leftRow right rightRow (le_antisymm below above)

/-- Two lists of keys have one sorted form where they hold the same keys as often. -/
theorem sortByKey_id_eq_iff {Key : Type} [LinearOrder Key] (keys other : List Key) :
    sortByKey id other = sortByKey id keys ↔ other.Perm keys := by
  constructor
  · intro same
    exact (sortByKey_perm id other).symm.trans (same ▸ sortByKey_perm id keys)
  · exact sortByKey_eq_of_perm id keys other fun _ _ _ _ same => same

/-- Two listed values stand in front of some rearrangement. -/
theorem exists_perm_cons_cons {Value : Type} (values : List Value) (first second : Value)
    (firstMember : first ∈ values) (secondMember : second ∈ values) (different : first ≠ second) :
    ∃ rest, (first :: second :: rest).Perm values := by
  obtain ⟨before, after, rfl⟩ := List.append_of_mem firstMember
  have inRest : second ∈ before ++ after := by
    rcases List.mem_append.mp secondMember with inBefore | inAfter
    · exact List.mem_append_left after inBefore
    · rcases List.mem_cons.mp inAfter with same | inAfter
      · exact absurd same.symm different
      · exact List.mem_append_right before inAfter
  obtain ⟨left, right, split⟩ := List.append_of_mem inRest
  refine ⟨left ++ right, ?_⟩
  have moved : (second :: (left ++ right)).Perm (before ++ after) := by
    rw [split]
    exact List.perm_middle.symm
  exact (moved.cons first).trans List.perm_middle.symm

theorem sortByKey_map_canonical_iff {Value Row Key : Type} [LinearOrder Key] (key : Row → Key)
    (project : Value → Row) (values : List Value) :
    (∀ other : List Value, other.Perm values →
        sortByKey key (other.map project) = sortByKey key (values.map project)) ↔
      ∀ left ∈ values, ∀ right ∈ values, key (project left) = key (project right) →
        project left = project right := by
  constructor
  · intro canonical left leftMember right rightMember tied
    by_cases same : left = right
    · rw [same]
    obtain ⟨rest, forward⟩ := exists_perm_cons_cons values left right leftMember rightMember same
    have backward := (List.Perm.swap left right rest).trans forward
    have sorted := (canonical _ forward).trans (canonical _ backward).symm
    have kept := congrArg (List.filter fun row => key row = key (project left)) sorted
    rw [filter_sortByKey, filter_sortByKey] at kept
    simp only [List.map_cons, List.filter_cons, tied, decide_true, if_true] at kept
    exact (List.cons.inj kept).1
  · intro separates other same
    apply sortByKey_eq_of_perm key _ _ _ (same.map project)
    intro left leftMember right rightMember tied
    obtain ⟨first, firstMember, rfl⟩ := List.mem_map.mp leftMember
    obtain ⟨second, secondMember, rfl⟩ := List.mem_map.mp rightMember
    exact separates first firstMember second secondMember tied

end StableSort

namespace LargestRows

variable {Row Key Weight : Type} [LinearOrder Weight] (key : Row → Key) (weight : Row → Weight)

/-- A heavier row takes the place of the row with its key. A row with a new key comes last. -/
def place [DecidableEq Key] (row : Row) : List Row → List Row
  | [] => [row]
  | kept :: rest =>
      if key kept = key row then (if weight kept < weight row then row else kept) :: rest
      else kept :: place row rest

/-- The kept rows are among the given ones, and each given row has a row as heavy with its key. -/
structure Chooses (rows : Set Row) (kept : List Row) : Prop where
  distinct : (kept.map key).Nodup
  given : ∀ row ∈ kept, row ∈ rows
  covers : ∀ row ∈ rows, ∃ best ∈ kept, key best = key row ∧ weight row ≤ weight best

/-- No row with the same key is heavier. -/
def Largest (rows : Set Row) (row : Row) : Prop :=
  ∀ other ∈ rows, key other = key row → weight other ≤ weight row

/-- The largest rows of one key are one row. -/
def Settled (rows : Set Row) : Prop :=
  ∀ left ∈ rows, ∀ right ∈ rows, key left = key right → Largest key weight rows left →
    Largest key weight rows right → left = right

section Place

variable [DecidableEq Key] {key weight} {row other : Row} {kept : List Row}

theorem mem_of_mem_place (member : other ∈ place key weight row kept) :
    other = row ∨ other ∈ kept := by
  induction kept with
  | nil => exact Or.inl (List.mem_singleton.mp member)
  | cons head rest ih =>
      rw [place] at member
      split_ifs at member with same heavier
      · exact (List.mem_cons.mp member).imp id (List.mem_cons_of_mem _)
      · exact Or.inr member
      · rcases List.mem_cons.mp member with rfl | later
        · exact Or.inr (List.mem_cons_self)
        · exact (ih later).imp id (List.mem_cons_of_mem _)

theorem map_key_place (present : key row ∈ kept.map key) :
    (place key weight row kept).map key = kept.map key := by
  induction kept with
  | nil => cases present
  | cons head rest ih =>
      rw [place]
      split_ifs with same heavier
      · rw [List.map_cons, List.map_cons, same]
      · rfl
      · have later := (List.mem_cons.mp present).resolve_left (Ne.symm same)
        rw [List.map_cons, List.map_cons, ih later]

theorem place_of_absent (absent : key row ∉ kept.map key) :
    place key weight row kept = kept ++ [row] := by
  induction kept with
  | nil => rfl
  | cons head rest ih =>
      rw [List.map_cons, List.mem_cons, not_or] at absent
      rw [place, if_neg (Ne.symm absent.1), ih absent.2, List.cons_append]

theorem nodup_place (distinct : (kept.map key).Nodup) :
    ((place key weight row kept).map key).Nodup := by
  by_cases present : key row ∈ kept.map key
  · rwa [map_key_place present]
  · rw [place_of_absent present, List.map_append, List.map_singleton]
    exact List.nodup_append.mpr ⟨distinct, List.nodup_singleton _, fun name member other last => by
      rw [List.mem_singleton.mp last]
      exact fun same => present (same ▸ member)⟩

theorem covers_place (listed : other = row ∨ other ∈ kept) :
    ∃ best ∈ place key weight row kept, key best = key other ∧ weight other ≤ weight best := by
  induction kept with
  | nil =>
      rcases listed with rfl | member
      · exact ⟨other, List.mem_singleton_self _, rfl, le_rfl⟩
      · cases member
  | cons head rest ih =>
      rw [place]
      split_ifs with same heavier
      · rcases listed with rfl | member
        · exact ⟨other, List.mem_cons_self, rfl, le_rfl⟩
        rcases List.mem_cons.mp member with rfl | later
        · exact ⟨row, List.mem_cons_self, same.symm, heavier.le⟩
        · exact ⟨other, List.mem_cons_of_mem _ later, rfl, le_rfl⟩
      · rcases listed with rfl | member
        · exact ⟨head, List.mem_cons_self, same, not_lt.mp heavier⟩
        · exact ⟨other, member, rfl, le_rfl⟩
      · have later (found : other = row ∨ other ∈ rest) : ∃ best ∈ head :: place key weight row rest,
            key best = key other ∧ weight other ≤ weight best := by
          obtain ⟨best, member, named, heavy⟩ := ih found
          exact ⟨best, List.mem_cons_of_mem head member, named, heavy⟩
        rcases listed with rfl | member
        · exact later (Or.inl rfl)
        rcases List.mem_cons.mp member with rfl | member
        · exact ⟨other, List.mem_cons_self, rfl, le_rfl⟩
        · exact later (Or.inr member)

/-- A row that is not heavier than the one with its key changes nothing. -/
theorem place_eq_self (distinct : (kept.map key).Nodup)
    (covered : ∃ best ∈ kept, key best = key row ∧ weight row ≤ weight best) :
    place key weight row kept = kept := by
  induction kept with
  | nil =>
      obtain ⟨best, member, -⟩ := covered
      cases member
  | cons head rest ih =>
      obtain ⟨best, member, named, heavy⟩ := covered
      rw [List.map_cons, List.nodup_cons] at distinct
      rw [place]
      split_ifs with same heavier
      · rcases List.mem_cons.mp member with rfl | later
        · exact absurd heavier (not_lt.mpr heavy)
        · exact absurd (same.trans named.symm ▸ List.mem_map_of_mem later) distinct.1
      · rfl
      · rcases List.mem_cons.mp member with rfl | later
        · exact absurd named same
        · rw [ih distinct.2 ⟨best, later, named, heavy⟩]

end Place

namespace Chooses

variable {key weight} {rows : Set Row} {kept other new : List Row} {row : Row}

theorem nil : Chooses key weight ∅ [] :=
  ⟨List.nodup_nil, fun _ member => absurd member List.not_mem_nil, fun _ member => member.elim⟩

theorem of_perm (chooses : Chooses key weight rows kept) (same : other.Perm kept) :
    Chooses key weight rows other :=
  ⟨(same.map key).nodup_iff.mpr chooses.distinct,
    fun row member => chooses.given row (same.mem_iff.mp member), fun row member => by
      obtain ⟨best, held, named⟩ := chooses.covers row member
      exact ⟨best, same.mem_iff.mpr held, named⟩⟩

theorem largest (chooses : Chooses key weight rows kept) (member : row ∈ kept) :
    Largest key weight rows row := by
  intro other given same
  obtain ⟨best, held, named, heavy⟩ := chooses.covers other given
  rwa [List.inj_on_of_nodup_map chooses.distinct held member (named.trans same)] at heavy

/-- Where the largest rows are settled, two choices keep the same rows. -/
theorem perm_of_settled (chooses : Chooses key weight rows kept)
    (others : Chooses key weight rows other) (settled : Settled key weight rows) :
    other.Perm kept := by
  have inside {left right : List Row} (first : Chooses key weight rows left)
      (second : Chooses key weight rows right) : ∀ row ∈ left, row ∈ right := by
    intro row member
    obtain ⟨best, held, named, -⟩ := second.covers row (first.given row member)
    rwa [settled row (first.given row member) best (second.given best held) named.symm
      (first.largest member) (second.largest held)]
  exact (List.perm_ext_iff_of_nodup (List.Nodup.of_map key others.distinct)
    (List.Nodup.of_map key chooses.distinct)).mpr fun row =>
      ⟨inside others chooses row, inside chooses others row⟩

variable [DecidableEq Key]

theorem place (chooses : Chooses key weight rows kept) (row : Row) :
    Chooses key weight (insert row rows) (LargestRows.place key weight row kept) := by
  refine ⟨nodup_place chooses.distinct, fun found member => ?_, fun found member => ?_⟩
  · exact (mem_of_mem_place member).imp id (chooses.given found)
  · rcases member with rfl | member
    · exact covers_place (Or.inl rfl)
    · obtain ⟨best, held, named, heavy⟩ := chooses.covers found member
      have placed : ∃ better ∈ LargestRows.place key weight row kept,
          key better = key best ∧ weight best ≤ weight better := covers_place (Or.inr held)
      obtain ⟨better, last, same, heavier⟩ := placed
      exact ⟨better, last, same.trans named, heavy.trans heavier⟩

theorem placeAll (chooses : Chooses key weight rows kept) (new : List Row) :
    Chooses key weight (rows ∪ Set.ofPred (· ∈ new))
      (new.foldl (fun kept row => LargestRows.place key weight row kept) kept) := by
  induction new generalizing rows kept with
  | nil => simpa using chooses
  | cons row rest ih =>
      have placed := ih (chooses.place row)
      have same : insert row rows ∪ Set.ofPred (· ∈ rest) = rows ∪ Set.ofPred (· ∈ row :: rest) := by
        ext found
        simp only [Set.mem_union, Set.mem_insert_iff, Set.mem_ofPred_eq, List.mem_cons]
        tauto
      rwa [same] at placed

theorem placeAll_eq_self (chooses : Chooses key weight rows kept) (known : ∀ row ∈ new, row ∈ rows) :
    new.foldl (fun kept row => LargestRows.place key weight row kept) kept = kept := by
  induction new with
  | nil => rfl
  | cons row rest ih =>
      obtain ⟨here, later⟩ := List.forall_mem_cons.mp known
      rw [List.foldl_cons, place_eq_self chooses.distinct (chooses.covers row here)]
      exact ih later

end Chooses

end LargestRows
