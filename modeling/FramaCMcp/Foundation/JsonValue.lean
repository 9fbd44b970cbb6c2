/-
This file gives the JSON values that a program can hold and the removal of a field by a swap.
-/

import Mathlib.Data.List.Induction
import FramaCMcp.Foundation.JsonUnique

namespace Json

section Induction

variable {motive : Json → Prop} (null : motive .null) (bool : ∀ flag, motive (.bool flag))
  (num : ∀ value, motive (.num value)) (float : ∀ text, motive (.float text))
  (str : ∀ text, motive (.str text))
  (arr : ∀ items, (∀ item ∈ items, motive item) → motive (.arr items))
  (obj : ∀ fields : List (String × Json), (∀ field ∈ fields, motive field.2) → motive (.obj fields))

include null bool num float str arr obj

/-- A property of all parts holds for the value. -/
@[elab_as_elim]
theorem nestedInduction (value : Json) : motive value := by
  cases value with
  | null => exact null
  | bool flag => exact bool flag
  | num value => exact num value
  | float text => exact float text
  | str text => exact str text
  | arr items => exact arr items fun item member => nestedInduction item
  | obj fields => exact obj fields fun field member => nestedInduction field.2
termination_by value
decreasing_by
  · have smaller := List.sizeOf_lt_of_mem member
    rw [Json.arr.sizeOf_spec]
    omega
  · have smaller := List.sizeOf_lt_of_mem member
    have part : sizeOf field = 1 + sizeOf field.1 + sizeOf field.2 := rfl
    rw [Json.obj.sizeOf_spec]
    omega

end Induction

def keysNodup (fields : List (String × Json)) : Bool := decide (fields.map Prod.fst).Nodup

mutual

/-- No object of the value has two fields with one key. -/
def isDistinct : Json → Bool
  | .arr items => itemsDistinct items
  | .obj fields => keysNodup fields && fieldsDistinct fields
  | _ => true

def itemsDistinct : List Json → Bool
  | [] => true
  | item :: rest => isDistinct item && itemsDistinct rest

def fieldsDistinct : List (String × Json) → Bool
  | [] => true
  | (_, value) :: rest => isDistinct value && fieldsDistinct rest

end

theorem itemsDistinct_iff (items : List Json) :
    itemsDistinct items = true ↔ ∀ item ∈ items, item.isDistinct = true := by
  induction items with
  | nil => simp [itemsDistinct]
  | cons item rest ih => rw [itemsDistinct, Bool.and_eq_true, ih, List.forall_mem_cons]

theorem fieldsDistinct_iff (fields : List (String × Json)) :
    fieldsDistinct fields = true ↔ ∀ field ∈ fields, field.2.isDistinct = true := by
  induction fields with
  | nil => simp [fieldsDistinct]
  | cons field rest ih => rw [fieldsDistinct, Bool.and_eq_true, ih, List.forall_mem_cons]

theorem itemsSpelled_iff (items : List Json) :
    itemsSpelled items = true ↔ ∀ item ∈ items, item.isSpelled = true := by
  induction items with
  | nil => simp [itemsSpelled]
  | cons item rest ih => rw [itemsSpelled, Bool.and_eq_true, ih, List.forall_mem_cons]

theorem fieldsSpelled_iff (fields : List (String × Json)) :
    fieldsSpelled fields = true ↔ ∀ field ∈ fields, field.2.isSpelled = true := by
  induction fields with
  | nil => simp [fieldsSpelled]
  | cons field rest ih => rw [fieldsSpelled, Bool.and_eq_true, ih, List.forall_mem_cons]

section SwapRemove

variable {Value : Type} (key : String)

/-- The last field takes the place of the removed one. -/
def swapRemove : List (String × Value) → List (String × Value)
  | [] => []
  | field :: rest =>
      if field.1 = key then rest.getLast?.toList ++ rest.dropLast
      else field :: swapRemove rest

theorem swapRemove_of_absent {fields : List (String × Value)}
    (absent : ∀ field ∈ fields, field.1 ≠ key) : swapRemove key fields = fields := by
  induction fields with
  | nil => rfl
  | cons field rest ih =>
      obtain ⟨other, later⟩ := List.forall_mem_cons.mp absent
      rw [swapRemove, if_neg other, ih later]

theorem rotate_perm (fields : List (String × Value)) :
    (fields.getLast?.toList ++ fields.dropLast).Perm fields := by
  induction fields using List.reverseRecOn with
  | nil => exact .refl _
  | append_singleton fields last _ =>
      rw [List.getLast?_concat, List.dropLast_concat]
      exact List.perm_append_comm

/-- The removal keeps the other fields in some order. -/
theorem swapRemove_perm {fields : List (String × Value)}
    (distinct : (fields.map Prod.fst).Nodup) :
    (swapRemove key fields).Perm (fields.filter fun field => field.1 ≠ key) := by
  induction fields with
  | nil => exact .refl _
  | cons field rest ih =>
      obtain ⟨fresh, later⟩ := List.nodup_cons.mp distinct
      rw [swapRemove]
      by_cases own : field.1 = key
      · have others : rest.filter (fun other => other.1 ≠ key) = rest := by
          apply List.filter_eq_self.mpr
          intro other member
          rw [← own]
          exact decide_eq_true fun same => fresh (List.mem_map.mpr ⟨other, member, same⟩)
        rw [if_pos own, List.filter_cons_of_neg (by simp [own]), others]
        exact rotate_perm rest
      · rw [if_neg own, List.filter_cons_of_pos (by simp [own])]
        exact (ih later).cons field

end SwapRemove

end Json

/-- A parsed or built value has distinct keys and printable numbers. -/
structure JsonValue where
  json : Json
  spelled : json.isSpelled = true
  distinct : json.isDistinct = true

