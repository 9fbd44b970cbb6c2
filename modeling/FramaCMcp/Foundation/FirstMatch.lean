/-
This file compares the first matches of a strict test and of a lax test.
-/

import Mathlib.Data.List.Basic

namespace FirstMatch

variable {Element Scope : Type} {strict lax : Element → Bool} {elements : List Element}
  {element : Element}

/-- The first match of the lax test is the first one of the strict test where it meets it. -/
theorem find?_of_lax (laxer : ∀ element ∈ elements, strict element = true → lax element = true)
    (found : elements.find? lax = some element) (meets : strict element = true) :
    elements.find? strict = some element := by
  obtain ⟨_, before, after, rfl, fresh⟩ := List.find?_eq_some_iff_append.mp found
  refine List.find?_eq_some_iff_append.mpr ⟨meets, before, after, rfl, fun earlier member => ?_⟩
  have skipped := fresh earlier member
  rw [Bool.not_eq_true'] at skipped ⊢
  refine Bool.eq_false_iff.mpr fun kept => ?_
  rw [laxer earlier (List.mem_append_left _ member) kept] at skipped
  cases skipped

theorem find?_none_of_lax
    (laxer : ∀ element ∈ elements, strict element = true → lax element = true)
    (none_found : elements.find? lax = none) : elements.find? strict = none := by
  rw [List.find?_eq_none] at none_found ⊢
  exact fun element member meets => none_found element member (laxer element member meets)

/-- The preferred test wins over the other one. -/
def pick (preferred other : Element → Bool) (elements : List Element) : Option Element :=
  (elements.find? preferred).or (elements.find? other)

theorem mem_of_pick {preferred other : Element → Bool}
    (found : pick preferred other elements = some element) :
    element ∈ elements ∧ (preferred element = true ∨ other element = true) := by
  rcases Option.or_eq_some_iff.mp found with first | ⟨_, second⟩
  · exact ⟨List.mem_of_find?_eq_some first, .inl (List.find?_some first)⟩
  · exact ⟨List.mem_of_find?_eq_some second, .inr (List.find?_some second)⟩

section Narrowing

variable {visible wide : Element → Bool} (wider : ∀ element ∈ elements, visible element = true →
  wide element = true) {preferred other : Element → Bool}

include wider

theorem and_of_wider (test : Element → Bool) (element : Element) (member : element ∈ elements)
    (meets : (test element && visible element) = true) :
    (test element && wide element) = true := by
  rw [Bool.and_eq_true] at meets ⊢
  exact ⟨meets.1, wider element member meets.2⟩

theorem pick_none_of_wider
    (none_found : pick (fun element => preferred element && wide element)
      (fun element => other element && wide element) elements = none) :
    pick (fun element => preferred element && visible element)
      (fun element => other element && visible element) elements = none := by
  obtain ⟨first, second⟩ := Option.or_eq_none_iff.mp none_found
  rw [pick, find?_none_of_lax (and_of_wider wider preferred) first,
    find?_none_of_lax (and_of_wider wider other) second, Option.or_none]

/-- What is picked among more elements is picked where it is visible. -/
theorem pick_of_wider (found : pick (fun element => preferred element && wide element)
      (fun element => other element && wide element) elements = some element)
    (seen : visible element = true) :
    pick (fun element => preferred element && visible element)
      (fun element => other element && visible element) elements = some element := by
  rcases Option.or_eq_some_iff.mp found with first | ⟨absent, second⟩
  · have meets := List.find?_some first
    have kept : (preferred element && visible element) = true :=
      Bool.and_eq_true_iff.mpr ⟨(Bool.and_eq_true_iff.mp meets).1, seen⟩
    rw [pick, find?_of_lax (and_of_wider wider preferred) first kept, Option.some_or]
  · have meets := List.find?_some second
    have kept : (other element && visible element) = true :=
      Bool.and_eq_true_iff.mpr ⟨(Bool.and_eq_true_iff.mp meets).1, seen⟩
    rw [pick, find?_none_of_lax (and_of_wider wider preferred) absent,
      find?_of_lax (and_of_wider wider other) second kept, Option.none_or]

end Narrowing

section Scopes

variable {strictAt laxAt : Scope → Option Element} {scopes : List Scope}

theorem findSome?_none_of_lax
    (laxer : ∀ scope ∈ scopes, laxAt scope = none → strictAt scope = none)
    (none_found : scopes.findSome? laxAt = none) : scopes.findSome? strictAt = none := by
  rw [List.findSome?_eq_none_iff] at none_found ⊢
  exact fun scope member => laxer scope member (none_found scope member)

/-- The innermost scope that gives an element gives it to the strict test too. -/
theorem findSome?_of_lax
    (laxer : ∀ scope ∈ scopes, laxAt scope = none → strictAt scope = none)
    (found : scopes.findSome? laxAt = some element)
    (given : ∀ scope ∈ scopes, laxAt scope = some element → strictAt scope = some element) :
    scopes.findSome? strictAt = some element := by
  obtain ⟨before, scope, after, rfl, own, fresh⟩ := List.findSome?_eq_some_iff.mp found
  refine List.findSome?_eq_some_iff.mpr ⟨before, scope, after, rfl,
    given scope (List.mem_append_right _ List.mem_cons_self) own, fun earlier member => ?_⟩
  exact laxer earlier (List.mem_append_left _ member) (fresh earlier member)

end Scopes

end FirstMatch
