/-
This file shows which loop annotations of a sandbox reach their loops of the main function.
-/

import FramaCMcp.Construction.Clauses
import Mathlib.Data.List.Nodup

namespace FramaCMcp.Annotations

/-- The loop of the main function at the place of a sandbox loop is its counterpart. -/
def counterpart (main sandbox : List Int) (sid : Int) : Option Int := main[sandbox.idxOf sid]?

/-- Each annotation names the counterpart of the loop that it was written for. -/
def ReachesItsLoop (main sandbox : List Int) (written mapped : List Json) : Prop :=
  mapped.map stmtId = written.map fun annot =>
    (stmtId annot).bind (counterpart main sandbox)

/-- Ids that all occur in the main function stand at the same places in both functions, and other
ones are either refused by their number or name the sandbox loops in their order. -/
def PlacesAgree (main sandbox ids : List Int) : Prop :=
  (ids ⊆ main → ∀ sid ∈ ids, main.idxOf sid = sandbox.idxOf sid) ∧
    (¬ ids ⊆ main → ids.length = main.length → ids = sandbox)

instance (main sandbox ids : List Int) : Decidable (PlacesAgree main sandbox ids) :=
  inferInstanceAs (Decidable (_ ∧ _))

section Collected

theorem mem_childSids {children : List (String × List Int)} {sid : Int}
    (member : sid ∈ childSids children) : ∃ child ∈ children, sid ∈ child.2 := by
  unfold childSids at member
  split_ifs at member
  · rcases List.mem_append.mp member with ordered | later
    · obtain ⟨key, -, inside⟩ := List.mem_flatMap.mp ordered
      cases found : children.lookup key with
      | none => simp [found] at inside
      | some sids =>
          rw [found, Option.getD_some] at inside
          obtain ⟨before, after, rfl, -⟩ := List.lookup_eq_some_iff.mp found
          exact ⟨(key, sids), List.mem_append_right _ List.mem_cons_self, inside⟩
    · obtain ⟨child, kept, inside⟩ := List.mem_flatMap.mp later
      exact ⟨child, List.mem_of_mem_filter kept, inside⟩
  · obtain ⟨child, kept, inside⟩ := List.mem_flatMap.mp member
    exact ⟨child, kept, inside⟩

theorem asI64_eq_some {value : Json} {sid : Int} (found : Json.asI64 value = some sid) :
    Json.asI64 (.num sid) = some sid := by
  cases value with
  | num number =>
      rw [Json.asI64] at found
      split_ifs at found with range
      obtain rfl := Option.some.inj found
      rw [Json.asI64, if_pos range]
  | _ => cases found

theorem asI64_ownLoopSid {fields : List (String × Json)} {sid : Int}
    (member : sid ∈ ownLoopSid fields) : Json.asI64 (.num sid) = some sid := by
  unfold ownLoopSid at member
  split_ifs at member
  · obtain ⟨value, -, read⟩ := Option.bind_eq_some_iff.mp (Option.mem_toList.mp member)
    exact asI64_eq_some read
  · cases member

mutual

/-- A collected id is a number of the signed range. -/
theorem asI64_of_collected : ∀ (node : Json) (sid : Int), sid ∈ collectLoopSids node →
    Json.asI64 (.num sid) = some sid
  | .obj fields, sid, member => by
      rcases List.mem_append.mp member with own | inner
      · exact asI64_ownLoopSid own
      · obtain ⟨child, listed, inside⟩ := mem_childSids inner
        exact asI64_of_fields fields child listed sid inside
  | .arr items, sid, member => asI64_of_items items sid member
  | .null, _, member => by cases member
  | .bool _, _, member => by cases member
  | .num _, _, member => by cases member
  | .float _, _, member => by cases member
  | .str _, _, member => by cases member

theorem asI64_of_items : ∀ (items : List Json) (sid : Int), sid ∈ collectItems items →
    Json.asI64 (.num sid) = some sid
  | [], _, member => by cases member
  | item :: rest, sid, member => by
      rcases List.mem_append.mp member with first | later
      · exact asI64_of_collected item sid first
      · exact asI64_of_items rest sid later

theorem asI64_of_fields : ∀ (fields : List (String × Json)) (child : String × List Int),
    child ∈ collectFields fields → ∀ sid ∈ child.2, Json.asI64 (.num sid) = some sid
  | [], _, listed => by cases listed
  | (key, value) :: rest, child, listed => by
      intro sid member
      rcases List.mem_cons.mp listed with rfl | later
      · exact asI64_of_collected value sid member
      · exact asI64_of_fields rest child later sid member

end

end Collected

section Assigned

variable {main sandbox : List Int} {loops : List Json}

/-- The list of the ids stands for a list of annotations that each have one. -/
theorem map_stmtId (named : ∀ annot ∈ loops, ∃ sid ∈ sandbox, stmtId annot = some sid) :
    loops.map stmtId = (loops.filterMap stmtId).map some := by
  induction loops with
  | nil => rfl
  | cons annot rest ih =>
      obtain ⟨sid, -, found⟩ := named annot List.mem_cons_self
      rw [List.map_cons, List.filterMap_cons_some found, List.map_cons, found,
        ih fun other member => named other (List.mem_cons_of_mem _ member)]

/-- The test of the list passes where each id names a loop of the main function. -/
theorem all_named_iff
    (named : ∀ annot ∈ loops, ∃ sid ∈ sandbox, stmtId annot = some sid) :
    (loops.all fun annot => (stmtId annot).any main.contains) = true ↔
      loops.filterMap stmtId ⊆ main := by
  rw [List.all_eq_true]
  constructor
  · intro all sid member
    obtain ⟨annot, listed, found⟩ := List.mem_filterMap.mp member
    have inside := all annot listed
    rw [found, Option.any_some] at inside
    exact List.contains_iff_mem.mp inside
  · intro inside annot listed
    obtain ⟨sid, -, found⟩ := named annot listed
    rw [found, Option.any_some]
    exact List.contains_iff_mem.mpr (inside (List.mem_filterMap.mpr ⟨annot, listed, found⟩))

theorem stmtId_insert {annot : Json} {old sid : Int} (named : stmtId annot = some old)
    (range : Json.asI64 (.num sid) = some sid) :
    stmtId (annot.insert "stmt_id" (.num sid)) = some sid := by
  cases annot with
  | obj fields =>
      unfold stmtId Json.insert
      rw [Json.get_obj, Json.lookup_insertField_self, Option.bind_some, range]
  | _ => cases named

theorem map_stmtId_assigned
    (named : ∀ annot ∈ loops, ∃ sid ∈ sandbox, stmtId annot = some sid)
    (range : ∀ sid ∈ main, Json.asI64 (.num sid) = some sid) (count : main.length = loops.length) :
    (List.zipWith (fun annot sid => annot.insert "stmt_id" (.num sid)) loops main).map
      stmtId = main.map some := by
  induction loops generalizing main with
  | nil =>
      obtain rfl := List.eq_nil_of_length_eq_zero count
      rfl
  | cons annot rest ih =>
      cases main with
      | nil => cases count
      | cons sid others =>
          obtain ⟨old, -, found⟩ := named annot List.mem_cons_self
          rw [List.zipWith_cons_cons, List.map_cons, List.map_cons,
            stmtId_insert found (range sid List.mem_cons_self),
            ih (fun other member => named other (List.mem_cons_of_mem _ member))
              (fun other member => range other (List.mem_cons_of_mem _ member))
              (Nat.succ.inj count)]

/-- The counterpart of a loop is the loop of the main function with the same id where both stand at
one place. -/
theorem counterpart_eq_self_iff {sid : Int} (distinct : main.Nodup) (member : sid ∈ main) :
    counterpart main sandbox sid = some sid ↔ main.idxOf sid = sandbox.idxOf sid := by
  unfold counterpart
  constructor
  · intro found
    obtain ⟨bound, here⟩ := List.getElem?_eq_some_iff.mp found
    rw [← here, distinct.idxOf_getElem, here]
  · intro same
    rw [← same, List.getElem?_idxOf member]

/-- The main ids are the counterparts of a list of sandbox loops where that list is the whole
sandbox in its order. -/
theorem map_counterpart_iff {ids : List Int} (distinct : main.Nodup) (sandboxDistinct : sandbox.Nodup)
    (sameCount : sandbox.length = main.length) (inside : ids ⊆ sandbox)
    (count : ids.length = main.length) :
    main.map some = ids.map (counterpart main sandbox) ↔ ids = sandbox := by
  constructor
  · intro same
    refine List.ext_getElem (count.trans sameCount.symm) fun place here there => ?_
    have bound : place < main.length := count ▸ here
    have pair : some main[place] = counterpart main sandbox ids[place] := by
      have entry := congrArg (·[place]?) same
      simpa only [List.getElem?_map, List.getElem?_eq_getElem bound, List.getElem?_eq_getElem here,
        Option.map_some, Option.some.injEq] using entry
    obtain ⟨within, found⟩ := List.getElem?_eq_some_iff.mp pair.symm
    have place_eq : sandbox.idxOf ids[place] = place := (distinct.getElem_inj_iff).mp found
    have member : sandbox.idxOf ids[place] < sandbox.length :=
      List.idxOf_lt_length_of_mem (inside (List.getElem_mem here))
    have named : sandbox[sandbox.idxOf ids[place]] = ids[place] := List.getElem_idxOf member
    simpa only [place_eq] using named.symm
  · rintro rfl
    refine List.ext_getElem (by simp [sameCount]) fun place here there => ?_
    rw [List.length_map] at here there
    rw [List.getElem_map, List.getElem_map, counterpart, sandboxDistinct.idxOf_getElem,
      List.getElem?_eq_getElem here]

/-- The counterparts of the annotations are the counterparts of their ids. -/
theorem map_counterparts
    (named : ∀ annot ∈ loops, ∃ sid ∈ sandbox, stmtId annot = some sid) :
    (loops.map fun annot => (stmtId annot).bind (counterpart main sandbox)) =
      (loops.filterMap stmtId).map (counterpart main sandbox) :=
  calc
    _ = (loops.map stmtId).map fun sid => sid.bind (counterpart main sandbox) := by
      rw [List.map_map]
      rfl
    _ = (loops.filterMap stmtId).map (counterpart main sandbox) := by
      rw [map_stmtId named, List.map_map]
      rfl

/-- The ids of the annotations decide whether each annotation reaches its loop. -/
theorem assignLoopSids_reaches_iff (function : String) (distinct : main.Nodup)
    (sandboxDistinct : sandbox.Nodup) (sameCount : sandbox.length = main.length)
    (range : ∀ sid ∈ main, Json.asI64 (.num sid) = some sid)
    (named : ∀ annot ∈ loops, ∃ sid ∈ sandbox, stmtId annot = some sid) :
    (∀ mapped, assignLoopSids function main loops = .ok mapped →
      ReachesItsLoop main sandbox loops mapped) ↔
      PlacesAgree main sandbox (loops.filterMap stmtId) := by
  have inside : loops.filterMap stmtId ⊆ sandbox := by
    intro sid member
    obtain ⟨annot, listed, found⟩ := List.mem_filterMap.mp member
    obtain ⟨own, here, same⟩ := named annot listed
    rw [found] at same
    rwa [Option.some.inj same]
  have length : (loops.filterMap stmtId).length = loops.length := by
    have both := congrArg List.length (map_stmtId named)
    simpa only [List.length_map] using both.symm
  unfold ReachesItsLoop PlacesAgree assignLoopSids
  rw [map_counterparts named]
  by_cases kept : loops.filterMap stmtId ⊆ main
  · -- the ids are taken for those of the main function
    rw [if_pos ((all_named_iff named).mpr kept)]
    simp only [kept, forall_const, not_true_eq_false, IsEmpty.forall_iff, and_true]
    have fixed : (∀ sid ∈ loops.filterMap stmtId, counterpart main sandbox sid = some sid) ↔
        ∀ sid ∈ loops.filterMap stmtId, main.idxOf sid = sandbox.idxOf sid :=
      forall₂_congr fun sid member => counterpart_eq_self_iff distinct (kept member)
    rw [← fixed]
    constructor
    · intro reaches sid member
      have same := (map_stmtId named).symm.trans (reaches loops rfl)
      exact (List.map_inj_left.mp same sid member).symm
    · rintro fixes mapped assigned
      obtain rfl := Except.ok.inj assigned
      rw [map_stmtId named]
      exact List.map_inj_left.mpr fun sid member => (fixes sid member).symm
  · -- the ids are replaced by their places in the list
    rw [if_neg fun all => kept ((all_named_iff named).mp all)]
    simp only [kept, IsEmpty.forall_iff, true_and, not_false_eq_true, forall_const]
    by_cases count : main.length = loops.length
    · have assigned := map_stmtId_assigned named range count
      have whole := map_counterpart_iff distinct sandboxDistinct sameCount inside
        (length.trans count.symm)
      rw [if_neg (not_not_intro count)]
      constructor
      · intro reaches _
        exact whole.mp (assigned.symm.trans (reaches _ rfl))
      · intro ordered mapped result
        obtain rfl := Except.ok.inj result
        exact assigned.trans (whole.mpr (ordered (length.trans count.symm)))
    · rw [if_pos count]
      constructor
      · intro _ same
        exact absurd (same.symm.trans length) count
      · rintro _ mapped ⟨⟩

end Assigned

/-- The remapped annotations reach their loops exactly where the places of the ids agree. -/
theorem remapLoopSidsToMain_reaches_iff (function : String) (ast : Json) (sandbox : List Int)
    (loops : List Json) (distinct : (collectLoopSids ast).Nodup) (sandboxDistinct : sandbox.Nodup)
    (sameCount : sandbox.length = (collectLoopSids ast).length)
    (named : ∀ annot ∈ loops, ∃ sid ∈ sandbox, stmtId annot = some sid) :
    (∀ mapped, remapLoopSidsToMain function (.ok ast) (some loops) = .ok (some mapped) →
      ReachesItsLoop (collectLoopSids ast) sandbox loops mapped) ↔
      PlacesAgree (collectLoopSids ast) sandbox (loops.filterMap stmtId) := by
  rw [← assignLoopSids_reaches_iff function distinct sandboxDistinct sameCount
    (asI64_of_collected ast) named]
  cases loops with
  | nil =>
      -- nothing is fetched and nothing is assigned
      have trivial : ReachesItsLoop (collectLoopSids ast) sandbox [] [] := rfl
      constructor
      · intro reaches mapped assigned
        obtain rfl := Except.ok.inj assigned
        exact trivial
      · rintro _ mapped ⟨⟩
        exact trivial
  | cons first rest =>
      have result (mapped : List Json) :
          remapLoopSidsToMain function (.ok ast) (some (first :: rest)) = .ok (some mapped) ↔
            assignLoopSids function (collectLoopSids ast) (first :: rest) = .ok mapped := by
        show (assignLoopSids function (collectLoopSids ast) (first :: rest)).map some = _ ↔ _
        cases assignLoopSids function (collectLoopSids ast) (first :: rest) <;> simp [Except.map]
      simp only [result]

/-- This is a printed function with two loops. -/
def twoLoops : Json :=
  .arr [.obj [("kind", .str "loop"), ("sid", .num 3)], .obj [("kind", .str "loop"), ("sid", .num 7)]]

def annotAt (sid : Int) : Json := .obj [("stmt_id", .num sid)]

/-- Two annotations in the order of the sandbox reach their loops. -/
theorem twoLoops_reached : ReachesItsLoop (collectLoopSids twoLoops) [5, 9]
    [annotAt 5, annotAt 9] [annotAt 3, annotAt 7] :=
  (remapLoopSidsToMain_reaches_iff "f" twoLoops [5, 9] [annotAt 5, annotAt 9]
    (by decide) (by decide) (by decide) (by decide)).mpr (by decide) _ rfl

/-- Two annotations in the other order change their loops. -/
theorem not_remapLoopSidsToMain_reaches : ¬ ∀ (function : String) (ast : Json) (sandbox : List Int)
    (loops : List Json), (collectLoopSids ast).Nodup → sandbox.Nodup →
    sandbox.length = (collectLoopSids ast).length →
    (∀ annot ∈ loops, ∃ sid ∈ sandbox, stmtId annot = some sid) → ∀ mapped,
    remapLoopSidsToMain function (.ok ast) (some loops) = .ok (some mapped) →
      ReachesItsLoop (collectLoopSids ast) sandbox loops mapped := by
  intro always
  have swapped := always "f" twoLoops [5, 9] [annotAt 9, annotAt 5] (by decide)
    (by decide) (by decide) (by decide) [annotAt 3, annotAt 7] rfl
  exact absurd swapped (by unfold ReachesItsLoop; decide)

end FramaCMcp.Annotations
