/-
This file shows that the covered rows are those that lead to no row with a reason of its own.
-/

import Mathlib.Data.List.Destutter
import FramaCMcp.Construction.Coverage

namespace FramaCMcp.CoverageFixpoint

open Fixpoint Profile Conclusion Store CoverageRow Coverage

/-- The propagation changes the reason of a row and its blocking callees. -/
structure KeepsRow (before after : Row) : Prop where
  function : after.function = before.function
  callees : after.callees = before.callees
  receiptSha256 : after.receiptSha256 = before.receiptSha256
  inScopeReceipt : after.inScopeReceipt = before.inScopeReceipt

theorem KeepsRow.trans {first second third : Row} (start : KeepsRow first second)
    (next : KeepsRow second third) : KeepsRow first third where
  function := next.function.trans start.function
  callees := next.callees.trans start.callees
  receiptSha256 := next.receiptSha256.trans start.receiptSha256
  inScopeReceipt := next.inScopeReceipt.trans start.inScopeReceipt

theorem block_keeps (uncovered : Finset String) (row : Row) :
    KeepsRow row (block uncovered row) := by
  unfold block
  split_ifs <;> exact ⟨rfl, rfl, rfl, rfl⟩

theorem block_of_reason (uncovered : Finset String) (row : Row)
    (reason : row.reason.isSome = true) : block uncovered row = row := by
  have covered : row.reason.isNone = false := by simpa using reason
  rw [block, isNewly, covered]
  rfl

theorem block_reason (uncovered : Finset String) (row : Row) :
    (block uncovered row).reason.isSome = true ↔
      row.reason.isSome = true ∨ isNewly uncovered row = true := by
  unfold block
  split_ifs with newly <;> simp [newly]

theorem isNewly_iff (uncovered : Finset String) (row : Row) :
    isNewly uncovered row = true ↔
      row.reason.isSome = false ∧ ∃ callee ∈ row.callees, callee ∈ uncovered := by
  simp [isNewly, blockingCallees]

/-- The loop stops where no row is newly uncovered. -/
theorem propagationRound_eq_none_iff (state : Propagation) :
    propagationRound state = none ↔ ∀ row ∈ state.rows, isNewly state.uncovered row = false := by
  simp [propagationRound]

def Calls (rows : List Row) (name callee : String) : Prop :=
  ∃ row ∈ rows, row.function = name ∧ callee ∈ row.callees

/-- A row of this name has a reason before the propagation. -/
def OwnReason (rows : List Row) (name : String) : Prop :=
  ∃ row ∈ rows, row.function = name ∧ row.reason.isSome = true

/-- A path of recorded callees leads from this name to a row with a reason of its own. -/
def RestsOnUncovered (rows : List Row) (name : String) : Prop :=
  Leads (Calls rows) (OwnReason rows) name

/-- Each change of a row so far is justified by a path. -/
structure Judged (rows : List Row) (judge : Row → Row) (uncovered : Finset String) : Prop where
  keeps : ∀ row, KeepsRow row (judge row)
  own : ∀ row, row.reason.isSome = true → judge row = row
  sound : ∀ row ∈ rows, (judge row).reason.isSome = true →
    row.reason.isSome = true ∨ ∃ callee ∈ row.callees, RestsOnUncovered rows callee
  names : ∀ name, name ∈ uncovered ↔
    ∃ row ∈ rows, row.function = name ∧ (judge row).reason.isSome = true

/-- The state after some rounds is a judgement of the rows. -/
def Propagated (rows : List Row) (state : Propagation) : Prop :=
  ∃ judge, state.rows = rows.map judge ∧ Judged rows judge state.uncovered

theorem propagated_start (rows : List Row) : Propagated rows (propagationStart rows) := by
  refine ⟨id, (List.map_id rows).symm, ⟨fun row => ⟨rfl, rfl, rfl, rfl⟩, fun _ _ => rfl,
    fun row _ reason => .inl reason, fun name => ?_⟩⟩
  simp only [propagationStart, List.mem_toFinset, List.mem_map, List.mem_filter, id_eq]
  constructor
  · rintro ⟨row, ⟨member, reason⟩, named⟩
    exact ⟨row, member, named, reason⟩
  · rintro ⟨row, member, named, reason⟩
    exact ⟨row, ⟨member, reason⟩, named⟩

theorem Judged.restsOnUncovered {rows : List Row} {judge : Row → Row}
    {uncovered : Finset String} (judged : Judged rows judge uncovered) (name : String)
    (member : name ∈ uncovered) : RestsOnUncovered rows name := by
  obtain ⟨row, present, named, reason⟩ := (judged.names name).mp member
  rcases judged.sound row present reason with own | ⟨callee, called, leads⟩
  · exact leads_of_source ⟨row, present, named, own⟩
  · exact leads.of_edge ⟨row, present, named, called⟩

/-- One round keeps each change justified. -/
theorem propagated_round (rows : List Row) (state next : Propagation)
    (before : Propagated rows state) (found : propagationRound state = some next) :
    Propagated rows next := by
  obtain ⟨judge, judgedRows, judged⟩ := before
  simp only [propagationRound] at found
  split_ifs at found
  obtain rfl := Option.some.inj found
  refine ⟨block state.uncovered ∘ judge, by simp [judgedRows], ⟨?_, ?_, ?_, ?_⟩⟩
  · exact fun row => (judged.keeps row).trans (block_keeps _ _)
  · intro row reason
    rw [Function.comp_apply, judged.own row reason, block_of_reason _ row reason]
  · intro row present reason
    rcases (block_reason _ _).mp reason with earlier | newly
    · exact judged.sound row present earlier
    · obtain ⟨-, callee, called, uncovered⟩ := (isNewly_iff _ _).mp newly
      rw [(judged.keeps row).callees] at called
      exact .inr ⟨callee, called, judged.restsOnUncovered callee uncovered⟩
  · intro name
    rw [Finset.mem_union, judged.names]
    simp only [judgedRows, Function.comp_apply, List.mem_toFinset, List.mem_map, List.mem_filter]
    constructor
    · rintro (⟨row, present, named, reason⟩ | ⟨_, ⟨⟨row, present, rfl⟩, newly⟩, named⟩)
      · exact ⟨row, present, named, (block_reason _ _).mpr (.inl reason)⟩
      · rw [(judged.keeps row).function] at named
        exact ⟨row, present, named, (block_reason _ _).mpr (.inr newly)⟩
    · rintro ⟨row, present, named, reason⟩
      rcases (block_reason _ _).mp reason with earlier | newly
      · exact .inl ⟨row, present, named, earlier⟩
      · refine .inr ⟨judge row, ⟨⟨row, present, rfl⟩, newly⟩, ?_⟩
        rw [(judged.keeps row).function, named]

/-- Without a further round each name that rests on an uncovered row is uncovered. -/
theorem Judged.mem_uncovered {rows : List Row} {judge : Row → Row} {uncovered : Finset String}
    (judged : Judged rows judge uncovered)
    (closed : ∀ row ∈ rows, isNewly uncovered (judge row) = false) (name : String)
    (leads : RestsOnUncovered rows name) : name ∈ uncovered := by
  refine leads_least (· ∈ uncovered) ?_ ?_ name leads
  · rintro name ⟨row, present, named, reason⟩
    exact (judged.names name).mpr ⟨row, present, named, by rwa [judged.own row reason]⟩
  · rintro name callee ⟨row, present, named, called⟩ uncoveredCallee
    apply (judged.names name).mpr
    refine ⟨row, present, named, ?_⟩
    by_contra covered
    have newly : isNewly uncovered (judge row) = true := by
      apply (isNewly_iff _ _).mpr
      rw [(judged.keeps row).callees]
      exact ⟨by simpa using covered, callee, called, uncoveredCallee⟩
    rw [closed row present] at newly
    cases newly

/-- The loop judges each row by the rows that it leads to. -/
theorem propagateUnverifiedCallees_spec (rows : List Row) :
    ∃ judge : Row → Row, propagateUnverifiedCallees rows = rows.map judge ∧
      (∀ row, KeepsRow row (judge row)) ∧
      (∀ row, row.reason.isSome = true → judge row = row) ∧
      ∀ row ∈ rows, ((judge row).reason.isSome = true ↔
        row.reason.isSome = true ∨ ∃ callee ∈ row.callees, RestsOnUncovered rows callee) := by
  obtain ⟨⟨judge, judgedRows, judged⟩, stopped⟩ := propagation.loop_invariant (Propagated rows)
    (propagated_round rows) _ (propagated_start rows)
  have closed : ∀ row ∈ rows,
      isNewly (propagation.loop (propagationStart rows)).uncovered (judge row) = false := by
    intro row present
    apply (propagationRound_eq_none_iff _).mp stopped
    rw [judgedRows]
    exact List.mem_map_of_mem present
  refine ⟨judge, judgedRows, judged.keeps, judged.own, fun row present => ⟨?_, ?_⟩⟩
  · exact judged.sound row present
  · rintro (own | ⟨callee, called, leads⟩)
    · rwa [judged.own row own]
    · by_contra covered
      have newly : isNewly (propagation.loop (propagationStart rows)).uncovered (judge row) =
          true := by
        apply (isNewly_iff _ _).mpr
        rw [(judged.keeps row).callees]
        exact ⟨by simpa using covered, callee, called, judged.mem_uncovered closed callee leads⟩
      rw [closed row present] at newly
      cases newly

/-- Covered rows alone uncover nothing. -/
theorem propagate_of_covered (rows : List Row) (covered : ∀ row ∈ rows, row.reason = none) :
    propagateUnverifiedCallees rows = rows := by
  have none : (propagationStart rows).uncovered = ∅ := by
    apply Finset.eq_empty_of_forall_notMem
    intro name member
    obtain ⟨row, kept, -⟩ := List.mem_map.mp (List.mem_toFinset.mp member)
    obtain ⟨present, reason⟩ := List.mem_filter.mp kept
    rw [covered row present] at reason
    cases reason
  have stopped : propagation.round (propagationStart rows) = Option.none := by
    apply (propagationRound_eq_none_iff _).mpr
    intro row _
    simp [none, isNewly, blockingCallees]
  exact congrArg Propagation.rows (propagation.loop_none _ stopped)

/-- These rows differ in one row, which has a reason in the second list. -/
theorem restsOnUncovered_mono (before after : List Row) (row : Row) (reason : RowReason)
    (name : String) (leads : RestsOnUncovered (before ++ row :: after) name) :
    RestsOnUncovered (before ++ { row with reason := some reason } :: after) name := by
  refine leads.mono ?_ ?_
  · rintro name callee ⟨caller, member, named, called⟩
    rcases List.mem_append.mp member with earlier | found
    · exact ⟨caller, List.mem_append_left _ earlier, named, called⟩
    · rcases List.mem_cons.mp found with rfl | later
      · exact ⟨_, List.mem_append_right _ (List.mem_cons_self ..), named, called⟩
      · exact ⟨caller, List.mem_append_right _ (List.mem_cons_of_mem _ later), named, called⟩
  · rintro name ⟨owner, member, named, own⟩
    rcases List.mem_append.mp member with earlier | found
    · exact ⟨owner, List.mem_append_left _ earlier, named, own⟩
    · rcases List.mem_cons.mp found with rfl | later
      · exact ⟨_, List.mem_append_right _ (List.mem_cons_self ..), named, rfl⟩
      · exact ⟨owner, List.mem_append_right _ (List.mem_cons_of_mem _ later), named, own⟩

theorem getElem?_replaced (before after : List Row) (old new row : Row) (index : Nat)
    (found : (before ++ new :: after)[index]? = some row) (different : row ≠ new) :
    (before ++ old :: after)[index]? = some row := by
  rcases Nat.lt_or_ge index before.length with earlier | later
  · rw [List.getElem?_append_left earlier] at found ⊢
    exact found
  · rw [List.getElem?_append_right later] at found ⊢
    revert found
    cases position : index - before.length with
    | zero => exact fun found => absurd (Option.some.inj found).symm different
    | succ rest => exact id

/-- One more uncovered row turns no other row covered. -/
theorem propagate_mono (before after : List Row) (row : Row) (reason : RowReason) (index : Nat)
    (result : Row)
    (found : (propagateUnverifiedCallees
      (before ++ { row with reason := some reason } :: after))[index]? = some result)
    (covered : result.reason = none) :
    ∃ old, (propagateUnverifiedCallees (before ++ row :: after))[index]? = some old ∧
      old.reason = none := by
  obtain ⟨judge, judgedRows, -, own, sound⟩ :=
    propagateUnverifiedCallees_spec (before ++ { row with reason := some reason } :: after)
  obtain ⟨oldJudge, oldRows, -, -, oldSound⟩ :=
    propagateUnverifiedCallees_spec (before ++ row :: after)
  rw [judgedRows, List.getElem?_map] at found
  obtain ⟨start, present, rfl⟩ := Option.map_eq_some_iff.mp found
  have unreached := (sound start (List.mem_of_getElem? present)).not.mp (by simp [covered])
  rw [not_or] at unreached
  have different : start ≠ { row with reason := some reason } := by
    rintro rfl
    exact unreached.1 rfl
  have same := getElem?_replaced before after row _ start index present different
  refine ⟨oldJudge start, by rw [oldRows, List.getElem?_map, same]; rfl, ?_⟩
  rw [← Option.not_isSome_iff_eq_none, oldSound start (List.mem_of_getElem? same)]
  rintro (start | ⟨callee, called, leads⟩)
  · exact unreached.1 start
  · exact unreached.2 ⟨callee, called, restsOnUncovered_mono before after row reason callee leads⟩

theorem mem_sortDedup (names : List String) (name : String) :
    name ∈ sortDedup names ↔ name ∈ names := by
  have sorted : (sortTexts names).Pairwise (· ≤ ·) := List.pairwise_insertionSort (· ≤ ·) names
  rw [sortDedup, List.Pairwise.destutter_eq_dedup sorted, List.mem_dedup, sortTexts,
    List.mem_insertionSort]

section Report

variable [UnicodeTables] [Sha256] (disk : FileSystem) (targets declaredOnly : List String)
  (defined : Finset String) (loaded : Option LoadedProject) (conclusions : Conclusions)
  (verifyProfile : Option (String × VerificationProfile))

@[simp] theorem targetRow_function (function : String) :
    (targetRow disk defined loaded conclusions verifyProfile function).function = function := by
  unfold targetRow
  split_ifs
  · split <;> rfl
  · rfl

theorem mem_targetRows (row : Row) :
    row ∈ targetRows disk targets defined loaded conclusions verifyProfile ↔
      row.function ∈ targets ∧
        row = targetRow disk defined loaded conclusions verifyProfile row.function := by
  rw [targetRows, List.mem_map]
  constructor
  · rintro ⟨name, member, rfl⟩
    rw [targetRow_function]
    exact ⟨(mem_sortDedup targets name).mp member, rfl⟩
  · rintro ⟨member, same⟩
    exact ⟨row.function, (mem_sortDedup targets _).mpr member, same.symm⟩

/-- There is one row for each name. -/
theorem ownReason_iff (row : Row)
    (member : row ∈ targetRows disk targets defined loaded conclusions verifyProfile) :
    OwnReason (targetRows disk targets defined loaded conclusions verifyProfile) row.function ↔
      row.reason.isSome = true := by
  constructor
  · rintro ⟨other, present, named, reason⟩
    have first := ((mem_targetRows _ _ _ _ _ _ row).mp member).2
    have second := ((mem_targetRows _ _ _ _ _ _ other).mp present).2
    rw [named, ← first] at second
    rwa [← second]
  · exact fun reason => ⟨row, member, rfl, reason⟩

/-- The path from a row starts with one of its callees. -/
theorem restsOnUncovered_row (row : Row)
    (member : row ∈ targetRows disk targets defined loaded conclusions verifyProfile) :
    (row.reason.isSome = true ∨ ∃ callee ∈ row.callees,
        RestsOnUncovered (targetRows disk targets defined loaded conclusions verifyProfile)
          callee) ↔
      RestsOnUncovered (targetRows disk targets defined loaded conclusions verifyProfile)
        row.function := by
  rw [RestsOnUncovered, leads_iff, ownReason_iff _ _ _ _ _ _ row member]
  apply or_congr_right
  constructor
  · rintro ⟨callee, called, leads⟩
    exact ⟨callee, ⟨row, member, rfl, called⟩, leads⟩
  · rintro ⟨callee, ⟨other, present, named, called⟩, leads⟩
    have first := ((mem_targetRows _ _ _ _ _ _ row).mp member).2
    have second := ((mem_targetRows _ _ _ _ _ _ other).mp present).2
    rw [named, ← first] at second
    exact ⟨callee, second ▸ called, leads⟩

theorem covered_iff (row : Row)
    (member : row ∈ propagateUnverifiedCallees
      (targetRows disk targets defined loaded conclusions verifyProfile)) :
    row.reason = none ↔
      ¬ RestsOnUncovered (targetRows disk targets defined loaded conclusions verifyProfile)
        row.function := by
  obtain ⟨judge, judgedRows, keeps, -, sound⟩ := propagateUnverifiedCallees_spec
    (targetRows disk targets defined loaded conclusions verifyProfile)
  rw [judgedRows] at member
  obtain ⟨start, present, rfl⟩ := List.mem_map.mp member
  rw [← Option.not_isSome_iff_eq_none, sound start present, (keeps start).function,
    restsOnUncovered_row _ _ _ _ _ _ start present]

theorem exists_row (target : String) (member : target ∈ targets) :
    ∃ row ∈ propagateUnverifiedCallees
      (targetRows disk targets defined loaded conclusions verifyProfile),
      row.function = target := by
  obtain ⟨judge, judgedRows, keeps, -, -⟩ := propagateUnverifiedCallees_spec
    (targetRows disk targets defined loaded conclusions verifyProfile)
  rw [judgedRows]
  refine ⟨_, List.mem_map_of_mem (List.mem_map_of_mem ((mem_sortDedup targets target).mpr member)),
    ?_⟩
  rw [(keeps _).function, targetRow_function]

/-- The report marks the rows that rest on no row with a reason, and its loop ends. -/
theorem proofCoverageReport_fixpoint :
    (∀ target ∈ targets, ∃ entry ∈ (proofCoverageReport disk targets declaredOnly defined loaded
        conclusions verifyProfile .full).functions, entry.function = target) ∧
      (∀ detail, ∀ entry ∈ (proofCoverageReport disk targets declaredOnly defined loaded
        conclusions verifyProfile detail).functions,
        (entry.covered = true ↔
          ¬ OwnReason (targetRows disk targets defined loaded conclusions verifyProfile)
            entry.function ∧
          ∀ last, Relation.TransGen
              (Calls (targetRows disk targets defined loaded conclusions verifyProfile))
              entry.function last →
            ¬ OwnReason (targetRows disk targets defined loaded conclusions verifyProfile) last)) ∧
      (∀ rows : List Row,
        (∃ count ≤ rows.length, propagation.Rounds count (propagationStart rows)
          (propagation.loop (propagationStart rows))) ∧
        propagation.round (propagation.loop (propagationStart rows)) = none) ∧
      ∀ (before after : List Row) (row : Row) (reason : RowReason) (index : Nat) (result : Row),
        (propagateUnverifiedCallees
          (before ++ { row with reason := some reason } :: after))[index]? = some result →
        result.reason = none →
        ∃ old, (propagateUnverifiedCallees (before ++ row :: after))[index]? = some old ∧
          old.reason = none := by
  refine ⟨?_, ?_, ?_, propagate_mono⟩
  · intro target member
    obtain ⟨row, present, named⟩ :=
      exists_row disk targets defined loaded conclusions verifyProfile target member
    exact ⟨rowReport row, List.mem_map_of_mem (List.mem_filter.mpr ⟨present, rfl⟩), named⟩
  · intro detail entry member
    obtain ⟨row, listed, rfl⟩ := List.mem_map.mp member
    have present := (List.mem_filter.mp listed).1
    have covered := covered_iff disk targets defined loaded conclusions verifyProfile row present
    rw [RestsOnUncovered, leads_iff_transGen] at covered
    simp only [rowReport, Option.isNone_iff_eq_none, covered, not_or, not_exists, not_and]
  · intro rows
    constructor
    · obtain ⟨count, bound, rounds⟩ := propagation.loop_rounds (propagationStart rows)
      exact ⟨count, bound.trans List.countP_le_length, rounds⟩
    · exact (propagation.loop_invariant (fun _ => True) (fun _ _ _ _ => trivial) _ trivial).2

end Report

end FramaCMcp.CoverageFixpoint
