/-
This file shows what the goal counts of a coverage report add up to.
-/

import FramaCMcp.Proof.CoverageFixpoint

namespace FramaCMcp.CoverageCounts

open Receipt WpClass Profile Conclusion Store CoverageRow Coverage CoverageFixpoint

/-- Fresh and cached goals are valid, valid goals are goals, and each goal has one status. -/
structure Accounted (counts : GoalCoverage) : Prop where
  origins : counts.freshValid + counts.cachedValid ≤ counts.valid
  valid : counts.valid ≤ counts.total
  statuses : counts.total = HashMap.total counts.byStatus

theorem accounted_empty : Accounted {} := ⟨le_refl _, le_refl _, rfl⟩

/-- A goal has at most one origin. -/
theorem origins_le (progress : Bool) (origin : Option Bool) :
    (if progress && origin == some false then 1 else 0) +
      (if progress && origin == some true then 1 else 0) ≤ if progress then 1 else 0 := by
  cases progress <;> rcases origin with _ | _ | _ <;> decide

theorem accounted_countGoal (counts : GoalCoverage) (goal : Json) (before : Accounted counts) :
    Accounted (countGoal counts goal) := by
  have origins := origins_le (receiptGoalIsProgress goal) (goalIsFromCache goal)
  have bound : (if receiptGoalIsProgress goal then 1 else 0) ≤ 1 := by split <;> decide
  constructor
  · have earlier := before.origins
    simp only [countGoal]
    omega
  · have earlier := before.valid
    simp only [countGoal]
    omega
  · simp only [countGoal]
    rw [HashMap.total_count, before.statuses]

/-- This is the number of goals and the number of those that are progress. -/
structure Counted (counts : GoalCoverage) (goals : List Json) : Prop where
  accounted : Accounted counts
  total : counts.total = goals.length
  valid : counts.valid = goals.countP receiptGoalIsProgress

theorem counted_foldl (goals : List Json) : Counted (goals.foldl countGoal {}) goals := by
  induction goals using List.reverseRecOn with
  | nil => exact ⟨accounted_empty, rfl, rfl⟩
  | append_singleton goals goal ih =>
      rw [List.foldl_append]
      refine ⟨accounted_countGoal _ goal ih.accounted, ?_, ?_⟩
      · simp [countGoal, ih.total]
      · simp only [List.foldl_cons, List.foldl_nil, countGoal, ih.valid, List.countP_append,
          List.countP_singleton]

def countedReceipts (rows : List Row) : List Json := (uniqueReceipts rows).entries.map Sigma.snd

theorem countGoals_counted (rows : List Row) :
    Counted (countGoals (uniqueReceipts rows)) ((countedReceipts rows).flatMap receiptGoals) := by
  rw [countedReceipts, List.flatMap_map]
  exact counted_foldl _

theorem KeepsRow.receiptKey {before after : Row} (keeps : KeepsRow before after) :
    receiptKey after = receiptKey before := by
  simp only [Coverage.receiptKey, keeps.receiptSha256, keeps.function]

/-- The propagation changes no receipt. -/
theorem uniqueReceipts_judged (rows : List Row) (judge : Row → Row)
    (keeps : ∀ row, KeepsRow row (judge row)) :
    uniqueReceipts (rows.map judge) = uniqueReceipts rows := by
  have same (receipts : HashMap Json) (row : Row) :
      addReceipt receipts (judge row) = addReceipt receipts row := by
    rw [addReceipt, (keeps row).inScopeReceipt, KeepsRow.receiptKey (keeps row), addReceipt]
  rw [uniqueReceipts, List.foldl_map]
  simp only [same, uniqueReceipts]

/-- Each entry of the map is the receipt of a row under the key of this row. -/
theorem uniqueReceipts_source (rows : List Row) (key : String) (receipt : Json)
    (found : (uniqueReceipts rows).lookup key = some receipt) :
    ∃ row ∈ rows, receiptKey row = key ∧ row.inScopeReceipt = some receipt := by
  induction rows using List.reverseRecOn with
  | nil => cases found
  | append_singleton rows last ih =>
      have earlier (kept : (uniqueReceipts rows).lookup key = some receipt) :
          ∃ row ∈ rows ++ [last], receiptKey row = key ∧ row.inScopeReceipt = some receipt := by
        obtain ⟨row, member, keyed, inScope⟩ := ih kept
        exact ⟨row, List.mem_append_left _ member, keyed, inScope⟩
      rw [uniqueReceipts, List.foldl_append, List.foldl_cons, List.foldl_nil, addReceipt] at found
      cases inScope : last.inScopeReceipt with
      | none =>
          rw [inScope] at found
          exact earlier found
      | some own =>
          simp only [inScope] at found
          split_ifs at found
          · exact earlier found
          · rw [HashMap.lookup_insert_cases] at found
            split_ifs at found with same
            · exact ⟨last, by simp, same.symm, inScope.trans found⟩
            · exact earlier found

theorem uniqueReceipts_present (rows : List Row) (row : Row) (member : row ∈ rows)
    (inScope : row.inScopeReceipt.isSome = true) :
    ((uniqueReceipts rows).lookup (receiptKey row)).isSome = true := by
  induction rows using List.reverseRecOn with
  | nil => cases member
  | append_singleton rows last ih =>
      rw [uniqueReceipts, List.foldl_append, List.foldl_cons, List.foldl_nil, addReceipt]
      rcases List.mem_append.mp member with earlier | found
      · have kept := ih earlier
        rw [uniqueReceipts] at kept
        cases last.inScopeReceipt with
        | none => exact kept
        | some own =>
            simp only
            split_ifs
            · exact kept
            · rw [HashMap.lookup_insert_cases]
              split_ifs
              · rfl
              · exact kept
      · obtain rfl := List.mem_singleton.mp found
        obtain ⟨own, present⟩ := Option.isSome_iff_exists.mp inScope
        simp only [present]
        split_ifs with already
        · exact already
        · simp

def digestOf (receipt : Json) : Option String := (receipt.get "sha256").bind Json.asStr

/-- A row records the digest of the receipt that it has in scope. -/
def RecordsDigest (row : Row) : Prop :=
  ∀ receipt, row.inScopeReceipt = some receipt → row.receiptSha256 = digestOf receipt

theorem receiptKey_eq_iff (row : Row) (digest : String) :
    receiptKey row = "sha256:" ++ digest ↔ row.receiptSha256 = some digest := by
  unfold receiptKey
  cases row.receiptSha256 with
  | some recorded => simp
  | none =>
      simp only [reduceCtorEq, iff_false]
      intro same
      have letters := congrArg String.toList same
      simp at letters

theorem receiptKey_function_iff (row : Row) (function : String) :
    receiptKey row = "function:" ++ function ↔
      row.receiptSha256 = none ∧ row.function = function := by
  unfold receiptKey
  cases row.receiptSha256 with
  | some recorded =>
      simp only [reduceCtorEq, false_and, iff_false]
      intro same
      have letters := congrArg String.toList same
      simp at letters
  | none => simp

theorem countedReceipts_digest (rows : List Row) (records : ∀ row ∈ rows, RecordsDigest row)
    (row : Row) (member : row ∈ rows) (receipt : Json)
    (inScope : row.inScopeReceipt = some receipt) (digest : String)
    (recorded : digestOf receipt = some digest) :
    ∃ other ∈ rows, ∃ counted, other.inScopeReceipt = some counted ∧
      other.receiptSha256 = some digest ∧
      (countedReceipts rows).filter (fun counted => digestOf counted == some digest) =
        [counted] := by
  have own := records row member receipt inScope
  rw [recorded] at own
  have keyed := (receiptKey_eq_iff row digest).mpr own
  have present := uniqueReceipts_present rows row member (by simp [inScope])
  obtain ⟨counted, found⟩ := Option.isSome_iff_exists.mp present
  obtain ⟨other, otherMember, otherKey, otherInScope⟩ :=
    uniqueReceipts_source rows _ counted found
  refine ⟨other, otherMember, counted, otherInScope,
    (receiptKey_eq_iff other digest).mp (otherKey.trans keyed), ?_⟩
  have test : ∀ entry ∈ (uniqueReceipts rows).entries,
      (digestOf entry.2 == some digest) = decide (entry.1 = receiptKey row) := by
    rintro ⟨key, value⟩ listed
    obtain ⟨source, sourceMember, sourceKey, sourceInScope⟩ := uniqueReceipts_source rows key value
      ((HashMap.mem_entries_iff _ key value).mp listed)
    have sourceDigest := records source sourceMember value sourceInScope
    rw [Bool.eq_iff_iff, beq_iff_eq, decide_eq_true_iff, ← sourceKey, keyed,
      receiptKey_eq_iff, sourceDigest]
  rw [countedReceipts, List.filter_map]
  have entries := HashMap.filter_entries (uniqueReceipts rows) (receiptKey row) counted found
  rw [← List.filter_congr test] at entries
  rw [Function.comp_def, entries]
  rfl

/-- Receipts in scope that record one digest hold the same goals. -/
def DigestsAgree (rows : List Row) : Prop :=
  ∀ row ∈ rows, ∀ other ∈ rows, ∀ receipt otherReceipt, row.inScopeReceipt = some receipt →
    other.inScopeReceipt = some otherReceipt → (digestOf receipt).isSome = true →
    digestOf receipt = digestOf otherReceipt → receiptGoals receipt = receiptGoals otherReceipt

theorem inScopeReceipt_stored (entry : FunctionVerificationState) (reason : Option RowReason)
    (loaded : Option LoadedProject) (receipt : Json)
    (inScope : inScopeReceipt entry reason loaded = some receipt) :
    entry.proofReceipt = some receipt := by
  obtain ⟨stored, -⟩ := Option.filter_eq_some_iff.mp inScope
  exact stored

theorem inScopeReceipt_of_covered [UnicodeTables] [Sha256] (entry : FunctionVerificationState)
    (verifyProfile : Option (String × VerificationProfile)) (drift : SourceDrift)
    (loaded : Option LoadedProject)
    (covered : rowReason entry verifyProfile drift loaded = none) (receipt : Json)
    (stored : entry.proofReceipt = some receipt) :
    inScopeReceipt entry none loaded = some receipt := by
  obtain ⟨-, project, -, evidence⟩ : profileReason entry verifyProfile = none ∧
      projectReason entry loaded = none ∧ markReason entry = none ∧
      receiptReason entry drift = none := by
    simpa [rowReason] using covered
  have names : receiptNamesFunction receipt entry.function = true := by
    unfold receiptReason at evidence
    rw [stored] at evidence
    simp only at evidence
    split_ifs at evidence with stale filtered named
    exact named
  have matched : receiptMatchesProject receipt loaded = true := by
    simpa [projectReason, stored] using project
  rw [inScopeReceipt, stored]
  simp [names, matched]

section Report

variable [UnicodeTables] [Sha256] (disk : FileSystem) (targets declaredOnly : List String)
  (defined : Finset String) (loaded : Option LoadedProject) (conclusions : Conclusions)
  (verifyProfile : Option (String × VerificationProfile)) (detail : Detail)

theorem targetRow_cases (function : String) :
    (targetRow disk defined loaded conclusions verifyProfile function).reason.isSome = true ∧
        (targetRow disk defined loaded conclusions verifyProfile function).inScopeReceipt = none ∨
      function ∈ defined ∧ ∃ entry, conclusions.lookup function = some entry ∧
        targetRow disk defined loaded conclusions verifyProfile function =
          storedRow disk function entry verifyProfile loaded := by
  unfold targetRow
  by_cases present : function ∈ defined
  · rw [if_neg (not_not.mpr present)]
    cases found : conclusions.lookup function with
    | none => exact .inl ⟨rfl, rfl⟩
    | some entry => exact .inr ⟨present, entry, rfl, rfl⟩
  · rw [if_pos present]
    exact .inl ⟨rfl, rfl⟩

theorem targetRows_recordDigests :
    ∀ row ∈ targetRows disk targets defined loaded conclusions verifyProfile,
      RecordsDigest row := by
  intro row member receipt inScope
  have same := ((mem_targetRows _ _ _ _ _ _ row).mp member).2
  rcases targetRow_cases disk defined loaded conclusions verifyProfile row.function with
    ⟨-, outside⟩ | ⟨-, entry, -, stored⟩
  · rw [← same, inScope] at outside
    cases outside
  · rw [same, stored] at inScope
    rw [same, stored]
    have evidence := inScopeReceipt_stored entry _ loaded receipt inScope
    simp only [storedRow, recordedDigest, evidence, digestOf, Option.bind_some]

theorem goals_counted :
    Counted (proofCoverageReport disk targets declaredOnly defined loaded conclusions
        verifyProfile detail).goals
      ((countedReceipts (targetRows disk targets defined loaded conclusions
        verifyProfile)).flatMap receiptGoals) := by
  obtain ⟨judge, judgedRows, keeps, -⟩ := propagateUnverifiedCallees_spec
    (targetRows disk targets defined loaded conclusions verifyProfile)
  have counted := countGoals_counted
    (targetRows disk targets defined loaded conclusions verifyProfile)
  rw [← uniqueReceipts_judged _ judge keeps, ← judgedRows] at counted
  exact counted

theorem complete_parts
    (complete : (proofCoverageReport disk targets declaredOnly defined loaded conclusions
      verifyProfile detail).verdict = "complete") :
    (∀ row ∈ propagateUnverifiedCallees
        (targetRows disk targets defined loaded conclusions verifyProfile), row.reason = none) ∧
      ∀ receipt ∈ countedReceipts (targetRows disk targets defined loaded conclusions
        verifyProfile), ∀ goal ∈ receiptGoals receipt, receiptGoalIsProgress goal = true := by
  have counted := goals_counted disk targets declaredOnly defined loaded conclusions verifyProfile
    detail
  obtain ⟨judge, judgedRows, -⟩ := propagateUnverifiedCallees_spec
    (targetRows disk targets defined loaded conclusions verifyProfile)
  simp only [proofCoverageReport] at complete
  split_ifs at complete with all
  · simp only [Bool.and_eq_true, beq_iff_eq] at all
    obtain ⟨⟨⟨-, functions⟩, goals⟩, -⟩ := all
    constructor
    · have length : (propagateUnverifiedCallees (targetRows disk targets defined loaded conclusions
          verifyProfile)).length = (sortDedup targets).length := by
        rw [judgedRows, List.length_map, targetRows, List.length_map]
      rw [← length, List.countP_eq_length] at functions
      intro row member
      exact Option.isNone_iff_eq_none.mp (functions row member)
    · have valid := counted.valid.symm.trans (goals.trans counted.total)
      rw [List.countP_eq_length] at valid
      intro receipt member goal present
      exact valid goal (List.mem_flatMap.mpr ⟨receipt, member, present⟩)
  · exact absurd complete (by decide)

/-- Without a reason of any row the verdict is about the targets and their goals. -/
theorem verdict_of_covered
    (covered : ∀ row ∈ targetRows disk targets defined loaded conclusions verifyProfile,
      row.reason = none) (nonempty : sortDedup targets ≠ [])
    (goals : 0 < (countGoals (uniqueReceipts
      (targetRows disk targets defined loaded conclusions verifyProfile))).total)
    (valid : (countGoals (uniqueReceipts
        (targetRows disk targets defined loaded conclusions verifyProfile))).valid =
      (countGoals (uniqueReceipts
        (targetRows disk targets defined loaded conclusions verifyProfile))).total) :
    (proofCoverageReport disk targets declaredOnly defined loaded conclusions verifyProfile
      detail).verdict = "complete" := by
  have functions : (targetRows disk targets defined loaded conclusions verifyProfile).countP
      (fun row => row.reason.isNone) = (sortDedup targets).length := by
    have all := List.countP_eq_length.mpr fun row member =>
      Option.isNone_iff_eq_none.mpr (covered row member)
    rw [all, targetRows, List.length_map]
  simp [proofCoverageReport, propagate_of_covered _ covered, functions, valid, nonempty, goals]

/-- The target is defined, and its row is covered. -/
def CoveredTarget (target : String) : Prop :=
  target ∈ defined ∧ ∃ row ∈ propagateUnverifiedCallees
    (targetRows disk targets defined loaded conclusions verifyProfile),
    row.function = target ∧ row.reason = none

/-- Each goal of the receipt that is stored for the target is progress. -/
def ProvedTarget (target : String) : Prop :=
  ∃ entry receipt, conclusions.lookup target = some entry ∧ entry.proofReceipt = some receipt ∧
    ∀ goal ∈ receiptGoals receipt, receiptGoalIsProgress goal = true

theorem coveredTarget_receipt (target : String) (member : target ∈ targets)
    (covered : ∀ row ∈ propagateUnverifiedCallees
      (targetRows disk targets defined loaded conclusions verifyProfile), row.reason = none) :
    CoveredTarget disk targets defined loaded conclusions verifyProfile target ∧
      ∃ entry receipt, conclusions.lookup target = some entry ∧
        entry.proofReceipt = some receipt ∧
        (targetRow disk defined loaded conclusions verifyProfile target).inScopeReceipt =
          some receipt := by
  obtain ⟨row, present, named⟩ :=
    exists_row disk targets defined loaded conclusions verifyProfile target member
  have listed : targetRow disk defined loaded conclusions verifyProfile target ∈
      targetRows disk targets defined loaded conclusions verifyProfile :=
    (mem_targetRows _ _ _ _ _ _ _).mpr (by simpa using member)
  have unreached := (covered_iff _ _ _ _ _ _ row present).mp (covered row present)
  rw [named, ← targetRow_function disk defined loaded conclusions verifyProfile target,
    ← restsOnUncovered_row _ _ _ _ _ _ _ listed, not_or] at unreached
  rcases targetRow_cases disk defined loaded conclusions verifyProfile target with
    ⟨reason, -⟩ | ⟨inProject, entry, found, stored⟩
  · exact absurd reason unreached.1
  · have accepted := unreached.1
    rw [stored, Option.not_isSome_iff_eq_none] at accepted
    cases evidence : entry.proofReceipt with
    | none =>
        simp [storedRow, rowReason, receiptReason, evidence] at accepted
    | some receipt =>
        refine ⟨⟨inProject, row, present, named, covered row present⟩, entry, receipt, found,
          evidence, ?_⟩
        rw [stored]
        have inScope := inScopeReceipt_of_covered entry verifyProfile _ loaded accepted receipt
          evidence
        simp only [storedRow] at accepted ⊢
        rw [accepted, inScope]

theorem countedReceipts_undigested (row : Row)
    (member : row ∈ targetRows disk targets defined loaded conclusions verifyProfile)
    (receipt : Json) (inScope : row.inScopeReceipt = some receipt)
    (unrecorded : digestOf receipt = none) :
    (uniqueReceipts (targetRows disk targets defined loaded conclusions verifyProfile)).lookup
      ("function:" ++ row.function) = some receipt := by
  have own := targetRows_recordDigests disk targets defined loaded conclusions verifyProfile row
    member receipt inScope
  rw [unrecorded] at own
  have key : receiptKey row = "function:" ++ row.function := by rw [receiptKey, own]
  have present := uniqueReceipts_present _ row member (by simp [inScope])
  obtain ⟨counted, found⟩ := Option.isSome_iff_exists.mp present
  obtain ⟨other, otherMember, otherKey, otherInScope⟩ := uniqueReceipts_source _ _ counted found
  rw [key] at otherKey found
  have named := receiptKey_function_iff other row.function |>.mp otherKey
  have first := ((mem_targetRows _ _ _ _ _ _ row).mp member).2
  have second := ((mem_targetRows _ _ _ _ _ _ other).mp otherMember).2
  rw [named.2, ← first] at second
  rw [second, inScope] at otherInScope
  rw [found, otherInScope]

/-- Each recorded digest has one counted receipt, which stands for all receipts that record it. -/
def DigestsCountedOnce (rows : List Row) : Prop :=
  ∀ row ∈ rows, ∀ receipt digest, row.inScopeReceipt = some receipt →
    digestOf receipt = some digest →
    ∃ counted, (countedReceipts rows).filter (fun counted => digestOf counted == some digest) =
        [counted] ∧ (DigestsAgree rows → receiptGoals counted = receiptGoals receipt)

/-- A receipt without a digest is counted under the name of its target. -/
def UndigestedCounted (rows : List Row) : Prop :=
  ∀ row ∈ rows, ∀ receipt, row.inScopeReceipt = some receipt → digestOf receipt = none →
    (uniqueReceipts rows).lookup ("function:" ++ row.function) = some receipt

theorem targetRows_digestsCountedOnce :
    DigestsCountedOnce (targetRows disk targets defined loaded conclusions verifyProfile) := by
  have records := targetRows_recordDigests disk targets defined loaded conclusions verifyProfile
  intro row member receipt digest inScope recorded
  obtain ⟨other, otherMember, first, otherInScope, otherDigest, once⟩ :=
    countedReceipts_digest _ records row member receipt inScope digest recorded
  refine ⟨first, once, fun agree => ?_⟩
  have own := records other otherMember first otherInScope
  rw [otherDigest] at own
  exact agree other otherMember row member first receipt otherInScope inScope (by simp [← own])
    (own.symm.trans recorded.symm)

theorem exists_counted
    (agree : DigestsAgree (targetRows disk targets defined loaded conclusions verifyProfile))
    (row : Row) (member : row ∈ targetRows disk targets defined loaded conclusions verifyProfile)
    (receipt : Json) (inScope : row.inScopeReceipt = some receipt) :
    ∃ counted ∈ countedReceipts (targetRows disk targets defined loaded conclusions verifyProfile),
      receiptGoals counted = receiptGoals receipt := by
  cases recorded : digestOf receipt with
  | some digest =>
      obtain ⟨first, filtered, same⟩ := targetRows_digestsCountedOnce disk targets defined loaded
        conclusions verifyProfile row member receipt digest inScope recorded
      have kept : first ∈ (countedReceipts (targetRows disk targets defined loaded conclusions
          verifyProfile)).filter fun counted => digestOf counted == some digest := by
        simp [filtered]
      exact ⟨first, (List.mem_filter.mp kept).1, same agree⟩
  | none =>
      have own := countedReceipts_undigested disk targets defined loaded conclusions verifyProfile
        row member receipt inScope recorded
      exact ⟨receipt, List.mem_map.mpr ⟨_, (HashMap.mem_entries_iff _ _ _).mpr own, rfl⟩, rfl⟩

/-- The totals add up, and each recorded digest is counted once. -/
theorem proofCoverageReport_accounting :
    Accounted (proofCoverageReport disk targets declaredOnly defined loaded conclusions
        verifyProfile detail).goals ∧
      (proofCoverageReport disk targets declaredOnly defined loaded conclusions verifyProfile
          detail).goals.total =
        ((countedReceipts (targetRows disk targets defined loaded conclusions verifyProfile)).map
          fun receipt => (receiptGoals receipt).length).sum ∧
      ((proofCoverageReport disk targets declaredOnly defined loaded conclusions verifyProfile
          detail).verdict = "complete" → ∀ target ∈ targets,
        CoveredTarget disk targets defined loaded conclusions verifyProfile target ∧
          (DigestsAgree (targetRows disk targets defined loaded conclusions verifyProfile) →
            ProvedTarget conclusions target)) ∧
      DigestsCountedOnce (targetRows disk targets defined loaded conclusions verifyProfile) ∧
      UndigestedCounted (targetRows disk targets defined loaded conclusions verifyProfile) := by
  have counted := goals_counted disk targets declaredOnly defined loaded conclusions verifyProfile
    detail
  refine ⟨counted.accounted, counted.total.trans List.length_flatMap, ?_,
    targetRows_digestsCountedOnce disk targets defined loaded conclusions verifyProfile,
    countedReceipts_undigested disk targets defined loaded conclusions verifyProfile⟩
  intro complete target member
  obtain ⟨covered, progress⟩ := complete_parts disk targets declaredOnly defined loaded conclusions
    verifyProfile detail complete
  obtain ⟨coveredTarget, entry, receipt, found, evidence, inScope⟩ :=
    coveredTarget_receipt disk targets defined loaded conclusions verifyProfile target member covered
  have listed : targetRow disk defined loaded conclusions verifyProfile target ∈
      targetRows disk targets defined loaded conclusions verifyProfile :=
    (mem_targetRows _ _ _ _ _ _ _).mpr (by simpa using member)
  refine ⟨coveredTarget, fun agree => ⟨entry, receipt, found, evidence, ?_⟩⟩
  obtain ⟨first, present, same⟩ := exists_counted disk targets defined loaded conclusions
    verifyProfile agree _ listed receipt inScope
  rw [← same]
  exact progress first present

end Report

/-- No file can be read. -/
def noFiles : FileSystem where
  isFile _ := false
  read _ := .error "not found"

/-- This receipt records one goal of the two targets. -/
def pairReceipt (digest : List (String × Json)) (status : String) : Json :=
  .obj (digest ++ [("wp", .obj [("functions", textArray ["f", "g"])]),
    ("goals", .arr [.obj [("status", .str status)]])])

/-- Each target has a conclusion with its receipt. -/
def pairConclusions (status : VerificationStatus) (first second : Json) : Conclusions :=
  HashMap.ofList [("f", { function := "f", status := status, proofReceipt := some first }),
    ("g", { function := "g", status := status, proofReceipt := some second })]

/-- Both targets hold the same receipt, which records no digest. -/
def undigestedPair : Conclusions :=
  pairConclusions .inProgress (pairReceipt [] "unknown") (pairReceipt [] "unknown")

/-- The two receipts record one digest and hold different goals. -/
def sameDigestPair : Conclusions :=
  pairConclusions .verified (pairReceipt [("sha256", .str "0badcafe")] "valid")
    (pairReceipt [("sha256", .str "0badcafe")] "unknown")

def pairRows (conclusions : Conclusions) : List Row :=
  @targetRows .ascii .zeros noFiles ["f", "g"] {"f", "g"} none conclusions none

def pairRow (conclusions : Conclusions) (function : String) : Row :=
  @targetRow .ascii .zeros noFiles {"f", "g"} none conclusions none function

theorem sameDigestPair_complete :
    (@proofCoverageReport .ascii .zeros noFiles ["f", "g"] [] {"f", "g"} none
      sameDigestPair none .summary).verdict = "complete" := by
  have covered : ∀ row ∈ pairRows sameDigestPair, row.reason = none := by decide
  exact @verdict_of_covered .ascii .zeros _ _ _ _ _ _ _ _ covered (by decide)
    (by decide) (by rfl)

/-- A shared receipt is counted twice, and a complete report rests on a goal that is not proved. -/
theorem not_accounting :
    (¬ ∀ [UnicodeTables] [Sha256] (disk : FileSystem) (targets : List String)
      (defined : Finset String) (loaded : Option LoadedProject) (conclusions : Conclusions)
      (verifyProfile : Option (String × VerificationProfile)),
      ∀ row ∈ targetRows disk targets defined loaded conclusions verifyProfile,
        ∀ receipt, row.inScopeReceipt = some receipt →
        (countedReceipts (targetRows disk targets defined loaded conclusions
          verifyProfile)).countP (fun counted => counted.eqv receipt) = 1) ∧
    ¬ ∀ [UnicodeTables] [Sha256] (disk : FileSystem) (targets declaredOnly : List String)
      (defined : Finset String) (loaded : Option LoadedProject) (conclusions : Conclusions)
      (verifyProfile : Option (String × VerificationProfile)) (detail : Detail),
      (proofCoverageReport disk targets declaredOnly defined loaded conclusions verifyProfile
        detail).verdict = "complete" → ∀ target ∈ targets,
        CoveredTarget disk targets defined loaded conclusions verifyProfile target ∧
          ProvedTarget conclusions target := by
  constructor
  · intro once
    have twice : (countedReceipts (pairRows undigestedPair)).countP
        (fun counted => counted.eqv (pairReceipt [] "unknown")) = 2 := by rfl
    have listed := (@mem_targetRows .ascii .zeros noFiles ["f", "g"] {"f", "g"} none
      undigestedPair none (pairRow undigestedPair "f")).mpr ⟨by decide, rfl⟩
    have own := @once .ascii .zeros noFiles ["f", "g"] {"f", "g"} none undigestedPair
      none (pairRow undigestedPair "f") listed (pairReceipt [] "unknown") rfl
    exact absurd (own.symm.trans twice) (by decide)
  · intro proved
    obtain ⟨-, entry, receipt, found, evidence, progress⟩ :=
      @proved .ascii .zeros _ _ _ _ _ _ _ _ sameDigestPair_complete "g" (by decide)
    have stored : sameDigestPair.lookup "g" = some {
        function := "g"
        status := .verified
        proofReceipt := some (pairReceipt [("sha256", .str "0badcafe")] "unknown") } := by rfl
    obtain rfl := Option.some.inj (stored.symm.trans found)
    obtain rfl := Option.some.inj evidence
    exact absurd (progress _ (List.mem_singleton_self _)) (by decide)

end FramaCMcp.CoverageCounts
