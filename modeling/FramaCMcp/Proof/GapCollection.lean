/-
This file shows exactly when the check has no entry in its list of gaps.
-/

import FramaCMcp.Construction.CheckGaps

namespace FramaCMcp.GapCollection

open Status Goals Verdicts CheckGaps GoalGaps

inductive GoalOutcome where
  | progress
  | lemmaOpen
  | lemmaProved
  | unproved
  | explained
  | unexplained
  deriving DecidableEq, Repr

/-- The consolidated verdict says why a proved goal is not progress. -/
def isExplained (goal : Json) : Bool :=
  propertyIsDead goal || statusIsVacuous (consolidatedVerdict goal) ||
    goalIsValidUnderHypotheses goal

/-- The tests of the loop partition the goals. -/
def goalOutcome (evaAlarms goal : Json) : GoalOutcome :=
  if checkGoalCountsAsProgress goal then .progress
  else if goalIsOnLemma evaAlarms goal then
    if ownStatusIsProved goal then .lemmaProved else .lemmaOpen
  else if ownStatusIsProved goal then
    if isExplained goal then .explained else .unexplained
  else .unproved

def rowIsReported (wpGoals alarm : Json) : Bool :=
  propertyIsInconsistent alarm || alarmIsUndischarged alarm ||
    propertyIsDisprovedReachability alarm || propertyIsUnprovedLemma alarm wpGoals ||
    propertyIsDisproved alarm wpGoals || propertyIsAssumedValid alarm

/-- These categories are reported without a goal. -/
def standaloneCategories : List String :=
  ["result_unconstrained", "unconstrained_assigns", "unresolved_call", "assumed_callee_contract"]

/-- The finding stands alone or names a judged goal. -/
def findingIsReported (judged : HashMap Json) (finding : Json) : Bool :=
  ((finding.get "category").bind Json.asStr).any fun category =>
    standaloneCategories.contains category ||
      category == "unproved_assumption" &&
        ((((finding.get "wpo").bind Json.asStr).bind judged.lookup).isSome)

/-- These are the goals of the payload. -/
def goalList (inputs : CheckInputs) : List Json := inputs.wpGoals.asArray.getD []

/-- These are the property rows of the payload. -/
def rowList (inputs : CheckInputs) : List Json := inputs.evaAlarms.asArray.getD []

/-- Each case is one finding in the payloads. -/
inductive LeavesGap (inputs : CheckInputs) : Prop where
  | diagnosticsUnavailable
      (missing : ((parseDiagnostics inputs.reload).index "unavailable").asStr.isSome)
  | parseWarning (categories : List (String × Json)) (entry : String × Json)
      (present : ((parseDiagnostics inputs.reload).index "unavailable").asStr = none)
      (listed : ((parseDiagnostics inputs.reload).index "categories").asObject = some categories)
      (member : entry ∈ categories) (counted : warningCount entry.2 ≠ 0)
  | flagsDropped (dropped : (droppedFlags inputs.reload).isSome)
  | evaNotWanted (unwanted : inputs.wanted.eva = false)
  | wpNotWanted (unwanted : inputs.wanted.wp = false)
  | rteDisabled (disabled : inputs.rte = some false)
  | evaIncomplete (wanted : inputs.wanted.eva = true)
      (incomplete : CheckGaps.evaIncomplete inputs = true)
  | wpIncomplete (wanted : inputs.wanted.wp = true)
      (incomplete : wpStepFailed inputs = true ∨ wpDrained inputs.wp = false)
  | propertyRow (alarm : Json) (member : alarm ∈ rowList inputs)
      (reported : rowIsReported inputs.wpGoals alarm = true)
  | goal (goal : Json) (member : goal ∈ goalList inputs)
      (reported : goalOutcome inputs.evaAlarms goal = .unproved ∨
        goalOutcome inputs.evaAlarms goal = .explained)
  | finding (finding : Json) (member : finding ∈ proofreadFindings inputs.wp)
      (reported : findingIsReported (judgedGoals inputs.evaAlarms inputs.wpGoals) finding = true)

/-- Each counted category leaves its own entry or joins the aggregate. -/
theorem astDiagnosticGaps_eq_nil_iff (reload : Json) :
    astDiagnosticGaps reload astWarningAllowlist = [] ↔
      ((parseDiagnostics reload).index "unavailable").asStr = none ∧
        ∀ categories, ((parseDiagnostics reload).index "categories").asObject = some categories →
          ∀ entry ∈ categories, warningCount entry.2 = 0 := by
  unfold astDiagnosticGaps
  cases missing : ((parseDiagnostics reload).index "unavailable").asStr with
  | some reason => simp
  | none =>
      cases listed : ((parseDiagnostics reload).index "categories").asObject with
      | none => simp
      | some categories =>
          constructor
          · intro empty
            refine ⟨rfl, fun found same entry member => ?_⟩
            cases same
            by_contra counted
            obtain ⟨classified, aggregate⟩ := List.append_eq_nil_iff.mp empty
            have unnamed := List.filterMap_eq_nil_iff.mp classified entry member
            cases named : astSoundnessReason entry.1 with
            | some reason => simp [classifiedWarningGap, counted, named] at unnamed
            | none =>
                have joins : entry ∈ categories.filter fun entry =>
                    isUnclassifiedWarning astWarningAllowlist entry.1 entry.2 := by
                  simp [member, isUnclassifiedWarning, counted, named, astWarningAllowlist]
                have nonempty := List.ne_nil_of_mem joins
                simp [nonempty] at aggregate
          · rintro ⟨-, uncounted⟩
            have silent := uncounted categories rfl
            have unnamed : categories.filterMap
                (fun entry => classifiedWarningGap entry.1 entry.2) = [] := by
              apply List.filterMap_eq_nil_iff.mpr
              intro entry member
              simp [classifiedWarningGap, silent entry member]
            have aggregate : (categories.filter fun entry =>
                isUnclassifiedWarning astWarningAllowlist entry.1 entry.2) = [] := by
              apply List.filter_eq_nil_iff.mpr
              intro entry member
              simp [isUnclassifiedWarning, silent entry member]
            simp [unnamed, aggregate]

theorem compileFlagsDroppedGap_eq_none_iff (reload : Json) :
    compileFlagsDroppedGap reload = none ↔ droppedFlags reload = none := by
  simp [compileFlagsDroppedGap]

theorem unrequestedAnalysisGaps_eq_nil_iff (rte : Option Bool) (wp : Json)
    (wanted : WantedAnalyses) :
    unrequestedAnalysisGaps rte wp wanted = [] ↔
      wanted.eva = true ∧ wanted.wp = true ∧ rte ≠ some false := by
  unfold unrequestedAnalysisGaps
  cases wanted.eva <;> cases wanted.wp <;> by_cases disabled : rte = some false <;>
    simp [disabled]

theorem stepFailureGaps_eq_nil_iff [UnicodeTables] (inputs : CheckInputs) :
    stepFailureGaps inputs = [] ↔
      (inputs.wanted.eva = true → CheckGaps.evaIncomplete inputs = false) ∧
        (inputs.wanted.wp = true → wpStepFailed inputs = false ∧ wpDrained inputs.wp = true) := by
  unfold stepFailureGaps
  cases inputs.wanted.eva <;> cases inputs.wanted.wp <;>
    cases CheckGaps.evaIncomplete inputs <;> cases wpStepFailed inputs <;>
    cases wpDrained inputs.wp <;> simp

theorem propertyRowFinding_isSome (wpGoals alarm : Json) :
    (propertyRowFinding alarm wpGoals).isSome = rowIsReported wpGoals alarm := by
  unfold propertyRowFinding rowIsReported
  split_ifs <;> simp [*]

theorem propertyRowGaps_eq_nil_iff (evaAlarms wpGoals : Json) :
    propertyRowGaps evaAlarms wpGoals = [] ↔
      ∀ alarm ∈ evaAlarms.asArray.getD [], rowIsReported wpGoals alarm = false := by
  unfold propertyRowGaps
  rw [List.filterMap_eq_nil_iff]
  apply forall₂_congr
  intro alarm member
  rw [← propertyRowFinding_isSome]
  simp [propertyRowGap]

theorem provedGoalGap_isSome (goal : Json) (status : String) :
    (provedGoalGap goal status).isSome = isExplained goal := by
  unfold provedGoalGap isExplained
  split_ifs <;> simp [*]

/-- A judged goal without an entry is proved and unexplained. -/
theorem judgedGoalGaps_eq_nil_iff (goal : Json) :
    judgedGoalGaps goal = [] ↔ ownStatusIsProved goal = true ∧ isExplained goal = false := by
  simp only [judgedGoalGaps, isProved_getD_unknown]
  rw [← provedGoalGap_isSome goal ((ownStatus goal).getD "unknown")]
  cases ownStatusIsProved goal <;> simp

theorem goalIsJudged_iff (evaAlarms goal : Json) :
    goalIsJudged evaAlarms goal = true ↔
      checkGoalCountsAsProgress goal = false ∧ goalIsOnLemma evaAlarms goal = false := by
  simp [goalIsJudged]

/-- The goal loop has no entry exactly where each goal has a silent outcome. -/
theorem wpGoalGaps_eq_nil_iff (evaAlarms wpGoals : Json) :
    wpGoalGaps evaAlarms wpGoals = [] ↔
      ∀ goal ∈ wpGoals.asArray.getD [], goalOutcome evaAlarms goal ≠ .unproved ∧
        goalOutcome evaAlarms goal ≠ .explained := by
  unfold wpGoalGaps
  rw [List.flatMap_eq_nil_iff]
  constructor
  · intro silent goal member
    have judged := silent goal
    rw [List.mem_filter, goalIsJudged_iff, judgedGoalGaps_eq_nil_iff] at judged
    unfold goalOutcome
    split_ifs <;> simp_all
  · intro silent goal judged
    rw [List.mem_filter, goalIsJudged_iff] at judged
    have outcome := silent goal judged.1
    rw [judgedGoalGaps_eq_nil_iff]
    unfold goalOutcome at outcome
    split_ifs at outcome <;> simp_all

theorem proofreadFindingGap_isSome (judged : HashMap Json) (finding : Json) :
    (proofreadFindingGap judged finding).isSome = findingIsReported judged finding := by
  unfold proofreadFindingGap findingIsReported
  cases found : (finding.get "category").bind Json.asStr with
  | none => rfl
  | some category =>
      have named : (unprovedAssumptionGap judged finding).isSome =
          (((finding.get "wpo").bind Json.asStr).bind judged.lookup).isSome := by
        rw [unprovedAssumptionGap, Option.isSome_map]
      split <;> simp_all [standaloneCategories]

/-- The list is empty exactly where the payloads have no finding. -/
theorem checkIncompleteItems_eq_nil_iff [UnicodeTables] (inputs : CheckInputs) :
    checkIncompleteItems inputs = [] ↔ ¬ LeavesGap inputs := by
  simp only [checkIncompleteItems, List.append_eq_nil_iff, Option.toList_eq_nil_iff,
    astDiagnosticGaps_eq_nil_iff, compileFlagsDroppedGap_eq_none_iff,
    unrequestedAnalysisGaps_eq_nil_iff, stepFailureGaps_eq_nil_iff, propertyRowGaps_eq_nil_iff,
    wpGoalGaps_eq_nil_iff, proofreadFindingGaps, List.filterMap_eq_nil_iff]
  constructor
  · rintro ⟨⟨⟨⟨⟨⟨⟨present, uncounted⟩, kept⟩, evaWanted, wpWanted, enabled⟩, evaDone, wpDone⟩, rows⟩,
      goals⟩, findings⟩ leaves
    cases leaves with
    | diagnosticsUnavailable missing => simp [present] at missing
    | parseWarning categories entry _ listed member counted =>
        exact counted (uncounted categories listed entry member)
    | flagsDropped dropped => simp [kept] at dropped
    | evaNotWanted unwanted => simp [evaWanted] at unwanted
    | wpNotWanted unwanted => simp [wpWanted] at unwanted
    | rteDisabled disabled => exact enabled disabled
    | evaIncomplete wanted incomplete => simp [evaDone wanted] at incomplete
    | wpIncomplete wanted incomplete => simp [wpDone wanted] at incomplete
    | propertyRow alarm member reported => simp [rows alarm member] at reported
    | goal goal member reported =>
        exact reported.elim (goals goal member).1 (goals goal member).2
    | finding finding member reported =>
        rw [← proofreadFindingGap_isSome, findings finding member] at reported
        simp at reported
  · intro silent
    have present : ((parseDiagnostics inputs.reload).index "unavailable").asStr = none := by
      by_contra missing
      exact silent (.diagnosticsUnavailable (Option.isSome_iff_ne_none.mpr missing))
    refine ⟨⟨⟨⟨⟨⟨⟨present, ?_⟩, ?_⟩, ?_, ?_, ?_⟩, ?_, ?_⟩, ?_⟩, ?_⟩, ?_⟩
    · intro categories listed entry member
      by_contra counted
      exact silent (.parseWarning categories entry present listed member counted)
    · by_contra dropped
      exact silent (.flagsDropped (Option.isSome_iff_ne_none.mpr dropped))
    · by_contra unwanted
      exact silent (.evaNotWanted (by simpa using unwanted))
    · by_contra unwanted
      exact silent (.wpNotWanted (by simpa using unwanted))
    · exact fun disabled => silent (.rteDisabled disabled)
    · intro wanted
      by_contra incomplete
      exact silent (.evaIncomplete wanted (by simpa using incomplete))
    · intro wanted
      constructor
      · by_contra failed
        exact silent (.wpIncomplete wanted (.inl (by simpa using failed)))
      · by_contra pending
        exact silent (.wpIncomplete wanted (.inr (by simpa using pending)))
    · intro alarm member
      by_contra reported
      exact silent (.propertyRow alarm member (by simpa using reported))
    · intro goal member
      exact ⟨fun unproved => silent (.goal goal member (.inl unproved)),
        fun explained => silent (.goal goal member (.inr explained))⟩
    · intro finding member
      by_contra found
      apply silent (.finding finding member _)
      rw [← proofreadFindingGap_isSome]
      exact Option.isSome_iff_ne_none.mpr found

end FramaCMcp.GapCollection
