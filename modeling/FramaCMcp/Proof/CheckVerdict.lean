/-
This file compares an empty list of gaps with the progress of each goal and the verdict of the check
with its split by verification target.
-/

import FramaCMcp.Proof.GapCollection

namespace FramaCMcp.CheckVerdict

open Status Goals Verdicts CheckGaps GoalGaps GapCollection

/-- No payload of the check reports a failed step. -/
structure StepsCompleted (inputs : CheckInputs) : Prop where
  reload : checkStepFailed inputs.reload = false
  eva : checkStepFailed inputs.eva = false
  evaAlarms : checkStepFailed inputs.evaAlarms = false
  wp : checkStepFailed inputs.wp = false
  wpGoals : checkStepFailed inputs.wpGoals = false

/-- WP proved this goal and its flag refuses progress, but no test of the check reports it. -/
def droppedSilently (evaAlarms goal : Json) : Bool :=
  ownStatusIsProved goal && !checkGoalCountsAsProgress goal &&
    (goalIsOnLemma evaAlarms goal || !isExplained goal)

theorem mem_goalList (inputs : CheckInputs) (goal : Json) :
    goal ∈ goalList inputs ↔ ∃ goals, inputs.wpGoals.asArray = some goals ∧ goal ∈ goals := by
  unfold goalList
  cases inputs.wpGoals.asArray <;> simp

theorem ownStatusIsProved_of_normalized (goal : Json)
    (valid : (goal.get "normalized_status").bind Json.asStr = some "valid") :
    ownStatusIsProved goal = true := by
  obtain ⟨status, present, text⟩ := Option.bind_eq_some_iff.mp valid
  have own : ownStatus goal = some "valid" := by
    simp [ownStatus, present, text]
  simp [ownStatusIsProved, own, isProved, Text.eqIgnoreAsciiCase_self]

theorem propertyIsUnprovedLemma_of_goal (alarm goal : Json) (wpGoals : Json) (goals : List Json)
    (marker : String) (listed : wpGoals.asArray = some goals) (member : goal ∈ goals)
    (kind : hasKind alarm "lemma" = true) (same : valueMarker alarm = some marker)
    (discharges : goalPropertyMarker goal = some marker)
    (unproved : ownStatusIsProved goal = false) :
    propertyIsUnprovedLemma alarm wpGoals = true := by
  have covers : goal ∈ coveringGoals marker goals := by
    simp [coveringGoals, member, discharges]
  have nonempty : coveringGoals marker goals ≠ [] := List.ne_nil_of_mem covers
  have invalid : ((coveringGoals marker goals).all fun goal =>
      (goal.get "normalized_status").bind Json.asStr == some "valid") = false := by
    rw [List.all_eq_false]
    refine ⟨goal, covers, fun valid => ?_⟩
    have proved := ownStatusIsProved_of_normalized goal (by simpa using valid)
    simp [unproved] at proved
  have judged : goalsForPropertyAllValid alarm wpGoals = some false := by
    simp [goalsForPropertyAllValid, same, listed, nonempty, invalid]
  simp [propertyIsUnprovedLemma, kind, judged]

/-- The skip of a lemma goal relies on the row of the lemma. -/
theorem leavesGap_of_lemmaGoal (inputs : CheckInputs) (goal : Json)
    (member : goal ∈ goalList inputs) (onLemma : goalIsOnLemma inputs.evaAlarms goal = true)
    (unproved : ownStatusIsProved goal = false) : LeavesGap inputs := by
  obtain ⟨goals, listed, present⟩ := (mem_goalList inputs goal).mp member
  obtain ⟨marker, discharges, isLemma⟩ := (Option.any_eq_true _ _).mp onLemma
  have marked : marker ∈ lemmaMarkers inputs.evaAlarms := by simpa using isLemma
  obtain ⟨alarm, kept, same⟩ := List.mem_filterMap.mp marked
  obtain ⟨row, kind⟩ := List.mem_filter.mp kept
  have open' := propertyIsUnprovedLemma_of_goal alarm goal inputs.wpGoals goals marker listed
    present kind same discharges unproved
  exact .propertyRow alarm row (by simp [rowIsReported, open'])

theorem progress_of_noGap (inputs : CheckInputs) (silent : ¬ LeavesGap inputs) (goal : Json)
    (member : goal ∈ goalList inputs)
    (kept : droppedSilently inputs.evaAlarms goal = false) :
    checkGoalCountsAsProgress goal = true := by
  by_contra stuck
  have stuck : checkGoalCountsAsProgress goal = false := by simpa using stuck
  by_cases proved : ownStatusIsProved goal = true
  · have offLemma : goalIsOnLemma inputs.evaAlarms goal = false := by
      by_contra onLemma
      simp [droppedSilently, proved, stuck, onLemma] at kept
    have explained : isExplained goal = true := by
      by_contra unexplained
      simp [droppedSilently, proved, stuck, unexplained] at kept
    refine silent (.goal goal member (.inr ?_))
    simp [goalOutcome, stuck, offLemma, proved, explained]
  · have unproved : ownStatusIsProved goal = false := by simpa using proved
    by_cases onLemma : goalIsOnLemma inputs.evaAlarms goal = true
    · exact silent (leavesGap_of_lemmaGoal inputs goal member onLemma unproved)
    · refine silent (.goal goal member (.inl ?_))
      simp [goalOutcome, stuck, onLemma, unproved]

theorem no_progress_of_droppedSilently (evaAlarms goal : Json)
    (dropped : droppedSilently evaAlarms goal = true) :
    checkGoalCountsAsProgress goal = false := by
  simp only [droppedSilently, Bool.and_eq_true, Bool.not_eq_true'] at dropped
  exact dropped.1.2

/-- A check without a gap ran both analyses to their end. -/
theorem completed_of_noGap (inputs : CheckInputs) (silent : ¬ LeavesGap inputs) :
    inputs.wanted = WantedAnalyses.both ∧ StepsCompleted inputs ∧
      wpDrained inputs.wp = true := by
  have eva : inputs.wanted.eva = true := by
    by_contra unwanted
    exact silent (.evaNotWanted (by simpa using unwanted))
  have wp : inputs.wanted.wp = true := by
    by_contra unwanted
    exact silent (.wpNotWanted (by simpa using unwanted))
  have evaDone : CheckGaps.evaIncomplete inputs = false := by
    by_contra incomplete
    exact silent (.evaIncomplete eva (by simpa using incomplete))
  have wpDone : wpStepFailed inputs = false := by
    by_contra failed
    exact silent (.wpIncomplete wp (.inl (by simpa using failed)))
  have drained : wpDrained inputs.wp = true := by
    by_contra pending
    exact silent (.wpIncomplete wp (.inr (by simpa using pending)))
  simp only [CheckGaps.evaIncomplete, wpStepFailed, Bool.or_eq_false_iff] at evaDone wpDone
  obtain ⟨⟨⟨reload, evaKept⟩, alarms⟩, -⟩ := evaDone
  refine ⟨?_, ⟨reload, evaKept, alarms, wpDone.1.2, wpDone.2⟩, drained⟩
  rcases inputs with ⟨_, _, _, _, _, _, ⟨_, _⟩⟩
  simp_all [WantedAnalyses.both]

/-- An empty list of a finished check shows the progress of each goal. -/
def FailClosed [UnicodeTables] (inputs : CheckInputs) : Prop :=
  inputs.wanted = WantedAnalyses.both → StepsCompleted inputs → wpDrained inputs.wp = true →
    checkIncompleteItems inputs = [] →
      ∀ goal ∈ goalList inputs, checkGoalCountsAsProgress goal = true

/-- The check fails closed exactly where a gap is left or no goal is dropped silently. -/
theorem failClosed_iff [UnicodeTables] (inputs : CheckInputs) :
    FailClosed inputs ↔ LeavesGap inputs ∨
      ∀ goal ∈ goalList inputs, droppedSilently inputs.evaAlarms goal = false := by
  unfold FailClosed
  rw [checkIncompleteItems_eq_nil_iff]
  constructor
  · intro closed
    by_cases leaves : LeavesGap inputs
    · exact .inl leaves
    · obtain ⟨wanted, completed, drained⟩ := completed_of_noGap inputs leaves
      refine .inr fun goal member => ?_
      by_contra dropped
      have stuck := no_progress_of_droppedSilently inputs.evaAlarms goal (by simpa using dropped)
      simp [closed wanted completed drained leaves goal member] at stuck
  · rintro (leaves | kept) _ _ _ silent goal member
    · exact absurd leaves silent
    · exact progress_of_noGap inputs silent goal member (kept goal member)

/-- EVA disproved this postcondition under hypotheses. -/
def disprovedRow : Json :=
  .obj [("key", .str "#p1"), ("kind", .str "ensures"), ("descr", .str "Post-condition"),
    ("status", .str "invalid_under_hyp")]

/-- WP proved the goal of the disproved postcondition. -/
def disprovedGoal : Json :=
  enrichGoalWithPropertyStatus
    (addStatusFields (.obj [("wpo", .str "typed_f_ensures"), ("property", .str "#p1"),
      ("fct", .str "f"), ("name", .str "Post-condition"), ("status", .str "VALID")]))
    (propertyStatusMap [disprovedRow])

/-- Both analyses of this check completed. -/
def disprovedGoalCheck : CheckInputs where
  rte := none
  reload := .obj [("ok", .bool true)]
  eva := .obj [("ok", .bool true), ("computation_state", .str "computed")]
  evaAlarms := .arr [addStatusFields disprovedRow]
  wp := .obj [("ok", .bool true), ("drained", .bool true)]
  wpGoals := .arr [disprovedGoal]
  wanted := .both

/-- The disproved goal leaves no entry. -/
theorem not_failClosed : ¬ ∀ [UnicodeTables] (inputs : CheckInputs), FailClosed inputs := by
  intro closed
  let tables : UnicodeTables := .ascii
  have completed : StepsCompleted disprovedGoalCheck := ⟨rfl, rfl, rfl, rfl, rfl⟩
  have silent : checkIncompleteItems disprovedGoalCheck = [] := by rfl
  have progress := closed disprovedGoalCheck rfl completed rfl silent disprovedGoal (.head _)
  have stuck : checkGoalCountsAsProgress disprovedGoal = false := by rfl
  simp [stuck] at progress

end FramaCMcp.CheckVerdict

namespace FramaCMcp.TargetVerdict

open Status Goals Verdicts CheckGaps GoalGaps Established GapCollection CheckVerdict

/-- The consolidated verdict hides that WP did not prove this goal. -/
def isMasked (goal : Json) : Bool :=
  (placement goal).isSome && !ownStatusIsProved goal && checkGoalCountsAsProgress goal

/-- The report holds where the target has goals and the check has no entry. -/
def FlatImpliesSplit [UnicodeTables] (inputs : CheckInputs) : Prop :=
  checkIncompleteItems inputs = [] →
    ∀ target : VerificationTarget,
      ((establishedByTarget inputs.wpGoals (checkIncompleteItems inputs)).index
        target.text).index "goals" ≠ .num 0 →
      ((establishedByTarget inputs.wpGoals (checkIncompleteItems inputs)).index
        target.text).index "holds" = .bool true

/-- A target that holds has proved goals only, and each entry is placed on another target. -/
def SplitImpliesPlaced (wpGoals : Json) (incomplete : List Json) : Prop :=
  ∀ target : VerificationTarget,
    ((establishedByTarget wpGoals incomplete).index target.text).index "holds" = .bool true →
      (∀ goal ∈ wpGoals.asArray.getD [], placement goal = some target →
        ownStatusIsProved goal = true) ∧
      ∀ item ∈ incomplete, isGoalLevel item = true ∧
        ∃ other, placedItem (targetById (placedGoals wpGoals)) item = some other ∧ other ≠ target

theorem index_goals (wpGoals : Json) (incomplete : List Json) (target : VerificationTarget) :
    ((establishedByTarget wpGoals incomplete).index target.text).index "goals" =
      .num (goalsOn wpGoals target).length := by
  rw [index_establishedByTarget]
  rfl

theorem index_holds (wpGoals : Json) (incomplete : List Json) (target : VerificationTarget) :
    ((establishedByTarget wpGoals incomplete).index target.text).index "holds" =
      .bool (targetHolds wpGoals incomplete target) := by
  rw [index_establishedByTarget]
  rfl

theorem mem_goalsOn (wpGoals : Json) (target : VerificationTarget) (goal : Json) :
    goal ∈ goalsOn wpGoals target ↔
      goal ∈ wpGoals.asArray.getD [] ∧ placement goal = some target := by
  simp only [goalsOn, placedGoals, List.mem_map, List.mem_filter, List.mem_filterMap,
    Option.map_eq_some_iff, beq_iff_eq, Prod.exists, Prod.mk.injEq]
  constructor
  · rintro ⟨_, found, ⟨⟨_, member, _, placed, rfl, rfl⟩, rfl⟩, rfl⟩
    exact ⟨member, placed⟩
  · rintro ⟨member, placed⟩
    exact ⟨goal, target, ⟨⟨goal, member, target, placed, rfl, rfl⟩, rfl⟩, rfl⟩

/-- Each of the three tests of a target must pass. -/
theorem targetHolds_iff (wpGoals : Json) (incomplete : List Json) (target : VerificationTarget) :
    targetHolds wpGoals incomplete target = true ↔
      goalsOn wpGoals target ≠ [] ∧
        (∀ goal ∈ goalsOn wpGoals target, ownStatusIsProved goal = true) ∧
        ∀ item ∈ incomplete, target ∉ blockedBy (targetById (placedGoals wpGoals)) item := by
  simp [targetHolds, openGoals, blocked, and_assoc]

/-- An entry leaves a target open only where it is placed on another one. -/
theorem not_mem_blockedBy_iff (targets : HashMap VerificationTarget) (item : Json)
    (target : VerificationTarget) :
    target ∉ blockedBy targets item ↔
      ∃ other, placedItem targets item = some other ∧ other ≠ target := by
  unfold blockedBy
  cases placedItem targets item with
  | none => cases target <;> simp [verificationTargets]
  | some other => simp [ne_comm]

theorem isGoalLevel_of_placed (targets : HashMap VerificationTarget) (item : Json)
    (other : VerificationTarget) (placed : placedItem targets item = some other) :
    isGoalLevel item = true := by
  by_contra level
  simp [placedItem, level] at placed

/-- A held target is placed for each goal list and each list of entries. -/
theorem splitImpliesPlaced (wpGoals : Json) (incomplete : List Json) :
    SplitImpliesPlaced wpGoals incomplete := by
  intro target holds
  rw [index_holds, Json.bool.injEq, targetHolds_iff] at holds
  obtain ⟨-, proved, free⟩ := holds
  constructor
  · intro goal member placed
    exact proved goal ((mem_goalsOn wpGoals target goal).mpr ⟨member, placed⟩)
  · intro item listed
    obtain ⟨other, placed, different⟩ := (not_mem_blockedBy_iff _ item target).mp (free item listed)
    exact ⟨isGoalLevel_of_placed _ item other placed, other, placed, different⟩

theorem proved_of_noGap (inputs : CheckInputs) (silent : ¬ LeavesGap inputs) (goal : Json)
    (member : goal ∈ goalList inputs) (placed : (placement goal).isSome = true)
    (visible : isMasked goal = false) : ownStatusIsProved goal = true := by
  by_contra stuck
  have unproved : ownStatusIsProved goal = false := by simpa using stuck
  have refused : checkGoalCountsAsProgress goal = false := by
    by_contra progress
    simp [isMasked, placed, unproved, progress] at visible
  have kept : droppedSilently inputs.evaAlarms goal = false := by
    simp [droppedSilently, unproved]
  simp [progress_of_noGap inputs silent goal member kept] at refused

/-- Both verdicts agree exactly where a gap is left or no goal is masked. -/
theorem verdictsAgree_iff [UnicodeTables] (inputs : CheckInputs) :
    (FlatImpliesSplit inputs ∧ ∀ incomplete, SplitImpliesPlaced inputs.wpGoals incomplete) ↔
      LeavesGap inputs ∨ ∀ goal ∈ goalList inputs, isMasked goal = false := by
  unfold FlatImpliesSplit
  simp only [index_goals, index_holds, Json.bool.injEq, targetHolds_iff]
  constructor
  · rintro ⟨agrees, -⟩
    by_cases leaves : LeavesGap inputs
    · exact .inl leaves
    · refine .inr fun goal member => ?_
      have empty := (checkIncompleteItems_eq_nil_iff inputs).mpr leaves
      by_contra masked
      simp only [isMasked, Bool.and_eq_true, Bool.not_eq_true', Bool.not_eq_false] at masked
      obtain ⟨target, placed⟩ := Option.isSome_iff_exists.mp masked.1.1
      have onTarget := (mem_goalsOn inputs.wpGoals target goal).mpr ⟨member, placed⟩
      have nonempty : Json.num (goalsOn inputs.wpGoals target).length ≠ .num 0 := by
        simpa using List.ne_nil_of_mem onTarget
      have proved := (agrees empty target nonempty).2.1 goal onTarget
      simp [masked.1.2] at proved
  · intro condition
    refine ⟨fun empty target nonempty => ⟨?_, ?_, ?_⟩, splitImpliesPlaced inputs.wpGoals⟩
    · rintro none
      simp [none] at nonempty
    · intro goal onTarget
      obtain ⟨member, placed⟩ := (mem_goalsOn inputs.wpGoals target goal).mp onTarget
      have silent := (checkIncompleteItems_eq_nil_iff inputs).mp empty
      rcases condition with leaves | visible
      · exact absurd leaves silent
      · exact proved_of_noGap inputs silent goal member (by simp [placed]) (visible goal member)
    · simp [empty]

/-- EVA established this postcondition. -/
def establishedRow : Json :=
  .obj [("key", .str "#p1"), ("kind", .str "ensures"), ("descr", .str "Post-condition"),
    ("status", .str "valid")]

/-- The prover of WP timed out on the goal of the established postcondition. -/
def maskedGoal : Json :=
  enrichGoalWithPropertyStatus
    (addStatusFields (.obj [("wpo", .str "typed_f_ensures"), ("property", .str "#p1"),
      ("fct", .str "f"), ("name", .str "Post-condition"), ("status", .str "TIMEOUT")]))
    (propertyStatusMap [establishedRow])

/-- Both analyses of this check completed. -/
def maskedGoalCheck : CheckInputs where
  rte := none
  reload := .obj [("ok", .bool true)]
  eva := .obj [("ok", .bool true), ("computation_state", .str "computed")]
  evaAlarms := .arr [addStatusFields establishedRow]
  wp := .obj [("ok", .bool true), ("drained", .bool true)]
  wpGoals := .arr [maskedGoal]
  wanted := .both

/-- The check has no entry and its functional target does not hold. -/
theorem not_verdictsAgree :
    ¬ ∀ [UnicodeTables] (inputs : CheckInputs),
      FlatImpliesSplit inputs ∧ ∀ incomplete, SplitImpliesPlaced inputs.wpGoals incomplete := by
  intro agrees
  let tables : UnicodeTables := .ascii
  have silent : checkIncompleteItems maskedGoalCheck = [] := by rfl
  have counted : ((establishedByTarget maskedGoalCheck.wpGoals
      (checkIncompleteItems maskedGoalCheck)).index "functional").index "goals" = .num 1 := by rfl
  have stuck : ((establishedByTarget maskedGoalCheck.wpGoals
      (checkIncompleteItems maskedGoalCheck)).index "functional").index "holds" =
        .bool false := by rfl
  have holds := (agrees maskedGoalCheck).1 silent .functional (by
    rw [VerificationTarget.text, counted]
    simp)
  rw [VerificationTarget.text, stuck] at holds
  simp at holds

end FramaCMcp.TargetVerdict
