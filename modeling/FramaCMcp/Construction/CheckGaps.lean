/-
This file collects the gaps that one check leaves in its payloads, judges its property rows, goals
and findings, and splits the verdict by verification target.
-/

import FramaCMcp.Construction.Goals

namespace FramaCMcp.CheckGaps

open Status Goals Verdicts

/-- These codes name the gaps of the collected payloads. -/
inductive IncompleteCode where
  | rteDisabled | evaNotRun | wpNotRun | wpStillRunning
  | alarmNotValid | goalNotValid | proverTimeout
  | propertyDead | propertyVacuous | propertyDisproved | propertyInconsistent
  | lemmaNotProved | assumedValid | assumedCalleeContract | indirectCallUnresolved
  | unconstrainedAssigns | resultUnconstrained | unprovedAssumption | validUnderHyp
  | evaNotRequested | wpNotRequested
  | astAsmClobber | astUnknownAttribute | astUnclassifiedWarning
  | astParseDiagnosticsUnavailable | compileFlagsDropped
  deriving DecidableEq, Repr

def IncompleteCode.text : IncompleteCode → String
  | .rteDisabled => "RTE_DISABLED"
  | .evaNotRun => "EVA_NOT_RUN"
  | .wpNotRun => "WP_NOT_RUN"
  | .wpStillRunning => "WP_STILL_RUNNING"
  | .alarmNotValid => "ALARM_NOT_VALID"
  | .goalNotValid => "GOAL_NOT_VALID"
  | .proverTimeout => "PROVER_TIMEOUT"
  | .propertyDead => "PROPERTY_DEAD"
  | .propertyVacuous => "PROPERTY_VACUOUS"
  | .propertyDisproved => "PROPERTY_DISPROVED"
  | .propertyInconsistent => "PROPERTY_INCONSISTENT"
  | .lemmaNotProved => "LEMMA_NOT_PROVED"
  | .assumedValid => "ASSUMED_VALID"
  | .assumedCalleeContract => "ASSUMED_CALLEE_CONTRACT"
  | .indirectCallUnresolved => "INDIRECT_CALL_UNRESOLVED"
  | .unconstrainedAssigns => "UNCONSTRAINED_ASSIGNS"
  | .resultUnconstrained => "RESULT_UNCONSTRAINED"
  | .unprovedAssumption => "UNPROVED_ASSUMPTION"
  | .validUnderHyp => "VALID_UNDER_HYP"
  | .evaNotRequested => "EVA_NOT_REQUESTED"
  | .wpNotRequested => "WP_NOT_REQUESTED"
  | .astAsmClobber => "AST_ASM_CLOBBER"
  | .astUnknownAttribute => "AST_UNKNOWN_ATTRIBUTE"
  | .astUnclassifiedWarning => "AST_UNCLASSIFIED_WARNING"
  | .astParseDiagnosticsUnavailable => "AST_PARSE_DIAGNOSTICS_UNAVAILABLE"
  | .compileFlagsDropped => "COMPILE_FLAGS_DROPPED"

/-- Each entry starts with its code and its reason. -/
def gap (code : IncompleteCode) (reason : Json) (rest : List (String × Json)) : Json :=
  .obj (("code", .str code.text) :: ("reason", reason) :: rest)

/-- These flags name the analyses of one check. -/
structure WantedAnalyses where
  eva : Bool
  wp : Bool

def WantedAnalyses.both : WantedAnalyses := ⟨true, true⟩

/-- These are the payloads that one check collects. -/
structure CheckInputs where
  rte : Option Bool
  reload : Json
  eva : Json
  evaAlarms : Json
  wp : Json
  wpGoals : Json
  wanted : WantedAnalyses

/-- The front end drops soundness with two categories. -/
def astSoundnessReason (category : String) : Option (IncompleteCode × String) :=
  if category = "kernel:asm:clobber" then
    some (.astAsmClobber, "Frama-C assumed inline assembly has no effects beyond its operands, " ++
      "so the analyzed statement is weaker than the compiled one.")
  else if category = "kernel:attrs:unknown" then
    some (.astUnknownAttribute, "Frama-C ignored an unknown attribute, so the analyzed " ++
      "declaration differs from the source.")
  else none

def warningCount (record : Json) : Nat := (record.index "count").asU64.getD 0

/-- A category with its own code is one entry. -/
def classifiedWarningGap (category : String) (record : Json) : Option Json :=
  if warningCount record = 0 then none
  else (astSoundnessReason category).map fun found =>
    gap found.1 (.str found.2) [("category", .str category),
      ("count", record.index "count"), ("count_unit", record.index "count_unit"),
      ("locations", record.index "locations"),
      ("locations_omitted", record.index "locations_omitted")]

/-- A category without a code or an exemption joins the aggregate. -/
def isUnclassifiedWarning (allowlist : List (String × String)) (category : String)
    (record : Json) : Bool :=
  warningCount record ≠ 0 && (astSoundnessReason category).isNone &&
    !allowlist.any fun allowed => allowed.1 == category

/-- This is the record of the parse in the reload payload. -/
def parseDiagnostics (reload : Json) : Json :=
  (reload.index "ast_reload_health").index "parse_diagnostics"

def astDiagnosticGaps (reload : Json) (allowlist : List (String × String)) : List Json :=
  match ((parseDiagnostics reload).index "unavailable").asStr,
    ((parseDiagnostics reload).index "categories").asObject with
  | some reason, _ =>
      [gap .astParseDiagnosticsUnavailable (.str ("This server has no record of what Frama-C's " ++
        "front end dropped while parsing, so nothing here says the analyzed program is the " ++
        "compiled one.")) [("detail", .str reason)]]
  | none, none => []
  | none, some categories =>
      let unclassified := categories.filter fun entry =>
        isUnclassifiedWarning allowlist entry.1 entry.2
      categories.filterMap (fun entry => classifiedWarningGap entry.1 entry.2) ++
        if unclassified.isEmpty then []
        else [gap .astUnclassifiedWarning (.str ("Frama-C emitted parse warnings in categories " ++
          "this server has not classified, so their effect on the analyzed program is unknown."))
          [("categories", .obj unclassified)]]

/-- No category is exempt. -/
def astWarningAllowlist : List (String × String) := []

/-- An unreadable database is not a flag. -/
def droppedFlags (reload : Json) : Option (List (String × Json)) :=
  ((reload.get "compilation_database_dropped_flags").bind Json.asObject).filter fun flags =>
    !flags.isEmpty && (flags.lookup "unreadable").isNone

def compileFlagsDroppedGap (reload : Json) : Option Json :=
  (droppedFlags reload).map fun dropped =>
    gap .compileFlagsDropped (.str ("The compilation database builds with flags that change what " ++
      "the program means, and Frama-C drops them on import, so the analyzed program differs " ++
      "from the compiled one.")) [("flags", .obj dropped)]

/-- The run decides which half of the check has no runtime-error annotations. -/
def wpCoveredRuntimeErrors (wp : Json) (wanted : WantedAnalyses) : Bool :=
  wanted.wp && (wp.pointer ["effective_wp_config", "rte"]).bind Json.asBool == some true

def rteDisabledReason (covered : Bool) : String :=
  if covered then
    "check loaded without RTE annotations, so EVA's alarms exclude implicit runtime-error " ++
      "checks. WP generated its own RTE obligations in place for this run, so the goals do cover " ++
      "them."
  else
    "check ran without RTE annotations, so absence of alarms/goals excludes implicit " ++
      "runtime-error checks."

def unrequestedAnalysisGaps (rte : Option Bool) (wp : Json) (wanted : WantedAnalyses) :
    List Json :=
  (if wanted.eva then [] else [gap .evaNotRequested
    (.str "check did not run EVA, so nothing here excludes the alarms it finds.") []]) ++
  (if wanted.wp then [] else [gap .wpNotRequested
    (.str "check did not run WP, so nothing here is a proof.") []]) ++
  (if rte = some false then
    [gap .rteDisabled (.str (rteDisabledReason (wpCoveredRuntimeErrors wp wanted))) []]
  else [])

def checkStepFailed (payload : Json) : Bool :=
  payload.isNull || (payload.get "ok").bind Json.asBool == some false

/-- An aborted computation shows in its state only. -/
def evaUnfinishedState (eva : Json) : Option String :=
  ((eva.get "computation_state").bind Json.asStr).filter fun state => state != "computed"

def evaIncomplete (inputs : CheckInputs) : Bool :=
  checkStepFailed inputs.reload || checkStepFailed inputs.eva ||
    checkStepFailed inputs.evaAlarms || (evaUnfinishedState inputs.eva).isSome

def wpStepFailed (inputs : CheckInputs) : Bool :=
  checkStepFailed inputs.reload || checkStepFailed inputs.wp || checkStepFailed inputs.wpGoals

/-- The poll of pending tasks reports that no task is left. -/
def wpDrained (wp : Json) : Bool := (wp.get "drained").bind Json.asBool == some true

/-- The first recorded error has priority over the computation state. -/
def evaError [UnicodeTables] (inputs : CheckInputs) : Json :=
  (inputs.eva.get "error" <|> inputs.evaAlarms.get "error" <|> inputs.reload.get "error" <|>
    (evaUnfinishedState inputs.eva).map fun state =>
      Json.str ("EVA computation state is " ++ Text.debug state ++ ", not \"computed\"")).getD .null

def wpError (inputs : CheckInputs) : Json :=
  (inputs.wp.get "error" <|> inputs.wpGoals.get "error" <|> inputs.reload.get "error").getD .null

def stepFailureGaps [UnicodeTables] (inputs : CheckInputs) : List Json :=
  (if inputs.wanted.eva && evaIncomplete inputs then
    [gap .evaNotRun (.str "EVA did not complete, so eva_alarms is not proof of no alarms.")
      [("error", evaError inputs)]]
  else []) ++
  (if inputs.wanted.wp then
    if wpStepFailed inputs then
      [gap .wpNotRun (.str "WP did not complete, so wp_goals is not proof of no goals.")
        [("error", wpError inputs)]]
    else if wpDrained inputs.wp then []
    else
      [gap .wpStillRunning (.str ("WP was still working when its goals were read, so wp_goals may " ++
        "be missing goals entirely.")) [("todo", inputs.wp.index "todo"),
        ("active", inputs.wp.index "active")]]
  else [])

end FramaCMcp.CheckGaps

namespace FramaCMcp.GoalGaps

open Status Goals Verdicts CheckGaps

/-- The first test that holds names the finding of a property row. -/
def propertyRowFinding (alarm wpGoals : Json) : Option (IncompleteCode × String) :=
  if propertyIsInconsistent alarm then
    some (.propertyInconsistent, "Frama-C consolidated contradictory statuses for this property, " ++
      "so the verdict cannot be trusted in either direction.")
  else if alarmIsUndischarged alarm then
    some (.alarmNotValid, "EVA reported a runtime-error alarm it could not discharge.")
  else if propertyIsDisprovedReachability alarm then
    some (.propertyDead, "EVA proved this code unreachable, so nothing proved about it constrains " ++
      "a run.")
  else if propertyIsUnprovedLemma alarm wpGoals then
    some (.lemmaNotProved, "WP assumes every lemma while discharging other goals, so an " ++
      "undischarged one makes the proofs around it worthless.")
  else if propertyIsDisproved alarm wpGoals then
    some (.propertyDisproved, "Frama-C disproved this property, and WP emits no goal for a " ++
      "property that already carries a status, so nothing downstream reports it.")
  else if propertyIsAssumedValid alarm then
    some (.assumedValid, "Frama-C recorded this property as valid by external assumption rather " ++
      "than by proof. WP uses it as a hypothesis everywhere without ever checking it.")
  else none

def propertyRowGap (wpGoals alarm : Json) : Option Json :=
  (propertyRowFinding alarm wpGoals).map fun found =>
    gap found.1 (.str found.2) [("property", .ofText? (valueMarker alarm)),
      ("descr", alarm.index "descr"), ("source_location", alarm.index "source_location"),
      ("status", .str (propertyNormalizedStatus alarm))]

def propertyRowGaps (evaAlarms wpGoals : Json) : List Json :=
  (evaAlarms.asArray.getD []).filterMap (propertyRowGap wpGoals)

/-- Each goal entry carries the identity of its goal. -/
def goalGap (code : IncompleteCode) (reason : String) (goal : Json) (status : String)
    (rest : List (String × Json)) : Json :=
  gap code (.str reason) (("stable_goal_id", goal.index "stable_goal_id") ::
    ("frama_c_goal_name", goal.index "frama_c_goal_name") ::
    ("goal_kind", goal.index "goal_kind") :: ("normalized_status", .str status) :: rest)

/-- This is the gap of a proved goal whose property has another verdict. -/
def provedGoalGap (goal : Json) (status : String) : Option Json :=
  if propertyIsDead goal then
    some (goalGap .propertyDead ("WP proved this goal, but its property sits in code EVA proved " ++
      "unreachable.") goal status
      [("property_status", goal.index "normalized_property_status")])
  else if statusIsVacuous (consolidatedVerdict goal) then
    some (goalGap .propertyVacuous ("WP proved this goal, but Frama-C discharged its property only " ++
      "under a hypothesis that cannot hold, so the proof holds over no execution.") goal status
      [("property_status", goal.index "normalized_property_status"),
        ("vacuity_reason", goal.index "vacuity_reason"),
        ("vacuity_dependency", goal.index "vacuity_dependency")])
  else if goalIsValidUnderHypotheses goal then
    some (goalGap .validUnderHyp ("WP proved this goal, but Frama-C consolidated its property as " ++
      "valid only under hypotheses that are not themselves established.") goal status
      [("property_status", goal.index "normalized_property_status"),
        ("hypotheses", goal.index "hypotheses")])
  else none

def lemmaMarkers (evaAlarms : Json) : List String :=
  ((evaAlarms.asArray.getD []).filter fun alarm => hasKind alarm "lemma").filterMap valueMarker

/-- A goal of a lemma is reported with the row of the lemma. -/
def goalIsOnLemma (evaAlarms goal : Json) : Bool :=
  (goalPropertyMarker goal).any (lemmaMarkers evaAlarms).contains

/-- The loop judges each goal past its two skips. -/
def goalIsJudged (evaAlarms goal : Json) : Bool :=
  !checkGoalCountsAsProgress goal && !goalIsOnLemma evaAlarms goal

def judgedGoalGaps (goal : Json) : List Json :=
  let status := (ownStatus goal).getD "unknown"
  if isProved status then (provedGoalGap goal status).toList
  else goalGap .goalNotValid "WP has a non-valid goal." goal status [] ::
    if statusIsTimeout status then
      [goalGap .proverTimeout "A WP prover timed out on this goal." goal status []]
    else []

def wpGoalGaps (evaAlarms wpGoals : Json) : List Json :=
  ((wpGoals.asArray.getD []).filter (goalIsJudged evaAlarms)).flatMap judgedGoalGaps

/-- The last judged goal stands for its obligation id. -/
def judgedGoals (evaAlarms wpGoals : Json) : HashMap Json :=
  HashMap.ofList (((wpGoals.asArray.getD []).filter (goalIsJudged evaAlarms)).filterMap fun goal =>
    (wpGoalIdentity goal).map fun wpo => (wpo, goal))

/-- A finding about an assumption is reported with the goal that was judged. -/
def unprovedAssumptionGap (judged : HashMap Json) (finding : Json) : Option Json :=
  (((finding.get "wpo").bind Json.asStr).bind judged.lookup).map fun goal =>
    gap .unprovedAssumption ((finding.get "why_problem").getD (.str ("WP assumes an unproved " ++
      "assertion or postcondition, so a goal reported valid may rest on it.")))
      [("function", finding.index "function"), ("stable_goal_id", goal.index "stable_goal_id"),
        ("frama_c_goal_name", finding.index "trigger"),
        ("goal_kind", finding.index "clause_or_goal_kind")]

/-- A finding about a function keeps the named fields. -/
def findingGap (code : IncompleteCode) (fallback : String) (finding : Json)
    (fields : List String) : Json :=
  gap code ((finding.get "message").getD (.str fallback))
    (("function", finding.index "function") :: fields.map fun field => (field, finding.index field))

def proofreadFindingGap (judged : HashMap Json) (finding : Json) : Option Json :=
  match (finding.get "category").bind Json.asStr with
  | some "unproved_assumption" => unprovedAssumptionGap judged finding
  | some "result_unconstrained" =>
      some (findingGap .resultUnconstrained
        "The contract bounds the result without determining it." finding
        ["result_range", "undetermined_results"])
  | some "unconstrained_assigns" =>
      some (findingGap .unconstrainedAssigns
        "The contract assigns a location no postcondition constrains." finding ["assigns_target"])
  | some "unresolved_call" =>
      some (gap .indirectCallUnresolved ((finding.get "message").getD
        (.str "A call names no callee, so WP assumed it could reach any function."))
        [("function", finding.index "function"),
          ("callee_expression", finding.index "callee_expression"),
          ("stmt_id", finding.index "stmt_id"),
          ("source_location", finding.index "source_location"),
          ("reports", .str "the call shape, not whether a calls clause is present")])
  | some "assumed_callee_contract" =>
      some (findingGap .assumedCalleeContract
        "WP relied on a direct callee contract with no finite assigns clause." finding
        ["callee", "source_location"])
  | _ => none

def proofreadFindings (wp : Json) : List Json :=
  (((wp.get "proofread_report").bind fun report => report.get "findings").bind
    Json.asArray).getD []

def proofreadFindingGaps (wp : Json) (judged : HashMap Json) : List Json :=
  (proofreadFindings wp).filterMap (proofreadFindingGap judged)

def checkIncompleteItems [UnicodeTables] (inputs : CheckInputs) : List Json :=
  astDiagnosticGaps inputs.reload astWarningAllowlist ++
    (compileFlagsDroppedGap inputs.reload).toList ++
    unrequestedAnalysisGaps inputs.rte inputs.wp inputs.wanted ++
    stepFailureGaps inputs ++
    propertyRowGaps inputs.evaAlarms inputs.wpGoals ++
    wpGoalGaps inputs.evaAlarms inputs.wpGoals ++
    proofreadFindingGaps inputs.wp (judgedGoals inputs.evaAlarms inputs.wpGoals)

end FramaCMcp.GoalGaps

namespace FramaCMcp.Established

open Status Goals CheckGaps

/-- The check reports these targets separately. -/
inductive VerificationTarget where
  | memorySafety | termination | functional
  deriving DecidableEq, Repr

def VerificationTarget.text : VerificationTarget → String
  | .memorySafety => "memory_safety"
  | .termination => "termination"
  | .functional => "functional"

def verificationTargets : List VerificationTarget := [.memorySafety, .termination, .functional]

/-- The id of an obligation names its target. -/
def goalTarget (wpo : String) : VerificationTarget :=
  if Text.contains wpo "_rte_" then .memorySafety
  else if isTerminatesGoal wpo || Text.contains wpo "_loop_variant" ||
      Text.contains wpo "_decreases" then .termination
  else .functional

def isSmoke (goal : Json) : Bool := (goal.index "smoke").isFlag true

/-- A goal without an id has no target. -/
def placement (goal : Json) : Option VerificationTarget :=
  if isSmoke goal then none else (goalIdAfterOwner goal).map goalTarget

def placedGoals (wpGoals : Json) : List (Json × VerificationTarget) :=
  (wpGoals.asArray.getD []).filterMap fun goal => (placement goal).map fun target => (goal, target)

def targetById (placed : List (Json × VerificationTarget)) : HashMap VerificationTarget :=
  HashMap.ofList (placed.filterMap fun entry =>
    (entry.1.index "stable_goal_id").asStr.map fun id => (id, entry.2))

/-- These entries belong to one goal. -/
def isGoalLevel (item : Json) : Bool :=
  (item.index "code").isText IncompleteCode.goalNotValid.text ||
    (item.index "code").isText IncompleteCode.proverTimeout.text

/-- This is the target of the goal that an entry names. -/
def placedItem (targets : HashMap VerificationTarget) (item : Json) : Option VerificationTarget :=
  (if isGoalLevel item then (item.index "stable_goal_id").asStr else none).bind targets.lookup

/-- An entry without a known goal blocks each target. -/
def blockedBy (targets : HashMap VerificationTarget) (item : Json) : List VerificationTarget :=
  match placedItem targets item with
  | some target => [target]
  | none => verificationTargets

def blocked (wpGoals : Json) (incomplete : List Json) : List VerificationTarget :=
  incomplete.flatMap (blockedBy (targetById (placedGoals wpGoals)))

def goalsOn (wpGoals : Json) (target : VerificationTarget) : List Json :=
  ((placedGoals wpGoals).filter fun entry => entry.2 == target).map Prod.fst

def openGoals (wpGoals : Json) (target : VerificationTarget) : List Json :=
  (goalsOn wpGoals target).filter fun goal => !ownStatusIsProved goal

def targetHolds (wpGoals : Json) (incomplete : List Json) (target : VerificationTarget) : Bool :=
  !(goalsOn wpGoals target).isEmpty && (openGoals wpGoals target).length == 0 &&
    !(blocked wpGoals incomplete).contains target

def targetReport (wpGoals : Json) (incomplete : List Json) (target : VerificationTarget) : Json :=
  .obj [("goals", .num (goalsOn wpGoals target).length),
    ("open", .num (openGoals wpGoals target).length),
    ("holds", .bool (targetHolds wpGoals incomplete target))]

def establishedByTarget (wpGoals : Json) (incomplete : List Json) : Json :=
  .obj (verificationTargets.map fun target =>
    (target.text, targetReport wpGoals incomplete target))

/-- The report keeps each target under its own name. -/
theorem index_establishedByTarget (wpGoals : Json) (incomplete : List Json)
    (target : VerificationTarget) :
    (establishedByTarget wpGoals incomplete).index target.text =
      targetReport wpGoals incomplete target := by
  cases target <;> rfl

end FramaCMcp.Established
