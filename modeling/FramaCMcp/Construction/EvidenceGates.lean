/-
This file collects the gaps that the evidence of one check leaves.
-/

import FramaCMcp.Construction.CheckGaps
import FramaCMcp.Construction.WpResponse

namespace FramaCMcp.EvidenceGates

open Status Verdicts CheckGaps Session WpSettings WpResponse

/-- These codes name the gaps of the run and of its messages. -/
inductive EvidenceCode where
  | wpBackendAnomaly | wpGoalsChangedUnderCheck
  | smokeTestUnchecked | smokeTestFailed
  | rteReduced | checkNarrowedByProp | wpMessagesTruncated
  | wpVerificationSkipped | wpAnnotationSkipped | wpUnsoundEncoding | generatedCalleeSpec
  | wpWeakenedModel | wpMemoryModelHypothesis | wpMemoryModelUnchecked
  deriving DecidableEq

def EvidenceCode.text : EvidenceCode → String
  | .wpBackendAnomaly => "WP_BACKEND_ANOMALY"
  | .wpGoalsChangedUnderCheck => "WP_GOALS_CHANGED_UNDER_CHECK"
  | .smokeTestUnchecked => "SMOKE_TEST_UNCHECKED"
  | .smokeTestFailed => "SMOKE_TEST_FAILED"
  | .rteReduced => "RTE_REDUCED"
  | .checkNarrowedByProp => "CHECK_NARROWED_BY_PROP"
  | .wpMessagesTruncated => "WP_MESSAGES_TRUNCATED"
  | .wpVerificationSkipped => "WP_VERIFICATION_SKIPPED"
  | .wpAnnotationSkipped => "WP_ANNOTATION_SKIPPED"
  | .wpUnsoundEncoding => "WP_UNSOUND_ENCODING"
  | .generatedCalleeSpec => "GENERATED_CALLEE_SPEC"
  | .wpWeakenedModel => "WP_WEAKENED_MODEL"
  | .wpMemoryModelHypothesis => "WP_MEMORY_MODEL_HYPOTHESIS"
  | .wpMemoryModelUnchecked => "WP_MEMORY_MODEL_UNCHECKED"

/-- Each entry starts with its code and its reason. -/
def gap (code : EvidenceCode) (reason : Json) (rest : List (String × Json)) : Json :=
  .obj (("code", .str code.text) :: ("reason", reason) :: rest)

def codeOf (gap : Json) : Option String := (gap.get "code").bind Json.asStr

def textField (message : Json) (name : String) : String := ((message.get name).bind Json.asStr).getD ""

/-- The text reports that Why3 gave up. It is in lower case. -/
def why3Aborted (text : String) : Bool :=
  Text.contains text "why3" &&
    (Text.contains text "anomaly" || Text.contains text "invalid_argument" ||
      Text.contains text "internal error" || Text.contains text "fatal error")

/-- The message stream tells of an abort that no goal record names. -/
def wpBackendDiagnosis (messages : List Json) (model : Option String) : Json :=
  let lowered (message : Json) : String := Text.toAsciiLowercase (textField message "message")
  let anomalyCount := messages.countP fun message => why3Aborted (lowered message)
  let castWarned := messages.any fun message =>
    Text.contains (lowered message) "cast with incompatible pointer"
  let nocast := model.any fun model => Text.contains (Text.toAsciiLowercase model) "nocast"
  if anomalyCount = 0 then .null
  else
    let found : String × String :=
      if nocast && castWarned then
        ("why3_anomaly_with_pointer_cast",
          "Why3 aborted, so no prover answered these goals and their FAILED status is not a " ++
            "verdict on the C code or the ACSL. WP also warned about casts between incompatible " ++
            "pointer types at the lines below, and the model in force refuses casts. Re-run " ++
            "under Typed+cast before changing an annotation: an anomaly is not an unprovable goal.")
      else
        ("why3_anomaly",
          "Why3 aborted, so no prover answered these goals and their FAILED status is not a " ++
            "verdict on the C code or the ACSL. Establish the toolchain versions before changing " ++
            "an annotation.")
    .obj [("kind", .str found.1), ("model", Json.ofText? model), ("reason", .str found.2),
      ("anomaly_count", .num anomalyCount)]

def statusIsFailed (status : String) : Bool := Text.eqIgnoreAsciiCase status "failed"

def goalNeedsFailureClassification (goal : Json) : Bool :=
  !ownStatusIsProved goal || goalIsVacuouslyProved goal

def wpBackendAnomalyLeftGoalUnjudged (diagnosis goals : Json) : Bool :=
  diagnosis.isObject &&
    ((goals.asArray.getD []).filter goalNeedsFailureClassification).any fun goal =>
      (ownStatus goal).any statusIsFailed

def backendAnomalyGaps (diagnosis goals : Json) : List Json :=
  if wpBackendAnomalyLeftGoalUnjudged diagnosis goals then
    [gap .wpBackendAnomaly (diagnosis.index "reason") [("kind", diagnosis.index "kind"),
      ("model", diagnosis.index "model"), ("anomaly_count", diagnosis.index "anomaly_count")]]
  else []

/-- The run of a scoped check proves more goals than the check reads back. -/
def functionScoped (wp : Json) : Bool :=
  ((wp.pointer ["effective_wp_config", "functions"]).bind Json.asArray).any fun functions =>
    !functions.isEmpty

/-- The goals were read after the run had let go of its lock. -/
def goalsChangedGaps (wanted : WantedAnalyses) (narrowedByProp : Option String)
    (wp wpGoals : Json) : List Json :=
  if wanted.wp && narrowedByProp.isNone && !functionScoped wp then
    match (wp.pointer ["measurement", "goals"]).bind Json.asU64,
      wpGoals.asArray.map List.length with
    | some measured, some readBack =>
        if measured ≠ readBack then
          [gap .wpGoalsChangedUnderCheck
            (.str ("The proof run produced " ++ toString measured ++ " goals and " ++
              toString readBack ++ " were read back, so the goal table changed between the two."))
            [("run_goals", .num measured), ("read_back_goals", .num readBack)]]
        else []
    | _, _ => []
  else []

/-- A probe of another kind is counted apart. -/
def kindCount (detail : List Json) (kind : String) : Json :=
  .num (detail.countP fun entry => (entry.index "kind").isText kind)

/-- A probe without a summary answers nothing. -/
def smokeTestGaps (requested : Bool) (wp : Json) : List Json :=
  if !requested then []
  else
    match (wp.get "smoke_probe").filter fun probe =>
        (probe.get "ran").bind Json.asBool == some true with
    | none =>
        [gap .smokeTestUnchecked
          (.str ((((wp.get "smoke_probe").bind fun probe => probe.get "reason").bind
            Json.asStr).getD "WP did not complete, so no smoke probe ran")) []]
    | some probe =>
        let failed := ((probe.get "failed").bind Json.asArray).getD []
        let passed := (probe.get "passed").bind Json.asU64
        match (probe.get "total").bind Json.asU64 with
        | none =>
            [gap .smokeTestUnchecked (.str ("The smoke probe ran and WP printed no smoke " ++
              "summary, so no smoke goal was generated and whether the specification is vacuous " ++
              "is unanswered.")) []]
        | some total =>
            let summaryFailed := passed.elim 0 fun passed => total - passed
            if failed.isEmpty && summaryFailed = 0 then []
            else
              let detail := (probe.get "failed_detail").bind Json.asArray
              [gap .smokeTestFailed (.str ("WP proved " ++
                  toString (max failed.length summaryFailed) ++
                  " smoke goal(s), so part of what was proved holds over no execution."))
                ([("failed", .arr failed), ("passed", passed.elim .null fun passed => .num passed),
                  ("total", .num total)] ++
                  detail.elim [] fun detail =>
                    [("by_kind", .obj [("contract_vacuous", kindCount detail "contract_vacuous"),
                        ("unreachable_code", kindCount detail "unreachable_code"),
                        ("unclassified", kindCount detail "unclassified")]),
                      ("failed_detail", .arr detail)])]

/-- These gaps come from what the call declined. -/
def withheldByRequestGaps (unsignedSkipped rte : Bool) (prop : Option String) : List Json :=
  (if rte && unsignedSkipped then
    [gap .rteReduced (.str ("RTE ran without the unsigned overflow and downcast checks, so " ++
      "unsigned wraparound and narrowing were not checked.")) []]
  else []) ++
  prop.elim [] fun prop =>
    [gap .checkNarrowedByProp (.str ("WP ran under a prop filter, so only the selected " ++
      "properties were attempted and this verdict does not cover the rest."))
      [("prop", .str prop)]]

def messagesTruncatedGaps (truncated : Bool) : List Json :=
  if truncated then
    [gap .wpMessagesTruncated (.str ("The analyzer's message stream was not read to the end, so " ++
      "the gates derived from it cannot distinguish a clean run from an unread one.")) []]
  else []

/-- The first text that fits decides the code. -/
def messageCode (message : Json) : Option EvidenceCode :=
  let text := textField message "message"
  let plugin := textField message "plugin"
  if plugin = "wp" ∧ Text.eqIgnoreAsciiCase (textField message "kind") "error" ∧
      Text.contains text "skipped verification" then
    some .wpVerificationSkipped
  else if plugin = "wp" ∧ Text.contains text "not yet supported (skipped)" then
    some .wpAnnotationSkipped
  else if plugin = "wp" ∧ (Text.contains text "might be unsound" ∨
      Text.contains text "interpreted as reads nothing") then
    some .wpUnsoundEncoding
  else if plugin = "kernel" ∧ textField message "category" = "annot:missing-spec" ∧
      Text.contains text "Neither code nor specification for function" then
    some .generatedCalleeSpec
  else none

/-- A line ends before its line feed, and one carriage return there is no part of it. -/
def firstLine (text : String) : String :=
  let line := text.toList.takeWhile (· ≠ '\n')
  if line.length < text.toList.length ∧ line.getLast? = some '\r' then String.ofList line.dropLast
  else String.ofList line

/-- One finding has every place where its message was printed. -/
structure MessageFinding where
  code : EvidenceCode
  reason : String
  message : String
  locations : List Json

def MessageFinding.toJson (finding : MessageFinding) : Json :=
  gap finding.code (.str finding.reason)
    [("message", .str finding.message), ("locations", .arr finding.locations)]

def addLocation (source : Option Json) (locations : List Json) : List Json :=
  match source with
  | some source => if locations.any source.eqv then locations else locations ++ [source]
  | none => locations

/-- The message joins the first finding of its code and first line. -/
def recordMessage (code : EvidenceCode) (text : String) (source : Option Json) :
    List MessageFinding → List MessageFinding
  | [] => [⟨code, firstLine text, text, addLocation source []⟩]
  | finding :: findings =>
      if finding.code = code ∧ finding.reason = firstLine text then
        { finding with locations := addLocation source finding.locations } :: findings
      else finding :: recordMessage code text source findings

def messageFindings (messages : List Json) : List MessageFinding :=
  messages.foldl
    (fun findings message =>
      match messageCode message with
      | none => findings
      | some code =>
          recordMessage code (textField message "message")
            ((message.get "source").filter fun source => !source.isNull) findings)
    []

/-- These selectors give up the semantics of C. -/
def weakeningModelSelectors (model : Option String) : List String :=
  let alternatives := model.elim [] fun model => model.toList.splitOn ','
  let selectors := alternatives.flatMap fun alternative => (alternative.splitOn '+').drop 1
  let lowered := selectors.map fun selector =>
    Text.toAsciiLowercase (String.ofList (Line.trim selector))
  (lowered.filter fun selector => ["cast", "nat", "real"].contains selector).map ("+" ++ ·)

def wpMessageGaps (messages : List Json) (model : Option String) : List Json :=
  let weakenings := weakeningModelSelectors model
  (messageFindings messages).map MessageFinding.toJson ++
    if weakenings = [] then []
    else
      [gap .wpWeakenedModel (.str ("This run's memory model uses " ++ Text.join weakenings ", " ++
        ", which departs from C semantics."))
        [("model", Json.ofText? model), ("selectors", .arr (weakenings.map .str))]]

def probeAbsent (reason : String) (nothingWasProved : Bool) : Json :=
  .obj [("ran", .bool false), ("reason", .str reason),
    ("nothing_was_proved", .bool nothingWasProved), ("hypotheses", .arr [])]

/-- The run answers what the model assumed. Each other answer says why there is none. -/
def memoryModelProbe (wanted : WantedAnalyses) (wp : Json) : Json :=
  if !wanted.wp then probeAbsent "check did not run WP" true
  else if (wp.get "ok").bind Json.asBool == some false then probeAbsent "WP did not complete" true
  else
    ((wp.get "memory_model_probe").filter fun probe => !probe.isNull).getD
      (probeAbsent "the WP run reported no memory-model probe" false)

def hypothesisEntries (probe : Json) : List Json :=
  ((probe.get "hypotheses").bind Json.asArray).getD []

def parsedHypothesisEntries (probe : Json) : List Json :=
  (hypothesisEntries probe).filter fun entry => (entry.get "function").any fun name => !name.isNull

/-- The sum of the release build wraps. -/
def unparsedHypothesisWarnings (probe : Json) : Nat :=
  ((hypothesisEntries probe).filterMap fun entry =>
    (entry.get "unparsed_warning_count").bind Json.asU64).sum % 2 ^ 64

def probeRan (probe : Json) : Bool := (probe.get "ran").bind Json.asBool == some true

def hypothesisSample : Nat := 20

def memoryModelHypothesisGap (probe : Json) : Option Json :=
  let parsed := parsedHypothesisEntries probe
  if !probeRan probe || parsed.isEmpty then none
  else
    some (gap .wpMemoryModelHypothesis (.str ("WP's memory model assumed these separations to " ++
        "discharge this run's goals, and emitted no obligation for any of them. A goal reported " ++
        "valid here is valid only for callers that satisfy them."))
      [("function_count", .num parsed.length), ("functions", .arr (parsed.take hypothesisSample)),
        ("functions_truncated", .bool (decide (hypothesisSample < parsed.length))),
        ("unparsed_warning_count", .num (unparsedHypothesisWarnings probe)),
        ("read_from", probe.index "read_from")])

def memoryModelUncheckedGap (probe : Json) (wanted : WantedAnalyses) : Option Json :=
  let unparsed := unparsedHypothesisWarnings probe
  if !wanted.wp then none
  else if probeRan probe then
    if unparsed = 0 ∨ parsedHypothesisEntries probe ≠ [] then none
    else
      some (gap .wpMemoryModelUnchecked (.str ("WP printed " ++ toString unparsed ++
          " memory-model hypothesis warning(s) whose wording this server could not parse, so the " ++
          "separations it assumed are unknown rather than absent. A goal reported valid here is " ++
          "not evidence that the model assumed nothing."))
        [("probe_reason", .str "the probe ran and could not parse what WP printed"),
          ("unparsed_warning_count", .num unparsed), ("exit_code", probe.index "exit_code")])
  else
    ((probe.get "reason").bind Json.asStr).bind fun reason =>
      if ((probe.get "nothing_was_proved").bind Json.asBool).getD false then none
      else
        some (gap .wpMemoryModelUnchecked (.str ("WP's memory-model hypotheses are unknown for " ++
            "this run: the probe could not read them (" ++ reason ++ "). A goal reported valid " ++
            "here is not evidence that the model assumed nothing."))
          [("probe_reason", .str reason), ("exit_code", probe.index "exit_code")])

structure RunEvidenceInputs where
  wanted : WantedAnalyses
  requestedSmoke : Bool
  rte : Bool
  /-- The load skipped the checks of unsigned arithmetic. -/
  unsignedRteSkipped : Bool
  narrowedByProp : Option String
  messages : List Json
  messagesTruncated : Bool
  wp : Json
  wpGoals : Json

def runEvidenceGates (input : RunEvidenceInputs) : List Json :=
  let model := (input.wp.pointer ["effective_wp_config", "model"]).bind Json.asStr
  let diagnosis := wpBackendDiagnosis input.messages model
  let probe := memoryModelProbe input.wanted input.wp
  backendAnomalyGaps diagnosis input.wpGoals ++
    goalsChangedGaps input.wanted input.narrowedByProp input.wp input.wpGoals ++
    smokeTestGaps (input.wanted.wp && input.requestedSmoke) input.wp ++
    withheldByRequestGaps input.unsignedRteSkipped input.rte
      (input.narrowedByProp.filter fun _ => input.wanted.wp) ++
    messagesTruncatedGaps input.messagesTruncated ++
    wpMessageGaps input.messages model ++
    (memoryModelHypothesisGap probe).toList ++
    (memoryModelUncheckedGap probe input.wanted).toList

/-- This is one check of the loaded project with what its proof run meets. -/
structure MainCheck where
  wanted : WantedAnalyses
  function : Option String
  /-- The profile of the check declares these functions. -/
  profile : Option (List String)
  build : Nat
  answers : TableAnswers
  state : SessionState
  env : WpEnvironment
  /-- The run resolves its functions itself. -/
  run : WpRunResponse
  goals : List Json
  records : RunRecords
  requestedSmoke : Bool
  rte : Bool
  unsignedRteSkipped : Bool
  messages : List Json
  messagesTruncated : Bool
  wpGoals : Json

namespace MainCheck

/-- The payload is the response of the run, and null where the check wants no proofs. -/
def wp (check : MainCheck) : Option Json :=
  if check.wanted.wp then
    (requestedFunctions (check.function.map fun function => [function]) check.profile).bind
      fun functions =>
        (resolveWpTargets check.build check.answers check.state functions).map fun targets =>
          mainRunResponse check.env
            { check.run with
              functions := targets.2.map fun info => info.name
              goals := some check.goals }
            check.records
  else some .null

def gaps (check : MainCheck) : Option (List Json) :=
  check.wp.map fun wp =>
    runEvidenceGates
      { wanted := check.wanted, requestedSmoke := check.requestedSmoke, rte := check.rte,
        unsignedRteSkipped := check.unsignedRteSkipped, narrowedByProp := check.run.params.prop,
        messages := check.messages, messagesTruncated := check.messagesTruncated, wp,
        wpGoals := check.wpGoals }

end MainCheck

end FramaCMcp.EvidenceGates
