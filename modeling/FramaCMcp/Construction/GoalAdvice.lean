/-
This file builds the goal list with its advice and the summary of a list.
-/

import FramaCMcp.Construction.EvidenceGates
import FramaCMcp.Foundation.JsonValue

namespace FramaCMcp.GoalAdvice

open EvidenceGates Goals Status Verdicts WpClass

/-- Frama-C sends each goal as an object, and only the server classifies it. -/
structure GoalRow where
  fields : List (String × Json)
  unclassified : fields.lookup "failure_classification" = none

def GoalRow.json (row : GoalRow) : Json := .obj row.fields

/-- The unproved goals are those of every other status. -/
def goalStatusMatches (goalStatus filter : String) : Bool :=
  if Text.eqIgnoreAsciiCase filter "unproved" then !isProved goalStatus
  else Text.eqIgnoreAsciiCase goalStatus filter

def isSelected (scopeMarker status : Option String) (goal : Json) : Bool :=
  (scopeMarker.all fun marker => (goal.index "scope").asStr == some marker) &&
    status.all (goalStatusMatches ((goal.index "status").asStr.getD ""))

def goalDependencyRow (marker : String) (dependency : Json) : Json :=
  let normalized := normalizedOrDerived dependency
  .obj [("source", .str "wp_goal"), ("property", .str marker),
    ("raw_status", .str ((rawStatus dependency).getD "unknown")),
    ("normalized_status", .str normalized),
    ("counts_as_progress", .bool (statusCountsAsProgress normalized)),
    ("vacuous", .bool (statusIsVacuous normalized)),
    ("requires_hypotheses", .bool (statusRequiresHypotheses normalized))]

def existingHypotheses (goal : Json) : List String :=
  (((goal.get "hypotheses").bind Json.asArray).getD []).filterMap fun item =>
    (item.get "property").bind Json.asStr

/-- A dependency that is a hypothesis already is passed over. -/
def goalDependencies (goal : Json) (deps : List Json) (goals : HashMap Json) : List Json :=
  deps.filterMap fun dep => dep.asStr.bind fun marker =>
    if (existingHypotheses goal).contains marker then none
    else (goals.lookup marker).map (goalDependencyRow marker)

def extendHypotheses (goal : Json) (rows : List Json) : Json :=
  match goal.get "hypotheses" with
  | none => goal.insert "hypotheses" (.arr rows)
  | some (.arr existing) => goal.insert "hypotheses" (.arr (existing ++ rows))
  | some _ => goal

def enrichGoalWithGoalDependencies (goal : Json) (goals : HashMap Json) : Json :=
  match (goal.get "deps").bind Json.asArray with
  | none => goal
  | some deps =>
      let rows := goalDependencies goal deps goals
      if rows.isEmpty then goal
      else
        let listed := extendHypotheses goal rows
        if rows.any hypothesisBlocks then
          (((listed.insert "counts_as_progress" (.bool false)).insert
            "requires_hypotheses" (.bool true)).insert "vacuous" (.bool true)).insert
            "vacuity_reason" (.str ("The WP goal is proved only under at least one non-progress " ++
              "WP goal dependency"))
        else listed

/-- The label of a goal decides its id, so it is attached first. -/
def finishGoal [UnicodeTables] [Sha256] (goal : Json) (goalsByMarker : HashMap Json)
    (stableScope : Option String) : Json :=
  let depended := enrichGoalWithGoalDependencies goal goalsByMarker
  let classified := classifyWpGoal depended
  let kinded := depended.insert "goal_kind" (.str classified.1)
  let labelled := match classified.2 with
    | some label => kinded.insert "hash_label" (.str label)
    | none => kinded
  enrichGoalStableId labelled classified.1 stableScope

def proofreadWhyProblem (category goalKind : String) : String :=
  match category with
  | "rte" => "The runtime-error obligation is still open. When the goal carries a predicate, that " ++
      "names which check it is; when it carries none, context \x7bwant: [\"rte_obligations\"]\x7d " ++
      "is where to look."
  | "timeout" => "The prover timed out before proving this obligation."
  | "internal_error" => "Frama-C or WP reported an internal failure for this obligation."
  | "unsupported_predicate" => "The proof uses logic that WP could not handle."
  | "callee_requires_too_strict" => "The caller has not established the callee precondition."
  | "callee_contract_too_weak" =>
      "The callee contract does not expose enough postcondition information."
  | "incomplete_behavior_partition" => "WP reported an open behavior partition obligation."
  | "weak_loop_assigns" => "The loop frame does not cover the writes WP must reason about."
  | "weak_loop_variant" => "The loop termination variant is still unproved."
  | "termination_unproved" => "The function's termination obligation is still unproved."
  | "weak_loop_invariant" =>
      "The loop invariant does not establish or preserve the needed property."
  | "bad_assigns" => "The assigns frame does not match the writes WP observes."
  | "weak_ensures" => "The postcondition is still unproved for this function."
  | "missing_requires" => "The precondition is too weak for this proof obligation."
  | _ =>
      if Text.startsWith goalKind "rte_" then "The runtime-error obligation is still open."
      else "WP did not prove this obligation."

structure SplitClassification where
  perGoal : Json
  key : String
  advice : Json

/-- The advice depends on the category and the kind of a goal. The rest is the goal's own. -/
def splitGoalClassification (classification : Json) : SplitClassification :=
  let category := ((classification.get "category").bind Json.asStr).getD ""
  let goalKind := ((classification.get "goal_kind").bind Json.asStr).getD ""
  let key := category ++ ":" ++ goalKind
  let nextAction := match classification.index "next_action" with
    | .obj fields => .obj (Json.swapRemove "runtime_check_suggestion" fields)
    | other => other
  { perGoal := .obj [("category", classification.index "category"),
      ("failure_kind", classification.index "failure_kind"),
      ("confidence", classification.index "confidence"), ("status", classification.index "status"),
      ("normalized_status", classification.index "normalized_status"),
      ("goal_kind", classification.index "goal_kind"),
      ("evidence", classification.index "evidence"), ("next_action", nextAction),
      ("wp_timeout_triage", classification.index "wp_timeout_triage"), ("advice_key", .str key)]
    key := key
    advice := .obj [("category", classification.index "category"),
      ("goal_kind", classification.index "goal_kind"),
      ("why_problem", .str (proofreadWhyProblem category goalKind)),
      ("suggested_fix", (((((classification.get "proofread_report").bind fun report =>
        report.get "findings").bind Json.asArray).bind List.head?).bind fun finding =>
          finding.get "suggested_fix").getD .null),
      ("runtime_check_suggestion", classification.index "runtime_check_suggestion"),
      ("semantic_verdict", classification.index "semantic_verdict")] }

section GoalList

-- The failure of a goal is classified elsewhere.
variable (classifyWpFailureFromGoal : Json → Json)

/-- The first goal of each key carries the advice. The carried keys come from the goals before. -/
def adviseGoals (adviceCarried : List String) : List Json → List Json
  | [] => []
  | goal :: rest =>
      if goalNeedsFailureClassification goal then
        let split := splitGoalClassification (classifyWpFailureFromGoal goal)
        if adviceCarried.contains split.key then
          goal.insert "failure_classification" split.perGoal :: adviseGoals adviceCarried rest
        else
          goal.insert "failure_classification" (split.perGoal.insert "advice" split.advice) ::
            adviseGoals (split.key :: adviceCarried) rest
      else goal :: adviseGoals adviceCarried rest

/-- This is the list of the selected goals, each with its property, its dependencies and its id. -/
def finishedGoals [UnicodeTables] [Sha256] (goals : List GoalRow) (properties : List Json)
    (scopeMarker stableScope status : Option String) : List Json :=
  let identified := goals.map fun row => addIdentityFields row.json
  (identified.filter (isSelected scopeMarker status)).map fun goal =>
    finishGoal
      (enrichGoalWithPropertyStatus (addIdentityFields goal) (propertyStatusMap properties))
      (propertyStatusMap identified) stableScope

def wpGoalsPayload [UnicodeTables] [Sha256] (goals : List GoalRow) (properties : List Json)
    (scopeMarker stableScope status : Option String) : Json :=
  .arr (adviseGoals classifyWpFailureFromGoal []
    (finishedGoals goals properties scopeMarker stableScope status))

end GoalList

def keptEntries (entries : List Json) (keep : Json → Bool) (previewItems : Nat) : List Json :=
  (entries.filter keep).take previewItems

def bucketCounts (entries : List Json) (bucket : Json → String) : OrderedMap String Nat :=
  entries.foldl (fun counts entry => counts.modify (bucket entry) 0 Nat.succ) OrderedMap.empty

def summarizeEntries (entries : List Json) (keep : Json → Bool) (bucket : Json → String)
    (previewItems : Nat) : Json :=
  let kept := keptEntries entries keep previewItems
  .obj [("total", .num entries.length),
    ("counts", .obj ((bucketCounts entries bucket).entries.map fun entry =>
      (entry.1, .num entry.2))),
    ("shown", .num kept.length), ("omitted", .num ((entries.length - kept.length : Nat) : Int)),
    ("needing_attention", .num (entries.countP keep)), ("entries", .arr kept)]

/-- Nothing is summarized where nothing ran. -/
def summarizeUnlessSkipped (value : Json) (keep : Json → Bool) (bucket : Json → String)
    (previewItems : Nat) : Json :=
  if value.isNull then .null
  else summarizeEntries (value.asArray.getD []) keep bucket previewItems

def goalSummaryBucket (goal : Json) : String :=
  ((goal.get "goal_kind").bind Json.asStr).getD "unknown" ++ "/" ++
    ((goal.get "normalized_status").bind Json.asStr).getD "unknown"

end FramaCMcp.GoalAdvice
