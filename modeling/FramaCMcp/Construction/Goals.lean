/-
This file gives the spellings of a verdict and the identity of a property or goal row, joins a goal
with the property table, gives the predicates that read one row and marks the instances that are
proved below an unproved one.
-/

import FramaCMcp.Foundation.HashMap
import FramaCMcp.Foundation.Json
import FramaCMcp.Foundation.Text
import FramaCMcp.Foundation.StableSort

namespace FramaCMcp.Status

/-- This is the verdict of the goal itself. -/
def ownStatus (row : Json) : Option String :=
  (row.get "normalized_status" <|> row.get "raw_status" <|> row.get "status").bind Json.asStr

/-- This is the spelling that Frama-C sent. -/
def rawStatus (row : Json) : Option String :=
  (row.get "raw_status" <|> row.get "status").bind Json.asStr

/-- Each run of other characters becomes one underscore. -/
def foldSpelling (raw : String) : String :=
  let letters := raw.toList.map fun letter => if letter.isAlphanum then letter.toLower else '_'
  Text.join (((letters.splitOn '_').filter fun part => !part.isEmpty).map String.ofList) "_"

/-- An unnamed spelling stays as it is. -/
def normalizeFramaCStatus (raw : String) : String :=
  match foldSpelling raw with
  | "valid_under_hyp" | "valid_under_hypothesis" => "valid_under_hyp"
  | "invalid_under_hyp" | "invalid_under_hypothesis" => "invalid_under_hyp"
  | "noresult" | "no_result" | "never_tried" => "noresult"
  | "" => "unknown"
  | other => other

/-- The present normalized verdict has priority. -/
def normalizedOrDerived (row : Json) : String :=
  ((row.get "normalized_status").bind Json.asStr).getD
    (normalizeFramaCStatus ((rawStatus row).getD "unknown"))

def statusCountsAsProgress (normalized : String) : Bool := normalized == "valid"

def statusRequiresHypotheses (normalized : String) : Bool :=
  normalized == "valid_under_hyp" || normalized == "invalid_under_hyp" ||
    normalized == "valid_under_false_hypothesis"

def statusIsVacuous (normalized : String) : Bool :=
  Text.endsWith normalized "_but_dead" || normalized == "valid_under_false_hypothesis"

def statusIsTimeout (status : String) : Bool := Text.eqIgnoreAsciiCase status "timeout"

def isProved (status : String) : Bool := Text.eqIgnoreAsciiCase status "valid"

/-- A missing verdict is not proved. -/
def ownStatusIsProved (row : Json) : Bool := (ownStatus row).any isProved

/-- These flags follow from one normalized verdict. -/
def insertStatusFlags (row : Json) (normalized : String) : Json :=
  ((row.insert "counts_as_progress" (.bool (statusCountsAsProgress normalized))).insert
    "vacuous" (.bool (statusIsVacuous normalized))).insert
    "requires_hypotheses" (.bool (statusRequiresHypotheses normalized))

/-- A row without a text verdict stays as it is. -/
def addStatusFields (row : Json) : Json :=
  match (row.get "status").bind Json.asStr with
  | none => row
  | some raw =>
      insertStatusFlags
        ((row.insert "raw_status" (.str raw)).insert "normalized_status"
          (.str (normalizeFramaCStatus raw)))
        (normalizeFramaCStatus raw)

/-- The default of a missing verdict is not a proved one. -/
theorem isProved_getD_unknown (row : Json) :
    isProved ((ownStatus row).getD "unknown") = ownStatusIsProved row := by
  unfold ownStatusIsProved
  cases ownStatus row with
  | none => rfl
  | some status => rfl

end FramaCMcp.Status

namespace FramaCMcp.Goals

open Status

/-- This is the first text among the marker fields. -/
def valueMarker (row : Json) : Option String :=
  ["key", "property", "prop", "marker", "id"].findSome? fun field =>
    (row.get field).bind Json.asStr

/-- This is the marker of the property that a goal discharges. -/
def goalPropertyMarker (goal : Json) : Option String :=
  (goal.get "property" <|> goal.get "property_marker").bind Json.asStr

/-- This is the obligation id of WP. -/
def wpGoalIdentity (goal : Json) : Option String :=
  (goal.get "wpo_id" <|> goal.get "wpo").bind Json.asStr

/-- A marker is kept where no function name is present. -/
def goalScopeKey (goal : Json) : String :=
  ((goal.get "fct" <|> goal.get "scope" <|> goal.get "function_marker").bind Json.asStr).getD ""

/-- A marker is not an owner. -/
def goalOwnerName (goal : Json) : Option String :=
  let owner := goalScopeKey goal
  if owner ≠ "" ∧ ¬ Text.startsWith owner "#" then some owner else none

/-- The underscore after the owner is kept. -/
def goalIdAfterOwner (goal : Json) : Option String :=
  (wpGoalIdentity goal).map fun id =>
    ((goalOwnerName goal).bind fun owner =>
      (Text.find id ("_" ++ owner ++ "_")).map fun offset =>
        Text.dropTo id (offset + owner.length + 1)).getD id

def isTerminatesGoal (name : String) : Bool :=
  Text.endsWith name "_terminates" || Text.contains name "_terminates_part"

def sourceLocation (row : Json) : Option Json :=
  (row.get "source").filter Json.isObject <|> (row.get "loc").filter Json.isObject

/-- The marker of each row is its key. -/
def propertyStatusMap (properties : List Json) : HashMap Json :=
  HashMap.ofList (properties.filterMap fun property =>
    (valueMarker property).map fun marker => (marker, property))

def insertAbsent? (row : Json) (key : String) : Option Json → Json
  | some value => row.insertAbsent key value
  | none => row

/-- The markers of a row are named where they are absent. -/
def addIdentityFields (row : Json) : Json :=
  let judged := addStatusFields row
  let text (field : String) : Option Json := ((judged.get field).bind Json.asStr).map Json.str
  let marked := insertAbsent? judged "property_marker" ((valueMarker judged).map Json.str)
  let named := insertAbsent? marked "wpo_id" ((wpGoalIdentity judged).map Json.str)
  let owned := insertAbsent? named "function_marker" (text "scope")
  let placed := insertAbsent? owned "kinstr_marker" (text "kinstr")
  insertAbsent? placed "source_location" (sourceLocation judged)

/-- The property row gives the goal its consolidated verdict, its place and its author. -/
def enrichWithProperty (goal : Json) (marker : String) (property : Json) : Json :=
  let raw := (rawStatus property).getD "unknown"
  let normalized := normalizedOrDerived property
  let named := (goal.insert "property" (.str marker)).insertAbsent "property_marker" (.str marker)
  let judged := insertStatusFlags
    ((named.insert "raw_property_status" (.str raw)).insert
      "normalized_property_status" (.str normalized)) normalized
  let placed := insertAbsent? judged "kinstr_marker"
    (((property.get "kinstr_marker" <|> property.get "kinstr").bind Json.asStr).map Json.str)
  let located := insertAbsent? placed "source_location"
    (property.get "source_location" <|> sourceLocation property)
  let stated := insertAbsent? located "predicate" (property.get "predicate")
  match property.get "origin" with
  | some origin => stated.insert "origin" origin
  | none => stated

/-- This is the row of one dependency of a goal. -/
def hypothesisRow (marker : String) (property : Json) : Json :=
  let normalized := normalizedOrDerived property
  .obj [("property", .str marker),
    ("raw_status", .str ((rawStatus property).getD "unknown")),
    ("normalized_status", .str normalized),
    ("counts_as_progress", .bool (statusCountsAsProgress normalized)),
    ("vacuous", .bool (statusIsVacuous normalized)),
    ("requires_hypotheses", .bool (statusRequiresHypotheses normalized))]

/-- A dependency without a row is dropped. -/
def goalHypotheses (deps : List Json) (properties : HashMap Json) : List Json :=
  deps.filterMap fun dep => dep.asStr.bind fun marker =>
    (properties.lookup marker).map (hypothesisRow marker)

def hypothesisBlocks (hypothesis : Json) : Bool :=
  !((hypothesis.index "counts_as_progress").asBool.getD false)

/-- One blocking hypothesis removes the progress flag. -/
def enrichWithHypotheses (goal : Json) (hypotheses : List Json) : Json :=
  if hypotheses.isEmpty then goal
  else
    let listed := goal.insert "hypotheses" (.arr hypotheses)
    if hypotheses.any hypothesisBlocks then
      ((listed.insert "counts_as_progress" (.bool false)).insert
        "requires_hypotheses" (.bool true)).insert "vacuity_reason"
        (.str "The WP goal is proved only under at least one non-progress hypothesis")
    else listed

def enrichGoalWithPropertyStatus (goal : Json) (properties : HashMap Json) : Json :=
  let joined := (((valueMarker goal).bind fun marker =>
    (properties.lookup marker).map (enrichWithProperty goal marker))).getD goal
  match (joined.get "deps").bind Json.asArray with
  | none => joined
  | some deps => enrichWithHypotheses joined (goalHypotheses deps properties)

end FramaCMcp.Goals

namespace FramaCMcp.Verdicts

open Status Goals

/-- The kind of a property row is one text field. -/
def hasKind (property : Json) (kind : String) : Bool :=
  (property.get "kind").bind Json.asStr == some kind

/-- The emitter of a generated assertion stands in its description. -/
def isGeneratedAlarm (property : Json) : Bool :=
  hasKind property "assert" &&
    ((property.get "descr" <|> property.get "description").bind Json.asStr).any fun descr =>
      Text.contains descr "rte:" || Text.contains descr "Eva:"

/-- A missing verdict is the empty text. -/
def propertyNormalizedStatus (property : Json) : String := (ownStatus property).getD ""

/-- The verdict of the property has priority over the verdict of the row. -/
def consolidatedVerdict (goal : Json) : String :=
  ((goal.get "normalized_property_status").bind Json.asStr).getD (propertyNormalizedStatus goal)

def propertyIsDead (property : Json) : Bool :=
  Text.endsWith (consolidatedVerdict property) "_but_dead"

/-- The own flag of a goal has priority over its verdict. -/
def checkGoalCountsAsProgress (goal : Json) : Bool :=
  ((goal.get "counts_as_progress").bind Json.asBool).getD (ownStatusIsProved goal)

/-- The proof rests on a hypothesis that nothing establishes. -/
def goalIsValidUnderHypotheses (goal : Json) : Bool :=
  consolidatedVerdict goal == "valid_under_hyp" ||
    ((goal.get "hypotheses").bind Json.asArray).any fun hypotheses =>
      hypotheses.any fun hypothesis => !checkGoalCountsAsProgress hypothesis

/-- Dead code is not vacuously proved. -/
def goalIsVacuouslyProved (goal : Json) : Bool :=
  ((goal.get "vacuous").bind Json.asBool).getD false && !propertyIsDead goal

/-- This is the verdict of a disproved property. -/
def statusIsDisproved (status : String) : Bool :=
  status == "invalid" || status == "invalid_under_hyp"

/-- A dead alarm is a different finding. -/
def alarmIsUndischarged (alarm : Json) : Bool :=
  isGeneratedAlarm alarm && !propertyIsDead alarm &&
    (statusIsDisproved (propertyNormalizedStatus alarm) ||
      propertyNormalizedStatus alarm == "unknown")

/-- These are the goals that stand for one property. -/
def coveringGoals (marker : String) (goals : List Json) : List Json :=
  goals.filter fun goal => goalPropertyMarker goal == some marker

/-- Nothing is said where no goal covers the property. -/
def goalsForPropertyAllValid (property wpGoals : Json) : Option Bool := do
  let marker ← valueMarker property
  let goals ← wpGoals.asArray
  if (coveringGoals marker goals).isEmpty then none
  else some ((coveringGoals marker goals).all fun goal =>
    (goal.get "normalized_status").bind Json.asStr == some "valid")

/-- A lemma without a goal is judged by its own verdict. -/
def propertyIsUnprovedLemma (property wpGoals : Json) : Bool :=
  hasKind property "lemma" &&
    match goalsForPropertyAllValid property wpGoals with
    | some allValid => !allValid
    | none => propertyNormalizedStatus property != "valid"

def propertyIsDisproved (property wpGoals : Json) : Bool :=
  statusIsDisproved (propertyNormalizedStatus property) && !propertyIsDead property &&
    (goalsForPropertyAllValid property wpGoals).isNone

def propertyIsInconsistent (property : Json) : Bool :=
  propertyNormalizedStatus property == "inconsistent"

/-- Frama-C states dead code as a disproved reachability. -/
def propertyIsDisprovedReachability (property : Json) : Bool :=
  hasKind property "reachable" && statusIsDisproved (propertyNormalizedStatus property)

/-- An external assumption is valid without a proof. -/
def propertyIsAssumedValid (property : Json) : Bool :=
  propertyNormalizedStatus property == "considered_valid"

end FramaCMcp.Verdicts

namespace FramaCMcp.InstanceVacuity

open Status Goals

def propertySourceLine (property : Json) : Option Nat :=
  ((property.get "source").bind fun source => source.get "line").bind Json.asU64

/-- Instances of one property share the scope and the predicate. -/
abbrev Key : Type := String × String

def instanceVacuityKey (property : Json) : Option Key :=
  if (property.get "kind").bind Json.asStr = some "instance" then
    ((property.get "scope").bind Json.asStr).map fun scope =>
      (scope, ((property.get "predicate").bind Json.asStr).getD "")
  else none

/-- A row without a verdict is unknown. -/
def rowStatus (property : Json) : String :=
  ((property.get "normalized_status").bind Json.asStr).getD "unknown"

/-- An instance with a source line is visited. -/
structure Entry where
  index : Nat
  line : Nat
  key : Key
  status : String
  deriving DecidableEq, Repr

def entryOf (index : Nat) (property : Json) : Option Entry :=
  (propertySourceLine property).bind fun line =>
    (instanceVacuityKey property).map fun key => ⟨index, line, key, rowStatus property⟩

def entries (properties : List Json) : List Entry :=
  properties.zipIdx.filterMap fun row => entryOf row.2 row.1

/-- The first unproved instance of a key is remembered. -/
structure Failure where
  line : Nat
  marker : String
  status : String
  deriving DecidableEq, Repr

def vacuityReason : String :=
  "An earlier instance of the same property in this function did not prove; this later valid " ++
    "status may be under a contradictory path hypothesis"

/-- These fields replace a proof that may rest on a contradictory hypothesis. -/
def markVacuous (failure : Failure) (property : Json) : Json :=
  (((((property.insert "vacuous" (.bool true)).insert "counts_as_progress" (.bool false)).insert
    "requires_hypotheses" (.bool true)).insert
      "normalized_status" (.str "valid_under_false_hypothesis")).insert
        "vacuity_reason" (.str vacuityReason)).insert
          "vacuity_dependency" (.obj [("property", .str failure.marker),
            ("status", .str failure.status), ("line", .num failure.line)])

/-- The pass updates the rows and the first failures. -/
structure State where
  properties : List Json
  firstFailed : List (Key × Failure)

/-- A key that has a failure keeps it. -/
def remember (state : State) (entry : Entry) : State :=
  if (state.firstFailed.lookup entry.key).isSome then state
  else
    let marker := (state.properties[entry.index]?.bind valueMarker).getD ""
    { state with
      firstFailed := (entry.key, ⟨entry.line, marker, entry.status⟩) :: state.firstFailed }

def visit (state : State) (entry : Entry) : State :=
  if statusCountsAsProgress entry.status then
    match state.firstFailed.lookup entry.key with
    | none => state
    | some failure =>
        if entry.line ≤ failure.line then state
        else { state with properties := state.properties.modify entry.index (markVacuous failure) }
  else remember state entry

/-- The rows are visited in the order of their lines and stay at their places. -/
def addOrderedInstanceVacuityWarnings (properties : List Json) : List Json :=
  ((StableSort.sortByKey Entry.line (entries properties)).foldl visit ⟨properties, []⟩).properties

end FramaCMcp.InstanceVacuity
