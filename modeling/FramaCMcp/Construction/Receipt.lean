/-
This file writes a proof receipt, recomputes its shape and its digest and compares the goals of a
run with those of an earlier one.
-/

import Mathlib.Data.Prod.Lex
import Mathlib.Order.WithBot
import FramaCMcp.Foundation.FileTree
import FramaCMcp.Construction.WpClass
import FramaCMcp.Foundation.Matching
import FramaCMcp.Foundation.OrderedMap

namespace FramaCMcp.Receipt

open Status Goals Verdicts WpClass

def checkScratchPrefix : String := "frama-c-check-"

def inScratch (file : String) : Bool :=
  ((Path.parent file).bind Path.lastName).any fun dir => Text.startsWith dir checkScratchPrefix

/-- A scratch copy is recorded under its bare name. -/
def receiptSourcePath (file : String) : String :=
  match if inScratch file then Path.fileName file else none with
  | some name => name
  | none => file

/-- These are the preprocessor and target settings of one load. -/
structure ProjectLoadOptions where
  includePaths : List String := []
  defines : List String := []
  forceIncludes : List String := []
  machdep : Option String := none
  compilationDatabase : Option String := none
  rte : Bool := false
  isystemPaths : List String := []
  nostdinc : Bool := false
  unsignedRteSkipped : Bool := false
  pointerRteRequested : Bool := false
  builtinModels : Option String := none
  deriving DecidableEq, Repr

def textArray (texts : List String) : Json := .arr (texts.map Json.str)

/-- The three later settings are written only where they are set. -/
def laterFields (options : ProjectLoadOptions) : List (String × Json) :=
  (if options.unsignedRteSkipped then [("unsigned_rte_skipped", .bool true)] else []) ++
    (if options.pointerRteRequested then [("pointer_rte_requested", .bool true)] else []) ++
    (options.builtinModels.map fun digest => ("builtin_models", Json.str digest)).toList

def projectLoadIdentity (options : ProjectLoadOptions) : Json :=
  .obj (("include_paths", textArray options.includePaths) ::
    ("defines", textArray options.defines) ::
    ("force_includes", textArray options.forceIncludes) ::
    ("machdep", .ofText? options.machdep) ::
    ("compilation_database", .ofText? options.compilationDatabase) ::
    ("rte", .bool options.rte) ::
    ("isystem_paths", textArray options.isystemPaths) ::
    ("nostdinc", .bool options.nostdinc) :: laterFields options)

/-- An unreadable file is recorded with its error. -/
def receiptSourceFile [Sha256] (files : FileSystem) (file : String) : Json :=
  match files.read file with
  | .ok bytes => .obj [("path", .str (receiptSourcePath file)), ("sha256", .str (Sha256.hex bytes))]
  | .error message =>
      .obj [("path", .str (receiptSourcePath file)), ("sha256", .null), ("error", .str message)]

/-- A missing text is below each text. -/
def orderText : Option String → WithBot String
  | some text => text
  | none => ⊥

def textKey (row : Json) (field : String) : WithBot String :=
  orderText ((row.get field).bind Json.asStr)

theorem orderText_injective : Function.Injective orderText := by
  intro left right same
  cases left <;> cases right <;> simp_all [orderText]

def proofReceiptSourceFiles [Sha256] (files : FileSystem) (loaded : List String) : List Json :=
  StableSort.sortByKey (textKey · "path") (loaded.map (receiptSourceFile files))

/-- The label of a goal is known before its id is computed. -/
def finishReceiptGoal [UnicodeTables] [Sha256] (stableScope : Option String)
    (properties : HashMap Json) (goal : Json) : Json :=
  let joined := enrichGoalWithPropertyStatus (addIdentityFields goal) properties
  let (kind, hashLabel) := classifyWpGoal joined
  enrichGoalStableId (insertAbsent? joined "hash_label" (hashLabel.map Json.str)) kind stableScope

def receiptGoalRow (goal : Json) : Json :=
  .obj [("stable_goal_id", goal.index "stable_goal_id"),
    ("status", .ofText? (ownStatus goal)),
    ("from_cache", .ofFlag? (goalIsFromCache goal)),
    ("vacuously_proved", .bool (goalIsVacuouslyProved goal)),
    ("fct", .ofText? (goalOwnerName goal))]

/-- The sort compares the id and then the verdict. -/
def receiptGoalKey (row : Json) : Lex (WithBot String × WithBot String) :=
  toLex (textKey row "stable_goal_id", textKey row "status")

def proofReceiptGoals [UnicodeTables] [Sha256] (goals : List Json) (stableScope : Option String)
    (properties : HashMap Json) : List Json :=
  StableSort.sortByKey receiptGoalKey
    (goals.map fun goal => receiptGoalRow (finishReceiptGoal stableScope properties goal))

/-- A vacuous proof is not progress. -/
def receiptGoalIsProgress (goal : Json) : Bool :=
  ((goal.get "status").bind Json.asStr).any isProved &&
    !((goal.get "vacuously_proved").bind Json.asBool).getD false

def receiptGoalsRecordOwner (goals : List Json) : Bool :=
  goals.all fun goal => (goal.get "fct").isSome

def postBodyKey : String := "sha256"

def proofReceiptWithHash [Sha256] (body : Json) : Json :=
  body.insert postBodyKey (.str (Sha256.hexJson body))

def receiptSchema : String := "frama-c-mcp.proof-receipt"

/-- These are the resolved parts of a receipt. -/
structure ProofReceiptBody where
  tool : String
  sourceFiles : List Json
  projectLoad : Json
  astDigest : Json
  astDigestUnavailableReason : Json
  contracts : Json
  environment : Json
  wpConfig : Json
  evaConfig : Json
  goals : List Json
  goalsStatusSource : String
  reported : Json

/-- A missing digest draws the given nonce. -/
def proofReceiptBody [Sha256] (body : ProofReceiptBody) (nonce : String) : Json :=
  .obj [("schema", .str receiptSchema),
    ("subject", .obj [("tool", .str body.tool),
      ("source_hash", .str (Sha256.hexJson (.arr body.sourceFiles))),
      ("files", .arr body.sourceFiles),
      ("project_load", body.projectLoad),
      ("ast_digest", body.astDigest),
      ("ast_digest_unavailable_nonce", if body.astDigest.isNull then .str nonce else .null),
      ("ast_digest_unavailable_reason", body.astDigestUnavailableReason),
      ("contracts", body.contracts)]),
    ("environment", body.environment),
    ("wp", body.wpConfig),
    ("eva", body.evaConfig),
    ("goals_status_source", .str body.goalsStatusSource),
    ("goals", .arr body.goals),
    ("reported", body.reported)]

/-- The digest is a statement about the body and no part of its shape. -/
def sortedKeys (value : Json) (lead : String) : List String :=
  (((value.asObject.getD []).filter fun field => !(lead == "" && field.1 == postBodyKey)).map
    fun field => lead ++ field.1).insertionSort (· ≤ ·)

def schemaOf [Sha256] (receipt : Json) : String :=
  String.ofList ((Sha256.hexText (Text.join
    (sortedKeys receipt "" ++ sortedKeys (receipt.index "subject") "subject.") "\n")).toList.take 12)

def receiptShape [Sha256] : String :=
  schemaOf (proofReceiptBody {
    tool := ""
    sourceFiles := []
    projectLoad := .obj []
    astDigest := .str ""
    astDigestUnavailableReason := .null
    contracts := .obj []
    environment := .obj []
    wpConfig := .obj []
    evaConfig := .obj []
    goals := []
    goalsStatusSource := ""
    reported := .obj [] } "")

end FramaCMcp.Receipt

namespace FramaCMcp.GoalDiff

def statusOf (goal : Json) : String := ((goal.get "status").bind Json.asStr).getD "unknown"

def stableGoalId (goal : Json) : Option String := (goal.get "stable_goal_id").bind Json.asStr

/-- The numbers of the proved goals and of all goals of one run. -/
structure RunProgress where
  proved : Nat
  total : Nat
  deriving DecidableEq, Repr

def runProgress (goals : List Json) : RunProgress where
  proved := (goals.filter Receipt.receiptGoalIsProgress).length
  total := goals.length

/-- This is the comparison of two runs. The shared goals have the same identifier in both. -/
structure ProofDiff where
  newlyProved : List Json
  newlyUnproved : List Json
  statusChanged : List Json
  appeared : List Json
  disappeared : List Json
  unchangedCount : Nat
  sharedTotal : Nat
  sharedProvedNow : Nat
  sharedProvedBefore : Nat
  deriving Repr

def emptyDiff : ProofDiff where
  newlyProved := []
  newlyUnproved := []
  statusChanged := []
  appeared := []
  disappeared := []
  unchangedCount := 0
  sharedTotal := 0
  sharedProvedNow := 0
  sharedProvedBefore := 0

/-- Every earlier goal with an identifier is kept under it, in order. -/
def goalsById : List Json → OrderedMap String (List Json) → OrderedMap String (List Json)
  | [], before => before
  | goal :: rest, before =>
      match stableGoalId goal with
      | none => goalsById rest before
      | some id => goalsById rest (before.modify id [] (· ++ [goal]))

/-- The tests for another progress and for another status are compared in this order. -/
def matchKey (goal candidate : Json) : Nat :=
  (if Receipt.receiptGoalIsProgress candidate ≠ Receipt.receiptGoalIsProgress goal then 2 else 0) +
    (if statusOf candidate ≠ statusOf goal then 1 else 0)

def diffRow (id : String) (goal : Json) (earlier : Option Json) : Json :=
  .obj [("stable_goal_id", .str id),
    ("status", .str (statusOf goal)),
    ("was", .ofText? (earlier.map statusOf)),
    ("discharged", .bool (Receipt.receiptGoalIsProgress goal)),
    ("was_discharged", .ofFlag? (earlier.map Receipt.receiptGoalIsProgress))]

def disappearedRow (id : String) (goal : Json) : Json :=
  .obj [("stable_goal_id", .str id),
    ("was", .str (statusOf goal)),
    ("was_discharged", .bool (Receipt.receiptGoalIsProgress goal))]

def ProofDiff.appear (diff : ProofDiff) (id : String) (goal : Json) : ProofDiff :=
  { diff with appeared := diff.appeared ++ [diffRow id goal none] }

/-- A goal of both runs is a transition, a change of status or unchanged. -/
def ProofDiff.share (diff : ProofDiff) (id : String) (goal earlier : Json) : ProofDiff :=
  let row := diffRow id goal (some earlier)
  let nowProved := Receipt.receiptGoalIsProgress goal
  let wasProved := Receipt.receiptGoalIsProgress earlier
  let shared := { diff with
    sharedTotal := diff.sharedTotal + 1
    sharedProvedNow := diff.sharedProvedNow + nowProved.toNat
    sharedProvedBefore := diff.sharedProvedBefore + wasProved.toNat }
  if nowProved ≠ wasProved then
    if nowProved then { shared with newlyProved := diff.newlyProved ++ [row] }
    else { shared with newlyUnproved := diff.newlyUnproved ++ [row] }
  else if statusOf earlier = statusOf goal then
    { shared with unchangedCount := diff.unchangedCount + 1 }
  else { shared with statusChanged := diff.statusChanged ++ [row] }

/-- Each current goal takes the first earlier goal of the least key with its identifier. -/
def diffGoals : List Json → OrderedMap String (List Json) → ProofDiff →
    ProofDiff × OrderedMap String (List Json)
  | [], before, diff => (diff, before)
  | goal :: rest, before, diff =>
      match stableGoalId goal with
      | none => diffGoals rest before diff
      | some id =>
          match Matching.takeMin (matchKey goal) ((before.lookup id).getD []) with
          | none => diffGoals rest before (diff.appear id goal)
          | some (earlier, others) =>
              diffGoals rest (before.insert id others) (diff.share id goal earlier)

/-- The fractions of the report are quotients of its counts. -/
structure DiffReport where
  since : String
  comparable : Bool
  before : RunProgress
  current : RunProgress
  diff : ProofDiff
  deriving Repr

def proofGoalDiff (since : String) (previous current : List Json) : DiffReport :=
  let (diff, before) := diffGoals current (goalsById previous OrderedMap.empty) emptyDiff
  { since
    comparable := diff.sharedTotal = previous.length ∧ diff.sharedTotal = current.length
    before := runProgress previous
    current := runProgress current
    diff := { diff with
      disappeared := before.entries.flatMap fun entry => entry.2.map (disappearedRow entry.1) } }

end FramaCMcp.GoalDiff
