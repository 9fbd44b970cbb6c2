/-
This file gives the conclusion about one function and the evidence that a verified one needs, and
loads the conclusions that an earlier session left on disk.
-/

import FramaCMcp.Construction.Profile

namespace FramaCMcp.Conclusion

open Status Receipt Profile

inductive VerificationStatus where
  | inProgress | verified | failed | unsound | blockedOnCallee
  deriving DecidableEq, Repr

/-- This is one committed specification clause. -/
structure AnnotationEntry where
  hashLabel : String
  userLabel : Option String := none
  kind : String
  acsl : String
  stmtId : Option Int := none
  derivedFrom : String
  purpose : String
  proofTarget : Option String := none
  wpStatus : Option String := none
  wpTimeMs : Option UInt32 := none
  wpProver : Option String := none
  deriving DecidableEq

/-- An unset field is not written. -/
def optionField (key : String) (value : Option Json) : List (String × Json) :=
  (value.map fun value => (key, value)).toList

/-- The only source of a clause is a generated one. -/
def AnnotationEntry.toJson (entry : AnnotationEntry) : Json :=
  .obj ([("hash_label", .str entry.hashLabel)] ++
    optionField "user_label" (entry.userLabel.map Json.str) ++
    [("kind", .str entry.kind), ("acsl", .str entry.acsl)] ++
    optionField "stmt_id" (entry.stmtId.map Json.num) ++
    [("derived_from", .str entry.derivedFrom), ("source", .str "generated"),
      ("purpose", .str entry.purpose)] ++
    optionField "proof_target" (entry.proofTarget.map Json.str) ++
    optionField "wp_status" (entry.wpStatus.map Json.str) ++
    optionField "wp_time_ms" (entry.wpTimeMs.map fun time => .num time.toNat) ++
    optionField "wp_prover" (entry.wpProver.map Json.str))

/-- These are the counts of one WP run. -/
structure WpGoalSummary where
  total : UInt32
  valid : UInt32
  unknown : UInt32
  timeout : UInt32
  failed : UInt32
  deriving DecidableEq

structure StaleDependency where
  callee : String
  recordedSpecsHash : String
  currentSpecsHash : String
  deriving DecidableEq

structure StaleProofEnvironment where
  recordedEnvHash : String
  currentEnvHash : String
  deriving DecidableEq

/-- This is what the session knows about one function. -/
structure FunctionVerificationState where
  function : String
  status : VerificationStatus := .inProgress
  specs : List AnnotationEntry := []
  wpSummary : Option WpGoalSummary := none
  notes : String := ""
  callees : List String := []
  calleeSpecHashes : HashMap String := ∅
  staleDependencies : List StaleDependency := []
  proofReceipt : Option Json := none
  verifyProfile : Option String := none
  reproduce : Option String := none
  proofEnvHash : Option String := none
  staleProofEnvironment : Option StaleProofEnvironment := none
  astStmtCount : Option UInt32 := none
  sandboxClean : Bool := true
  annotationCount : UInt32 := 0
  sandboxDeleted : Bool := false

def emptyConclusionStatic (function : String) : FunctionVerificationState where
  function := function

def specsHash [Sha256] (specs : List AnnotationEntry) : String :=
  Sha256.hexJson (.arr (specs.map AnnotationEntry.toJson))

/-- A receipt without an environment has the digest of the empty text. -/
def proofEnvironmentHash [Sha256] (receipt : Json) : String :=
  Sha256.hexText (((receipt.get "environment").map Json.render).getD "")

def shapeError [UnicodeTables] [Sha256] (receipt : Json) : Option String :=
  let schema := (receipt.get "schema").bind Json.asStr
  if schema == some receiptSchema && schemaOf receipt == receiptShape then none
  else some ("proof_receipt is not one this build wrote (name " ++
    Text.debug (schema.getD "<missing>") ++ ", expected " ++ Text.debug receiptSchema ++
    "; field shape " ++ schemaOf receipt ++ ", expected " ++ receiptShape ++
    "). Pass back the proof_receipt this server returned, unchanged.")

/-- These are the fields that the digest covers. -/
def receiptBody (receipt : Json) : Option Json :=
  receipt.asObject.map fun fields => .obj (fields.filter fun field => field.1 != "sha256")

def digestError [Sha256] (receipt : Json) : Option String :=
  match (receipt.get "sha256").bind Json.asStr, receiptBody receipt with
  | none, _ => some "missing proof_receipt sha256"
  | some _, none => some "proof_receipt is not an object"
  | some stamped, some body =>
      if Sha256.hexJson body = stamped then none
      else some ("proof_receipt sha256 does not match its own contents (stamped " ++ stamped ++
        ", recomputed " ++ Sha256.hexJson body ++
        "); pass back the receipt this server returned, unchanged")

def hasText (value : Json) (key : String) : Bool :=
  ((value.get key).bind Json.asStr).any fun text => text != ""

def filesError (receipt : Json) : Option String :=
  match (receipt.pointer ["subject", "files"]).bind Json.asArray with
  | none => some "proof_receipt does not carry a source file list"
  | some files =>
      if files.isEmpty || files.any fun file => !hasText file "path" || !hasText file "sha256" then
        some "proof_receipt has unreadable or malformed source files"
      else none

/-- The number of goals is compared in 32 bits. -/
def goalsError (receipt : Json) (goalTotal : UInt32) : Option String :=
  match (receipt.get "goals").bind Json.asArray with
  | none => some "missing proof_receipt goals"
  | some goals =>
      if goals.isEmpty then some "proof_receipt has no goals"
      else if UInt32.ofNat goals.length ≠ goalTotal then
        some "proof_receipt goal count does not match wp_summary"
      else if goals.any fun goal => !receiptGoalIsProgress goal then
        some ("proof_receipt goals are not all discharged; a goal is unproved, or proved only " ++
          "under hypotheses that cannot hold")
      else none

def toolError (receipt : Json) : Option String :=
  if (receipt.pointer ["subject", "tool"]).bind Json.asStr = some "check" then none
  else some ("proof_receipt was not produced by check, so it did not run the soundness gates; " ++
    "store the receipt from a check whose incomplete[] is empty.")

def verdictError [UnicodeTables] (receipt : Json) : Option String :=
  match (receipt.pointer ["reported", "verdict"]).bind Json.asStr with
  | some verdict =>
      if verdict = "proved" then none
      else some ("proof_receipt records a check verdict of " ++ Text.debug verdict ++
        " rather than \"proved\", so the run it describes found something still outstanding.")
  | none => some ("proof_receipt records no check verdict, so it comes from run_wp, which does not " ++
      "run the soundness gates: an invented callee contract, a skipped function or annotation, an " ++
      "unsound encoding and a failed smoke test are all invisible to it. Store the receipt from a " ++
      "check whose incomplete[] is empty.")

/-- A filtered run leaves obligations unattempted. -/
def isFiltered (receipt : Json) : Bool :=
  (receipt.pointer ["wp", "prop", "effective"]).any fun prop => !prop.isNull

def filterError (receipt : Json) : Option String :=
  if isFiltered receipt then
    some ("proof_receipt comes from a run narrowed by prop, which proved the selected properties " ++
      "and attempted none of the others. Re-run without prop before storing a conclusion.")
  else none

def scopeError (receipt : Json) : Option String :=
  if (receipt.pointer ["wp", "scope"]).bind Json.asStr = some "sandbox" then
    some ("proof_receipt comes from a sandbox, which proves an extracted copy with stubbed callees " ++
      "rather than this program. Merge the annotations back and re-run WP on the main project, " ++
      "then store that receipt.")
  else none

def functionError [UnicodeTables] (receipt : Json) (function : String) : Option String :=
  match provedFunctions receipt with
  | none => some "proof_receipt does not record which functions WP ran over"
  | some names =>
      if names.any fun name => name.isText function then none
      else some ("proof_receipt proves " ++ Text.debugList (names.filterMap Json.asStr) ++
        ", not " ++ function)

/-- The first failed question says why the receipt is no evidence. -/
def proofReceiptEvidenceError [UnicodeTables] [Sha256] (receipt : Json) (goalTotal : UInt32)
    (function : String) : Option String :=
  shapeError receipt <|> digestError receipt <|> filesError receipt <|>
    goalsError receipt goalTotal <|> toolError receipt <|> verdictError receipt <|>
    filterError receipt <|> scopeError receipt <|> functionError receipt function

def summaryIsFullyValid (summary : WpGoalSummary) : Bool :=
  summary.total != 0 && summary.valid == summary.total && summary.unknown == 0 &&
    summary.timeout == 0 && summary.failed == 0

/-- This is the first callee without a recorded contract. -/
def unhashedCallee (entry : FunctionVerificationState) : Option String :=
  entry.callees.find? fun callee => (entry.calleeSpecHashes.lookup callee).isNone

def verifiedReason [UnicodeTables] [Sha256] (entry : FunctionVerificationState) : Option String :=
  if entry.staleDependencies ≠ [] then some "stale callee contracts"
  else if entry.staleProofEnvironment.isSome then some "stale proof environment"
  else match unhashedCallee entry, entry.wpSummary, entry.proofReceipt with
    | some callee, _, _ => some ("missing callee contract hash for '" ++ callee ++ "'")
    | none, none, _ => some "missing wp_summary"
    | none, some summary, receipt =>
        if !summaryIsFullyValid summary then some "WP summary is not fully valid"
        else match receipt with
          | none => some "missing proof_receipt"
          | some receipt => proofReceiptEvidenceError receipt summary.total entry.function

def validateVerifiedConclusion [UnicodeTables] [Sha256] (entry : FunctionVerificationState) :
    Option String :=
  if entry.status ≠ .verified then none
  else (verifiedReason entry).map fun reason =>
    "cannot store verified conclusion for '" ++ entry.function ++ "': " ++ reason

end FramaCMcp.Conclusion

namespace FramaCMcp.Loader

open Conclusion

/-- The name becomes a directory. -/
def isSafePathSegment (value : String) : Bool :=
  value != "" && decide (value.utf8ByteSize ≤ 128) &&
    value.toList.all fun letter => letter.isAlphanum || letter == '_' || letter == '-'

/-- A name that is no text is absent, and so is a meta.json that cannot be read. -/
structure DirEntry where
  name : Option String
  isDir : Bool
  metaText : Option String

/-- The entries of one directory have distinct names. -/
structure ConclusionTree where
  entries : List DirEntry
  distinct : (entries.filterMap DirEntry.name).Nodup

/-- A tree that does not exist has no entries. -/
def readDir (tree : Option ConclusionTree) : List DirEntry :=
  (tree.map ConclusionTree.entries).getD []

section

variable (fromStr : String → Option FunctionVerificationState)

/-- Only meta.json holds a conclusion. -/
def loadConclusionDir (entry : DirEntry) : Option FunctionVerificationState :=
  entry.metaText.bind fromStr

/-- Any other entry of the tree is skipped. -/
def readEntry (entry : DirEntry) : Option (String × FunctionVerificationState) :=
  if !entry.isDir then none
  else match entry.name with
    | none => none
    | some function =>
        if isSafePathSegment function then
          (loadConclusionDir fromStr entry).map fun conclusion => (function, conclusion)
        else none

/-- A conclusion without a summary has no goals. -/
def loadReason [UnicodeTables] [Sha256] (function : String)
    (conclusion : FunctionVerificationState) : Option String :=
  let total := (conclusion.wpSummary.map WpGoalSummary.total).getD 0
  match conclusion.proofReceipt with
  | some receipt => proofReceiptEvidenceError receipt total function
  | none => some "missing proof_receipt"

/-- A verified conclusion without its evidence is kept with another status. -/
def judgeLoaded [UnicodeTables] [Sha256] (function : String)
    (conclusion : FunctionVerificationState) : FunctionVerificationState :=
  if conclusion.status = .verified ∧ (loadReason function conclusion).isSome = true then
    { conclusion with status := .inProgress, proofReceipt := none }
  else conclusion

def loadEntry [UnicodeTables] [Sha256] (entry : DirEntry) :
    Option (String × FunctionVerificationState) :=
  (readEntry fromStr entry).map fun read => (read.1, judgeLoaded read.1 read.2)

def loadConclusionsFromDisk [UnicodeTables] [Sha256] (tree : Option ConclusionTree) :
    HashMap FunctionVerificationState :=
  HashMap.ofList ((readDir tree).filterMap (loadEntry fromStr))

end

end FramaCMcp.Loader
