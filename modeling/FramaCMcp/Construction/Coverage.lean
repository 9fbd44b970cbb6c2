/-
This file says why a stored conclusion is or is not current evidence about one target, and measures
the proof coverage of the targets.
-/

import Mathlib.Data.Finset.Basic
import FramaCMcp.Construction.Store
import FramaCMcp.Foundation.Fixpoint

namespace FramaCMcp.CoverageRow

open Receipt Conclusion Profile

def verificationStatusName : VerificationStatus → String
  | .inProgress => "in_progress"
  | .verified => "verified"
  | .failed => "failed"
  | .unsound => "unsound"
  | .blockedOnCallee => "blocked_on_callee"

/-- A row carries one of these reasons where it is not covered. -/
inductive RowReason where
  | differentVerifyProfile
  | profileEvidenceMismatch
  | differentProject
  | staleDependencies
  | staleProofEnvironment
  | notVerified (status : VerificationStatus)
  | missingProofReceipt
  | staleSource
  | provedUnderAGoalFilter
  | receiptDoesNotProveFunction
  | unverifiedCallee
  | notDefinedInProject
  | missingConclusion
  deriving DecidableEq, Repr

def RowReason.text : RowReason → String
  | .differentVerifyProfile => "different_verify_profile"
  | .profileEvidenceMismatch => "profile_evidence_mismatch"
  | .differentProject => "different_project"
  | .staleDependencies => "stale_dependencies"
  | .staleProofEnvironment => "stale_proof_environment"
  | .notVerified status => verificationStatusName status
  | .missingProofReceipt => "missing_proof_receipt"
  | .staleSource => "stale_source"
  | .provedUnderAGoalFilter => "proved_under_a_goal_filter"
  | .receiptDoesNotProveFunction => "receipt_does_not_prove_function"
  | .unverifiedCallee => "unverified_callee"
  | .notDefinedInProject => "not_defined_in_project"
  | .missingConclusion => "missing_conclusion"

/-- This is what the recorded file digests say about the files as they are now. -/
structure SourceDrift where
  changed : List String := []
  unchecked : List String := []
  unnamed : Nat := 0

def SourceDrift.isStale (drift : SourceDrift) : Bool := !drift.changed.isEmpty

/-- Only a regular file that can be read has a digest. -/
def currentDigest [Sha256] (disk : FileSystem) (path : String) : Option String :=
  if disk.isFile path then
    match disk.read path with
    | .ok bytes => some (Sha256.hex bytes)
    | .error _ => none
  else none

/-- A name without a directory does not identify a file. -/
def isBareName (path : String) : Bool :=
  !Path.isAbsolute path && Path.parent path == some []

def SourceDrift.addFile [Sha256] (disk : FileSystem) (drift : SourceDrift) (entry : Json) :
    SourceDrift :=
  match (entry.get "path").bind Json.asStr with
  | none => { drift with unnamed := drift.unnamed + 1 }
  | some path =>
      match (entry.get "sha256").bind Json.asStr with
      | none => { drift with unchecked := drift.unchecked ++ [path] }
      | some recorded =>
          if isBareName path then { drift with unchecked := drift.unchecked ++ [path] }
          else match currentDigest disk path with
            | some current =>
                if current = recorded then drift
                else { drift with changed := drift.changed ++ [path] }
            | none => { drift with unchecked := drift.unchecked ++ [path] }

def receiptSourceDrift [Sha256] (disk : FileSystem) (receipt : Json) : SourceDrift :=
  (((receipt.pointer ["subject", "files"]).bind Json.asArray).getD []).foldl
    (SourceDrift.addFile disk) {}

/-- These are the files that are open and the settings that they were parsed under. -/
structure LoadedProject where
  files : List String
  load : Json

/-- The two file lists are compared as sets. -/
def receiptMatchesProject (receipt : Json) (loaded : Option LoadedProject) : Bool :=
  match loaded with
  | none => true
  | some loaded =>
      (receipt.pointer ["subject", "project_load"]).any (fun load => load.eqv loaded.load) &&
        let files := ((receipt.pointer ["subject", "files"]).bind Json.asArray).getD []
        let provedOver : Finset String :=
          (files.filterMap fun file => (file.get "path").bind Json.asStr).toFinset
        let now : Finset String := (loaded.files.map receiptSourcePath).toFinset
        decide (provedOver ≠ ∅ ∧ provedOver = now)

/-- This is the first question of the profile that the conclusion fails. -/
def profileReason [UnicodeTables] [Sha256] (entry : FunctionVerificationState)
    (verifyProfile : Option (String × VerificationProfile)) : Option RowReason :=
  match verifyProfile with
  | none => none
  | some (name, profile) =>
      if entry.verifyProfile ≠ some name then some .differentVerifyProfile
      else if (profileEvidenceError name profile entry.function entry.proofReceipt).isSome then
        some .profileEvidenceMismatch
      else none

/-- The receipt of another program is no evidence about this one. -/
def projectReason (entry : FunctionVerificationState) (loaded : Option LoadedProject) :
    Option RowReason :=
  if entry.proofReceipt.any fun receipt => !receiptMatchesProject receipt loaded then
    some .differentProject
  else none

/-- The marks of a conclusion are read before its status. -/
def markReason (entry : FunctionVerificationState) : Option RowReason :=
  if entry.staleDependencies ≠ [] then some .staleDependencies
  else if entry.staleProofEnvironment.isSome then some .staleProofEnvironment
  else if entry.status ≠ .verified then some (.notVerified entry.status)
  else none

def receiptReason (entry : FunctionVerificationState) (drift : SourceDrift) : Option RowReason :=
  match entry.proofReceipt with
  | none => some .missingProofReceipt
  | some receipt =>
      if drift.isStale then some .staleSource
      else if isFiltered receipt then some .provedUnderAGoalFilter
      else if receiptNamesFunction receipt entry.function then none
      else some .receiptDoesNotProveFunction

/-- The order of the questions is their precedence. -/
def rowReason [UnicodeTables] [Sha256] (entry : FunctionVerificationState)
    (verifyProfile : Option (String × VerificationProfile)) (drift : SourceDrift)
    (loaded : Option LoadedProject) : Option RowReason :=
  profileReason entry verifyProfile <|> projectReason entry loaded <|> markReason entry <|>
    receiptReason entry drift

/-- A row without a reason is covered. -/
structure Row where
  function : String
  status : String
  reason : Option RowReason
  receiptSha256 : Option String
  changedSources : List String
  changedSourceCount : Nat
  uncheckedSources : List String
  unnamedSources : Nat
  blockingCallees : List String
  callees : List String
  inScopeReceipt : Option Json

/-- This row has nothing to read. -/
def Row.notStarted (function : String) (reason : RowReason) : Row where
  function := function
  status := "not_started"
  reason := some reason
  receiptSha256 := none
  changedSources := []
  changedSourceCount := 0
  uncheckedSources := []
  unnamedSources := 0
  blockingCallees := []
  callees := []
  inScopeReceipt := none

def recordedDigest (entry : FunctionVerificationState) : Option String :=
  (entry.proofReceipt.bind fun receipt => receipt.get "sha256").bind Json.asStr

/-- An undefined target reports what is stored and stays out of the goal counts. -/
def undefinedRow (function : String) (stored : Option FunctionVerificationState) : Row :=
  { Row.notStarted function .notDefinedInProject with
    status := (stored.map fun entry => verificationStatusName entry.status).getD "not_started"
    receiptSha256 := stored.bind recordedDigest }

/-- A receipt about another target or another function is out of scope. -/
def inScopeReceipt (entry : FunctionVerificationState) (reason : Option RowReason)
    (loaded : Option LoadedProject) : Option Json :=
  entry.proofReceipt.filter fun receipt =>
    reason != some .differentVerifyProfile && reason != some .profileEvidenceMismatch &&
      receiptNamesFunction receipt entry.function && receiptMatchesProject receipt loaded

def storedRow [UnicodeTables] [Sha256] (disk : FileSystem) (function : String)
    (entry : FunctionVerificationState)
    (verifyProfile : Option (String × VerificationProfile)) (loaded : Option LoadedProject) : Row :=
  let drift := (entry.proofReceipt.map (receiptSourceDrift disk)).getD {}
  let reason := rowReason entry verifyProfile drift loaded
  { function := function
    status := verificationStatusName entry.status
    reason := reason
    receiptSha256 := recordedDigest entry
    changedSources := drift.changed
    changedSourceCount := drift.changed.length
    uncheckedSources := drift.unchecked
    unnamedSources := drift.unnamed
    blockingCallees := []
    callees := entry.callees
    inScopeReceipt := inScopeReceipt entry reason loaded }

end FramaCMcp.CoverageRow

namespace FramaCMcp.Coverage

open Status Receipt WpClass Profile Conclusion Store CoverageRow Fixpoint

def blockingCallees (uncovered : Finset String) (row : Row) : List String :=
  row.callees.filter fun callee => decide (callee ∈ uncovered)

/-- A covered row with an uncovered callee is newly uncovered. -/
def isNewly (uncovered : Finset String) (row : Row) : Bool :=
  row.reason.isNone && !(blockingCallees uncovered row).isEmpty

def block (uncovered : Finset String) (row : Row) : Row :=
  if isNewly uncovered row then { row with
    blockingCallees := blockingCallees uncovered row
    reason := some .unverifiedCallee }
  else row

/-- The set of uncovered names grows with the rows. -/
structure Propagation where
  rows : List Row
  uncovered : Finset String

/-- All newly uncovered rows are found before one of them is changed. -/
def propagationRound (state : Propagation) : Option Propagation :=
  let newly := state.rows.filter (isNewly state.uncovered)
  if newly.isEmpty then none
  else some {
    rows := state.rows.map (block state.uncovered)
    uncovered := state.uncovered ∪ (newly.map Row.function).toFinset }

def coveredCount (state : Propagation) : Nat := state.rows.countP fun row => row.reason.isNone

theorem block_covered (uncovered : Finset String) (row : Row)
    (covered : (block uncovered row).reason.isNone = true) : row.reason.isNone = true := by
  unfold block at covered
  split_ifs at covered with newly
  · cases covered
  · exact covered

/-- Each round takes a row out of the covered ones. -/
theorem propagationRound_decreases (state next : Propagation)
    (found : propagationRound state = some next) : coveredCount next < coveredCount state := by
  simp only [propagationRound] at found
  split_ifs at found with stopped
  obtain rfl := Option.some.inj found
  obtain ⟨row, present, newly⟩ : ∃ row ∈ state.rows, isNewly state.uncovered row = true := by
    simpa using stopped
  apply countP_map_lt _ _ (block_covered state.uncovered)
  refine ⟨row, present, ?_, ?_⟩
  · exact (Bool.and_eq_true_iff.mp newly).1
  · simp [block, newly]

def propagation : Descent Propagation where
  round := propagationRound
  size := coveredCount
  decreases := propagationRound_decreases

def propagationStart (rows : List Row) : Propagation where
  rows := rows
  uncovered := ((rows.filter fun row => row.reason.isSome).map Row.function).toFinset

/-- A row that rests on an uncovered row is uncovered. -/
def propagateUnverifiedCallees (rows : List Row) : List Row :=
  (propagation.loop (propagationStart rows)).rows

/-- Equal names are neighbours after the sort. -/
def sortDedup (names : List String) : List String := (sortTexts names).destutter (· ≠ ·)

inductive Detail where
  | summary | full
  deriving DecidableEq, Repr

def Detail.isFull (detail : Detail) : Bool := detail == .full

/-- This is one listed function of the report. -/
structure FunctionCoverage where
  function : String
  covered : Bool
  status : String
  reason : Option String
  blockingCallees : List String
  changedSourceCount : Nat
  uncheckedSourceCount : Nat
  proofReceiptSha256 : Option String

def rowReport (row : Row) : FunctionCoverage where
  function := row.function
  covered := row.reason.isNone
  status := row.status
  reason := row.reason.map RowReason.text
  blockingCallees := row.blockingCallees
  changedSourceCount := row.changedSourceCount
  uncheckedSourceCount := row.uncheckedSources.length + row.unnamedSources
  proofReceiptSha256 := row.receiptSha256

/-- A digest and a function name are keys of two kinds. -/
def receiptKey (row : Row) : String :=
  match row.receiptSha256 with
  | some digest => "sha256:" ++ digest
  | none => "function:" ++ row.function

/-- The first receipt of a key is kept. -/
def addReceipt (receipts : HashMap Json) (row : Row) : HashMap Json :=
  match row.inScopeReceipt with
  | none => receipts
  | some receipt =>
      if (receipts.lookup (receiptKey row)).isSome then receipts
      else receipts.insert (receiptKey row) receipt

def uniqueReceipts (rows : List Row) : HashMap Json := rows.foldl addReceipt ∅

structure GoalCoverage where
  valid : Nat := 0
  total : Nat := 0
  byStatus : HashMap Nat := ∅
  freshValid : Nat := 0
  cachedValid : Nat := 0

def goalStatus (goal : Json) : String :=
  normalizeFramaCStatus (((goal.get "status").bind Json.asStr).getD "unknown")

/-- A goal of unknown origin is neither fresh nor cached. -/
def countGoal (counts : GoalCoverage) (goal : Json) : GoalCoverage :=
  let status := goalStatus goal
  let progress := receiptGoalIsProgress goal
  { valid := counts.valid + if progress then 1 else 0
    total := counts.total + 1
    byStatus := counts.byStatus.insert status ((counts.byStatus.lookup status).getD 0 + 1)
    freshValid := counts.freshValid +
      if progress && goalIsFromCache goal == some false then 1 else 0
    cachedValid := counts.cachedValid +
      if progress && goalIsFromCache goal == some true then 1 else 0 }

def receiptGoals (receipt : Json) : List Json := ((receipt.get "goals").bind Json.asArray).getD []

/-- The counts do not depend on the order of the receipts. -/
def countGoals (receipts : HashMap Json) : GoalCoverage :=
  (receipts.entries.flatMap fun entry => receiptGoals entry.2).foldl countGoal {}

/-- This is the report without its percentages and its fixed remarks. -/
structure CoverageReport where
  verdict : String
  verifyProfile : Option String
  source : String
  declaredNotDefined : List String
  validFunctions : Nat
  totalFunctions : Nat
  goals : GoalCoverage
  uniqueReceipts : Nat
  functions : List FunctionCoverage
  functionsOmitted : Nat
  changedSources : Finset String
  uncheckedSources : Finset String
  unnamedSources : Nat

section Report

variable [UnicodeTables] [Sha256] (disk : FileSystem) (targets declaredOnly : List String)
  (defined : Finset String) (loaded : Option LoadedProject) (conclusions : Conclusions)
  (verifyProfile : Option (String × VerificationProfile)) (detail : Detail)

/-- Stored evidence does not define a missing function. -/
def targetRow (function : String) : Row :=
  if function ∉ defined then undefinedRow function (conclusions.lookup function)
  else match conclusions.lookup function with
    | none => Row.notStarted function .missingConclusion
    | some entry => storedRow disk function entry verifyProfile loaded

def targetRows : List Row :=
  (sortDedup targets).map (targetRow disk defined loaded conclusions verifyProfile)

/-- Each target is in the denominator, and a declaration that is no target is named apart. -/
def proofCoverageReport : CoverageReport :=
  let rows := propagateUnverifiedCallees
    (targetRows disk targets defined loaded conclusions verifyProfile)
  let targets := sortDedup targets
  let undefinedTargets := targets.filter fun name => name ∉ defined
  let declaredElsewhere := (sortDedup declaredOnly).filter fun name => name ∉ undefinedTargets
  let receipts := uniqueReceipts rows
  let goals := countGoals receipts
  let validFunctions := rows.countP fun row => row.reason.isNone
  let listed := (rows.filter fun row => detail.isFull || row.reason.isSome).map rowReport
  let complete := !targets.isEmpty && validFunctions == targets.length &&
    goals.valid == goals.total && decide (goals.total > 0)
  { verdict := if complete then "complete" else "incomplete"
    verifyProfile := verifyProfile.map Prod.fst
    source := if verifyProfile.isSome then "verify_profile" else "loaded_defined_functions"
    declaredNotDefined := declaredElsewhere
    validFunctions := validFunctions
    totalFunctions := targets.length
    goals := goals
    uniqueReceipts := receipts.keys.length
    functions := listed
    functionsOmitted := rows.length - listed.length
    changedSources := (rows.flatMap Row.changedSources).toFinset
    uncheckedSources := (rows.flatMap Row.uncheckedSources).toFinset
    unnamedSources := (rows.map Row.unnamedSources).sum }

end Report

end FramaCMcp.Coverage
