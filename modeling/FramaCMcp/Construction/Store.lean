/-
This file stores one conclusion, marks the other conclusions that it makes stale, runs the store as
the steps that change the session, and lets a server write its conclusions and restart.
-/

import FramaCMcp.Construction.Conclusion
import FramaCMcp.Foundation.StateFlow

namespace FramaCMcp.Store

open Conclusion

/-- An absent field keeps what is stored. -/
structure FunctionConclusionUpdate where
  function : String
  status : Option VerificationStatus := none
  specs : Option (List AnnotationEntry) := none
  wpSummary : Option WpGoalSummary := none
  notes : Option String := none
  callees : Option (List String) := none
  proofReceipt : Option Json := none
  verifyProfile : Option String := none
  reproduce : Option String := none

/-- These are the conclusions of one session. -/
abbrev Conclusions := HashMap FunctionVerificationState

/-- A function without a conclusion has no specs. -/
def specsHashForFunction [Sha256] (conclusions : Conclusions) (function : String) : String :=
  match conclusions.lookup function with
  | some entry => specsHash entry.specs
  | none => specsHash []

def storedEntry (conclusions : Conclusions) (function : String) : FunctionVerificationState :=
  (conclusions.lookup function).getD (emptyConclusionStatic function)

/-- The count follows the specs in both directions. -/
def mergeFields (entry : FunctionVerificationState) (update : FunctionConclusionUpdate) :
    FunctionVerificationState :=
  let specs := update.specs.getD entry.specs
  { entry with
    status := update.status.getD entry.status
    specs := specs
    annotationCount := UInt32.ofNat specs.length
    wpSummary := update.wpSummary <|> entry.wpSummary
    notes := update.notes.getD entry.notes
    callees := update.callees.getD entry.callees }

/-- A supplied receipt replaces the evidence and its environment. -/
def mergeReceipt [Sha256] (entry : FunctionVerificationState) (receipt : Option Json) :
    FunctionVerificationState :=
  match receipt with
  | some receipt => { entry with
      proofReceipt := some receipt
      proofEnvHash := some (proofEnvironmentHash receipt)
      staleProofEnvironment := none }
  | none => entry

/-- The reproducing command belongs to the named profile. -/
def mergeProfile (entry : FunctionVerificationState) (profile reproduce : Option String) :
    FunctionVerificationState :=
  match profile with
  | some name => { entry with verifyProfile := some name, reproduce := reproduce }
  | none => entry

/-- The hashes are read before the new entry is inserted. -/
def refreshCallees [Sha256] (conclusions : Conclusions) (entry : FunctionVerificationState)
    (refreshed : Bool) : FunctionVerificationState :=
  if refreshed then { entry with
    calleeSpecHashes := HashMap.ofList (entry.callees.map fun callee =>
      (callee, specsHashForFunction conclusions callee))
    staleDependencies := [] }
  else entry

def mergeUpdate [Sha256] (conclusions : Conclusions) (update : FunctionConclusionUpdate) :
    FunctionVerificationState :=
  refreshCallees conclusions
    (mergeProfile
      (mergeReceipt (mergeFields (storedEntry conclusions update.function) update)
        update.proofReceipt)
      update.verifyProfile update.reproduce)
    update.callees.isSome

/-- A stale conclusion is verified no more. -/
def demote : VerificationStatus → VerificationStatus
  | .verified => .inProgress
  | other => other

/-- Another environment makes a conclusion stale, and the same one revives it. -/
def markEnvironment (function current name : String) (entry : FunctionVerificationState) :
    FunctionVerificationState :=
  if name = function then entry
  else match entry.proofEnvHash with
    | none => entry
    | some recorded =>
        if recorded = current then { entry with staleProofEnvironment := none }
        else { entry with
          staleProofEnvironment := some ⟨recorded, current⟩
          status := demote entry.status }

/-- The first marker of a callee gets the new hashes. -/
def refreshMarker (marker : StaleDependency) : List StaleDependency → List StaleDependency
  | [] => []
  | head :: rest =>
      if head.callee = marker.callee then marker :: rest else head :: refreshMarker marker rest

/-- A callee is marked where the recorded hash is not the current one. -/
def markers (function recorded current : String) (stale : List StaleDependency) :
    List StaleDependency :=
  if recorded = current then stale.filter fun marker => marker.callee != function
  else if stale.any fun marker => marker.callee == function then
    refreshMarker ⟨function, recorded, current⟩ stale
  else stale ++ [⟨function, recorded, current⟩]

/-- Changed specs make each caller stale that recorded another hash. -/
def markCaller (function current name : String) (entry : FunctionVerificationState) :
    FunctionVerificationState :=
  if name = function then entry
  else match entry.calleeSpecHashes.lookup function with
    | none => entry
    | some recorded =>
        let stale := markers function recorded current entry.staleDependencies
        { entry with
          staleDependencies := stale
          status := if stale ≠ entry.staleDependencies ∧ stale ≠ [] then demote entry.status
            else entry.status }

def changedNames {Field : Type} [DecidableEq Field] (field : FunctionVerificationState → Field)
    (before after : Conclusions) : List String :=
  before.keys.filter fun name =>
    (before.lookup name).map field != (after.lookup name).map field

def markEnvironments [Sha256] (conclusions : Conclusions) (function : String)
    (receipt : Option Json) : Conclusions :=
  match receipt with
  | some receipt => conclusions.sweep (markEnvironment function (proofEnvironmentHash receipt))
  | none => conclusions

def markCallers [Sha256] (conclusions : Conclusions) (function : String) : Conclusions :=
  conclusions.sweep (markCaller function (specsHashForFunction conclusions function))

/-- A refused update changes nothing. -/
def storeConclusion [UnicodeTables] [Sha256] (conclusions : Conclusions)
    (update : FunctionConclusionUpdate) : Except String (Conclusions × List String) :=
  let entry := mergeUpdate conclusions update
  match validateVerifiedConclusion entry with
  | some reason => .error reason
  | none =>
      let inserted := conclusions.insert update.function entry
      let judged := markEnvironments inserted update.function update.proofReceipt
      let marked := markCallers judged update.function
      .ok (marked, update.function ::
        changedNames FunctionVerificationState.staleProofEnvironment inserted judged ++
        changedNames FunctionVerificationState.staleDependencies judged marked)

end FramaCMcp.Store

namespace FramaCMcp.StoreSteps

open Conclusion Store StateFlow

/-- The store reads and writes only the conclusions of the session. -/
structure SessionState (Rest : Type) where
  conclusions : Conclusions
  rest : Rest

variable {Rest : Type}

abbrev Step (Rest Value : Type) := Action String (SessionState Rest) Value

def conclusionNames : Step Rest (List String) := inspect fun state => .ok state.conclusions.keys

def getConclusion (name : String) : Step Rest (Option FunctionVerificationState) :=
  inspect fun state => .ok (state.conclusions.lookup name)

/-- The entry is changed where it stands. -/
def setConclusion (name : String) (entry : FunctionVerificationState) : Step Rest Unit :=
  perform (fun state => { state with
    conclusions := state.conclusions.adjust name fun _ => entry }) (.ok ())

def insertConclusion (name : String) (entry : FunctionVerificationState) : Step Rest Unit :=
  perform (fun state => { state with conclusions := state.conclusions.insert name entry }) (.ok ())

/-- A name is touched where the compared field has another value than before. -/
def visit {Field : Type} [DecidableEq Field] (field : FunctionVerificationState → Field)
    (change : String → FunctionVerificationState → FunctionVerificationState) (name : String)
    (touched : List String) : Step Rest (List String) := do
  match ← getConclusion name with
  | none => return touched
  | some entry =>
      setConclusion name (change name entry)
      return if field (change name entry) = field entry then touched else touched ++ [name]

/-- The names are collected before the first of them is visited. -/
def visitAll {Field : Type} [DecidableEq Field] (field : FunctionVerificationState → Field)
    (change : String → FunctionVerificationState → FunctionVerificationState) :
    List String → List String → Step Rest (List String)
  | [], touched => return touched
  | name :: names, touched => do
      let touched ← visit field change name touched
      visitAll field change names touched

def visitEnvironments [Sha256] (function : String) (receipt : Option Json)
    (touched : List String) : Step Rest (List String) := do
  match receipt with
  | none => return touched
  | some receipt =>
      let names ← conclusionNames
      visitAll FunctionVerificationState.staleProofEnvironment
        (markEnvironment function (proofEnvironmentHash receipt)) names touched

def visitCallers [Sha256] (function : String) (touched : List String) :
    Step Rest (List String) := do
  let current ← inspect fun state => .ok (specsHashForFunction state.conclusions function)
  let names ← conclusionNames
  visitAll FunctionVerificationState.staleDependencies (markCaller function current) names touched

/-- The merged entry is refused before the first write. -/
def validate [UnicodeTables] [Sha256] (entry : FunctionVerificationState) : Step Rest Unit :=
  settle (match validateVerifiedConclusion entry with
    | some reason => .error reason
    | none => .ok ())

def storeConclusion [UnicodeTables] [Sha256] (update : FunctionConclusionUpdate) :
    Step Rest (List String) := do
  let entry ← inspect fun state => .ok (mergeUpdate state.conclusions update)
  validate entry
  insertConclusion update.function entry
  let touched ← visitEnvironments update.function update.proofReceipt [update.function]
  visitCallers update.function touched

end FramaCMcp.StoreSteps

namespace FramaCMcp.Persistence

open Conclusion Loader Store

/-- A finalized conclusion is in progress again when its sandbox is made anew. -/
def restarted : VerificationStatus → VerificationStatus
  | .verified => .inProgress
  | .failed => .inProgress
  | .unsound => .inProgress
  | .blockedOnCallee => .inProgress
  | .inProgress => .inProgress

def sandboxCreated (astStmtCount : Option UInt32) (entry : FunctionVerificationState) :
    FunctionVerificationState :=
  { entry with
    astStmtCount
    sandboxClean := true
    annotationCount := 0
    sandboxDeleted := false
    status := restarted entry.status }

/-- The count stays at its largest value. -/
def annotationAdded (entry : FunctionVerificationState) : FunctionVerificationState :=
  { entry with
    sandboxClean := false
    annotationCount := UInt32.ofNat (min (entry.annotationCount.toNat + 1) (2 ^ 32 - 1)) }

def sandboxDeleted (entry : FunctionVerificationState) : FunctionVerificationState :=
  { entry with sandboxDeleted := true }

/-- A function without a conclusion gets one with its sandbox. -/
def onSandboxCreated (conclusions : Conclusions) (function : String)
    (astStmtCount : Option UInt32) : Conclusions :=
  conclusions.insert function (sandboxCreated astStmtCount (storedEntry conclusions function))

def onAnnotationAdded (conclusions : Conclusions) (function : String) : Conclusions :=
  conclusions.adjust function annotationAdded

def onSandboxDeleted (conclusions : Conclusions) (function : String) : Conclusions :=
  conclusions.adjust function sandboxDeleted

/-- These calls change a conclusion. -/
inductive Change where
  | storeConclusion (update : FunctionConclusionUpdate)
  | sandboxCreated (function : String) (astStmtCount : Option UInt32)
  | annotationAdded (function : String)
  | sandboxDeleted (function : String)

/-- A change says which conclusions are to be written. A refused one has none. -/
def Change.apply [UnicodeTables] [Sha256] (conclusions : Conclusions) :
    Change → Option (Conclusions × List String)
  | .storeConclusion update =>
      if isSafePathSegment update.function then (Store.storeConclusion conclusions update).toOption
      else none
  | .sandboxCreated function astStmtCount =>
      some (onSandboxCreated conclusions function astStmtCount, [function])
  | .annotationAdded function => some (onAnnotationAdded conclusions function, [function])
  | .sandboxDeleted function => some (onSandboxDeleted conclusions function, [function])

inductive Event where
  | change (change : Change)
  | restart

/-- Each function has the text of its `meta.json`. -/
structure Server where
  conclusions : Conclusions := ∅
  files : HashMap String := ∅

/-- The directory of each function holds its file. -/
def treeOf (files : HashMap String) : ConclusionTree where
  entries := files.entries.map fun file => ⟨some file.1, true, some file.2⟩
  distinct := by
    have names : (files.entries.map fun file => DirEntry.mk (some file.1) true
        (some file.2)).filterMap DirEntry.name = files.keys := by
      rw [List.filterMap_map]
      exact congrFun List.filterMap_eq_map files.entries
    rw [names]
    exact files.nodupKeys

section Files

variable (render : FunctionVerificationState → String)
  (fromStr : String → Option FunctionVerificationState)

/-- No directory is made for an unsafe name. -/
def persistConclusion (conclusions : Conclusions) (files : HashMap String) (function : String) :
    HashMap String :=
  match conclusions.lookup function with
  | some entry =>
      if isSafePathSegment function then files.insert function (render entry) else files
  | none => files

variable [UnicodeTables] [Sha256]

/-- The touched conclusions are written one after the other. -/
def Server.handle (server : Server) (change : Change) : Server :=
  match change.apply server.conclusions with
  | some (conclusions, touched) =>
      ⟨conclusions, touched.foldl (persistConclusion render conclusions) server.files⟩
  | none => server

/-- A new process loads what the old one wrote. -/
def Server.restart (server : Server) : Server :=
  { server with
    conclusions := loadConclusionsFromDisk fromStr (some (treeOf server.files)) }

def Server.step (server : Server) : Event → Server
  | .change change => server.handle render change
  | .restart => server.restart fromStr

def serve (events : List Event) : Server := events.foldl (Server.step render fromStr) {}

end Files

section Memory

variable [UnicodeTables] [Sha256]

/-- A server that never restarts keeps its conclusions in memory. -/
def remember (conclusions : Conclusions) (event : Event) : Conclusions :=
  match event with
  | .change change => ((change.apply conclusions).map Prod.fst).getD conclusions
  | .restart => conclusions

def remembered (events : List Event) : Conclusions := events.foldl remember ∅

end Memory

end FramaCMcp.Persistence
