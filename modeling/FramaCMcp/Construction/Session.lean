/-
This file models the session caches and the reload of the main project.
-/

import FramaCMcp.Construction.MainProcess
import FramaCMcp.Construction.ProgramStep

namespace FramaCMcp.Session

open Receipt Profile LoadCommand MainProcess

/-- A cached value was read from the process while it held the tree of this build. -/
structure Cached (Value : Type) where
  build : Nat
  value : Value
  deriving DecidableEq

structure FunctionInfo extends ProgramStep.FunctionInfo where
  marker : String
  declaration : String
  signature : String
  file : String
  line : Nat
  deriving DecidableEq

structure GlobalInfo where
  name : String
  marker : String
  declaration : String
  typ : String
  file : String
  line : Nat

structure CallEdge extends ProgramStep.CallEdge where
  kind : String

/-- Each completion flag comes with the build it was set for. -/
structure SessionState where
  projectLoaded : Bool := false
  evaCompleted : Option Nat := none
  wpCompleted : Option Nat := none
  functions : HashMap (Cached FunctionInfo) := ∅
  globals : HashMap (Cached GlobalInfo) := ∅
  callgraphEdges : List (Cached CallEdge) := []
  callgraphVertices : List (Cached ProgramStep.CallVertex) := []
  seenReceipts : List (Cached (String × Json)) := []

def textOf (entry : Json) (key : String) : String := ((entry.index key).asStr).getD ""

/-- A line number keeps its lower half. -/
def lineOf (entry : Json) : Nat := ((((entry.index "sloc").index "line").asU64).getD 0) % 2 ^ 32

def functionInfo (entry : Json) : FunctionInfo where
  name := textOf entry "name"
  marker := textOf entry "key"
  declaration := textOf entry "decl"
  signature := textOf entry "signature"
  file := textOf (entry.index "sloc") "file"
  line := lineOf entry
  defined := (entry.index "defined").asBool.getD false

def globalInfo (entry : Json) : GlobalInfo where
  name := textOf entry "name"
  marker := textOf entry "key"
  declaration := textOf entry "decl"
  typ := textOf entry "type"
  file := textOf (entry.index "sloc") "file"
  line := lineOf entry

namespace SessionState

/-- An entry without a name is skipped. -/
def updateFunctions (state : SessionState) (build : Nat) (entries : List Json) : SessionState :=
  { state with
    functions := HashMap.ofList
      ((entries.filter fun entry => textOf entry "name" ≠ "").map fun entry =>
        (textOf entry "name", ⟨build, functionInfo entry⟩)) }

def updateGlobals (state : SessionState) (build : Nat) (entries : List Json) : SessionState :=
  { state with
    globals := HashMap.ofList
      ((entries.filter fun entry => textOf entry "name" ≠ "").map fun entry =>
        (textOf entry "name", ⟨build, globalInfo entry⟩)) }

/-- An edge needs both of its ends, and a vertex needs its name. -/
def updateCallgraph (state : SessionState) (build : Nat) (graph : Json) : SessionState :=
  let edges := ((graph.index "edges").asArray.getD []).map fun edge =>
    (⟨⟨textOf edge "src", textOf edge "dst"⟩, textOf edge "kind"⟩ : CallEdge)
  let vertices := ((graph.index "vertices").asArray.getD []).map fun vertex =>
    (⟨textOf vertex "name", textOf vertex "decl"⟩ : ProgramStep.CallVertex)
  { state with
    callgraphEdges := (edges.filter fun edge => edge.src ≠ "" ∧ edge.dst ≠ "").map (⟨build, ·⟩)
    callgraphVertices := (vertices.filter fun vertex => vertex.name ≠ "").map (⟨build, ·⟩) }

def invalidateAll (_ : SessionState) : SessionState := {}

def seenReceiptLimit : Nat := 32

/-- A receipt of a known digest is kept as it is, and the oldest one makes room. -/
def rememberReceipt (state : SessionState) (build : Nat) (sha256 : String) (receipt : Json) :
    SessionState :=
  if state.seenReceipts.any fun seen => seen.value.1 = sha256 then state
  else
    { state with
      seenReceipts :=
        (if seenReceiptLimit ≤ state.seenReceipts.length then state.seenReceipts.tail
          else state.seenReceipts) ++ [⟨build, sha256, receipt⟩] }

end SessionState

structure Server where
  process : Instance
  state : SessionState := {}

/-- These are the inputs of one call and the answers it meets. -/
structure ReloadCall where
  params : ReloadProjectParams
  locked : Bool := false
  profile : Except Failure (Option VerificationProfile) := .ok none
  /-- The flag is read once more under the locks. -/
  lockedInside : Bool := false
  readEntries : String → Except String (List Json) := fun _ => .error "cannot read the database"
  loadedFiles : Except String (List String) := .error "no project is loaded"
  answers : Answers
  /-- The log of the boot parse is read for the first record. -/
  bootLog : Except String Bytes := .ok []
  /-- This is the table of functions in the health check. -/
  functions : List Json := []

/-- These requests set the warnings of every load. -/
def setterRequests : List String :=
  ["kernel.parameters.setWarnUnsignedOverflow", "kernel.parameters.setWarnUnsignedDowncast",
    "kernel.parameters.setWarnInvalidPointer"]

/-- The health check reads these tables. -/
def healthRequests : List String :=
  ["kernel.ast.getFiles", "kernel.ast.reloadFunctions", "kernel.ast.fetchFunctions",
    "kernel.ast.reloadGlobals", "kernel.ast.fetchGlobals", "kernel.properties.reloadStatus",
    "kernel.properties.fetchStatus"]

/-- The first readable log becomes the record. -/
def cacheDiagnostics (bootLog : Except String Bytes) (process : Instance) : Instance :=
  match process.main, bootLog with
  | some (state, client), .ok log =>
      { process with
        main := some
          ({ state with
              astReloadDiagnostics := state.astReloadDiagnostics.or
                (some (.categories (log.take state.astParseLogEnd))) }, client) }
  | _, _ => process

/-- The number of the tree in the process, where it holds one. -/
def Server.currentBuild (server : Server) : Option Nat :=
  (server.process.main.bind fun main => main.2.ast).map Ast.build

/-- The caches are cleared after the last request that can fail. -/
def refresh (call : ReloadCall) (server : Server) : Except Failure Unit × Server :=
  match server.process.main with
  | none => (.error .noProjectLoaded, server)
  | some (_, client) =>
      match requestAll call.answers.answers setterRequests with
      | .error error => (.error error, server)
      | .ok () =>
          let recorded := { server with process := cacheDiagnostics call.bootLog server.process }
          match requestAll call.answers.answers healthRequests with
          | .error error => (.error error, recorded)
          | .ok () =>
              (.ok (),
                { recorded with
                  state :=
                    { recorded.state.invalidateAll.updateFunctions
                        ((client.ast.map Ast.build).getD 0) call.functions with
                      projectLoaded := true } })

/-- The other tools read from the process into the caches. -/
inductive Tool where
  | refreshFunctions (entries : List Json)
  | refreshGlobals (entries : List Json)
  | cacheCallgraph (graph : Json)
  | rememberReceipt (sha256 : String) (receipt : Json)
  | evaComputed
  | evaDiscarded
  | wpCompleted

/-- A tool answers from the tree of this build. -/
def Tool.apply (build : Nat) (state : SessionState) : Tool → SessionState
  | .refreshFunctions entries => state.updateFunctions build entries
  | .refreshGlobals entries => state.updateGlobals build entries
  | .cacheCallgraph graph =>
      if state.callgraphEdges.isEmpty && state.callgraphVertices.isEmpty then
        state.updateCallgraph build graph
      else state
  | .rememberReceipt sha256 receipt => state.rememberReceipt build sha256 receipt
  | .evaComputed => { state with evaCompleted := some build }
  | .evaDiscarded => { state with evaCompleted := none }
  | .wpCompleted => { state with wpCompleted := some build }

/-- A tool needs a tree in the process. -/
def Tool.run (tool : Tool) (server : Server) : Server :=
  match server.currentBuild with
  | none => server
  | some build => { server with state := tool.apply build server.state }

/-- A write that broke off poisons the transport. -/
def Server.poisonTransport (server : Server) : Server :=
  { server with
    process := { server.process with
      main := server.process.main.map fun main => (main.1, { main.2 with poisoned := true }) } }

inductive Step where
  | reload (call : ReloadCall)
  | tool (tool : Tool)
  | transportPoisoned

section

variable [Sha256]

/-- The client reads the functions as soon as it connects. -/
def respawnMain (env : Environment) (answers : Answers) (files : List String)
    (options : ProjectLoadOptions) (identity : String × Bool) (server : Server) :
    Except Failure Unit × Server :=
  let spawned := spawnMain env answers files options identity server.process
  match spawned.1 with
  | .error error => (.error error, { server with process := spawned.2 })
  | .ok entries =>
      (.ok (),
        { process := spawned.2
          state :=
            { server.state.updateFunctions server.process.builds entries with
              projectLoaded := true } })

/-- The session counts as loaded where the tree was rebuilt. -/
def reloadMain (env : Environment) (answers : Answers) (files : List String)
    (options : ProjectLoadOptions) (server : Server) : Except Failure Unit × Server :=
  match server.process.main with
  | none => (.error .noProjectLoaded, server)
  | some (state, client) =>
      let reloaded := reloadInPlace env answers files options state client server.process
      (reloaded.1,
        { process := reloaded.2
          state := { server.state with projectLoaded := reloaded.1.toBool } })

/-- The process is spawned, replaced or reloaded in place. -/
def ensureMainSpawned (env : Environment) (answers : Answers) (files : List String)
    (options : ProjectLoadOptions) (server : Server) : Except Failure Unit × Server :=
  let identity :=
    sourceIdentity env.clock answers.sampled files options.machdep server.process.world
  let sampled := { server with process := { server.process with world := identity.2 } }
  if needsRespawn server.process.main options identity.1 then
    respawnMain env answers files options identity.1 sampled
  else reloadMain env answers files options sampled

/-- The files and options of a call are known before anything is spawned. -/
def admitted (call : ReloadCall) : Except Failure (List String × ProjectLoadOptions) := do
  if call.locked then throw .projectLocked
  let profile ← call.profile
  let (requestedFiles, options) ←
    (requestedLoad call.params profile).mapError Failure.invalidParams
  if call.lockedInside then throw .projectLocked
  let database := options.compilationDatabase.map (CompileDatabase.read call.readEntries)
  let files ← (filesForThisLoad call.loadedFiles requestedFiles database).mapError Failure.internal
  return (files, options)

def reloadProject (env : Environment) (call : ReloadCall) (server : Server) :
    Except Failure Unit × Server :=
  match admitted call with
  | .error error => (.error error, server)
  | .ok (files, options) =>
      let ensured := ensureMainSpawned env call.answers files options server
      match ensured.1 with
      | .error error => (.error error, ensured.2)
      | .ok () => refresh call ensured.2

def step (env : Environment) (server : Server) : Step → Server
  | .reload call => (reloadProject env call server).2
  | .tool tool => tool.run server
  | .transportPoisoned => server.poisonTransport

def run (env : Environment) (server : Server) (steps : List Step) : Server :=
  steps.foldl (step env) server

end

/-- No process runs at the start, and nothing is cached. -/
def Server.initial (world : World) : Server where
  process := { world := world }

end FramaCMcp.Session
