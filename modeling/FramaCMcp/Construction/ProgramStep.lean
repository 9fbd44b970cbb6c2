/-
This file schedules the next function of a whole program and lists the call chain of a function.
-/

import FramaCMcp.Construction.Store
import FramaCMcp.Construction.Topo
import FramaCMcp.Foundation.GraphSearch

namespace FramaCMcp.ProgramStep

open Digraph Profile Conclusion Store Topo

structure FunctionInfo where
  name : String
  defined : Bool
  deriving DecidableEq

structure CallVertex where
  name : String
  declaration : String

/-- The ends of an edge are declaration markers. -/
structure CallEdge where
  src : String
  dst : String

/-- These are the functions and the call graph of the loaded project. -/
structure Program where
  functions : HashMap FunctionInfo
  callgraphVertices : List CallVertex
  callgraphEdges : List CallEdge

/-- The first vertex with the marker gives the name. -/
def resolveDeclToName (program : Program) (declMarker : String) : Option String :=
  (program.callgraphVertices.find? fun vertex => vertex.declaration == declMarker).map
    CallVertex.name

def resolveEdge (program : Program) (edge : CallEdge) : Option (String × String) := do
  let src ← resolveDeclToName program edge.src
  let dst ← resolveDeclToName program edge.dst
  some (src, dst)

/-- An edge with an end that resolves to nothing is dropped. -/
def callgraphByName (program : Program) : List String × List (String × String) :=
  (program.callgraphVertices.map CallVertex.name,
    program.callgraphEdges.filterMap (resolveEdge program))

def definedFunctions (program : Program) : List String :=
  ((program.functions.entries.map Sigma.snd).filter FunctionInfo.defined).map FunctionInfo.name

def listConclusions (conclusions : Conclusions) : List FunctionVerificationState :=
  conclusions.entries.map Sigma.snd

/-- The names are sorted and none occurs twice. -/
def functionsWith (test : VerificationStatus → Bool) (conclusions : Conclusions) :
    OrderedSet String :=
  OrderedSet.addAll OrderedMap.empty
    (((listConclusions conclusions).filter fun conclusion => test conclusion.status).map
      FunctionVerificationState.function)

def isDone (status : VerificationStatus) : Bool := status == .verified

def isInProgress (status : VerificationStatus) : Bool := status == .inProgress

def isBlocked (status : VerificationStatus) : Bool :=
  status == .failed || status == .unsound || status == .blockedOnCallee

/-- At most so many rows of a list are sent. -/
def readyPreviewItems : Nat := 16

/-- The rows that go are counted with those that went before. -/
def omitPreviewRows (object : Json) (field omitted : String) (keep : Nat) : Json :=
  match (object.get field).bind Json.asArray with
  | none => object
  | some items =>
      let alreadyOmitted := ((object.get omitted).bind Json.asU64).getD 0
      let retained := items.take keep
      let total := items.length + alreadyOmitted
      (object.insert field (.arr retained)).insert omitted
        (.num ((total - retained.length : Nat) : Int))

def textList (names : List String) : Json := .arr (names.map Json.str)

def doneAction : Json :=
  .obj [("status", .str "done"), ("tool", .null), ("args", .obj []),
    ("reason", .str "All defined functions have consumable conclusions."),
    ("blockers", .arr []), ("confidence", .str "high")]

def blockedAction (blockedFunctions : List String) : Json :=
  .obj [("tool", .str "verify_program_step"), ("args", .obj []),
    ("reason", .str ("One or more functions have non-consumable terminal conclusions; fix or " ++
      "revise them before scheduling callers.")),
    ("blockers", textList ["blocked_functions"]),
    ("blocked_functions", textList blockedFunctions), ("confidence", .str "high")]

def sandboxAction (function : String) : Json :=
  .obj [("tool", .str "create_sandbox"), ("args", .obj [("function", .str function)]),
    ("reason", .str ("A function is ready because all required callees have consumable " ++
      "conclusions; create a sandbox, validate and inject annotations there, then store a " ++
      "conclusion and merge verified annotations.")),
    ("blockers", .arr []), ("confidence", .str "high")]

def waitAction (inProgress : List String) : Json :=
  .obj [("tool", .str "verify_program_step"),
    ("args", .obj [("in_progress", textList inProgress)]),
    ("reason", .str ("No function is ready yet; wait for in-progress function verification or " ++
      "update conclusions.")),
    ("blockers", textList ["no_ready_functions"]), ("confidence", .str "medium")]

/-- The first ready function is named unless all is done or something is blocked. -/
def nextAction (allDone : Bool) (blockedFunctions : List String) (ready : List ReadyFunc)
    (inProgress : List String) : Json :=
  omitPreviewRows
    (if allDone then doneAction
    else if blockedFunctions ≠ [] then blockedAction blockedFunctions
    else match ready with
      | first :: _ => sandboxAction first.function
      | [] => waitAction inProgress)
    "blocked_functions" "blocked_functions_omitted" readyPreviewItems

structure StepProgress where
  definedCount : Nat
  doneCount : Nat
  frontierCount : Nat
  inProgressCount : Nat
  blockedCount : Nat
  readyCount : Nat
  conclusionCount : Nat

structure StepAnswer where
  progress : StepProgress
  frontier : List String
  frontierOmitted : Nat
  readyFunctions : List ReadyFunc
  readyFunctionsOmitted : Nat
  nextAction : Json

section Scheduler

-- The strong components of a graph are computed elsewhere.
variable (tarjanScc : DiGraph String → List (List Nat))

def getReadyFunctions (program : Program) (done inProgress : List String) :
    Option (List ReadyFunc) :=
  computeReadyFunctions tarjanScc (callgraphByName program).1 (callgraphByName program).2 done
    inProgress

/-- The stored conclusions are the only record of progress besides the caller's own names. -/
def verifyProgramStep (program : Program) (conclusions : Conclusions) (inProgress : List String) :
    Option StepAnswer := do
  let definedFunctions := definedFunctions program
  let done := OrderedMap.keys (functionsWith isDone conclusions)
  let inProgress :=
    OrderedMap.keys (OrderedSet.addAll (functionsWith isInProgress conclusions) inProgress)
  let blockedFunctions := OrderedMap.keys (functionsWith isBlocked conclusions)
  let ready ← getReadyFunctions tarjanScc program done inProgress
  let allDone := !definedFunctions.isEmpty && definedFunctions.all done.contains
  let frontier := sortTexts (definedFunctions.filter fun function => !done.contains function)
  some {
    progress := {
      definedCount := definedFunctions.length
      doneCount := done.length
      frontierCount := frontier.length
      inProgressCount := inProgress.length
      blockedCount := blockedFunctions.length
      readyCount := ready.length
      conclusionCount := (listConclusions conclusions).length }
    frontier := frontier.take readyPreviewItems
    frontierOmitted := frontier.length - readyPreviewItems
    readyFunctions := ready.take readyPreviewItems
    readyFunctionsOmitted := ready.length - readyPreviewItems
    nextAction := nextAction allDone blockedFunctions ready inProgress }

end Scheduler

end FramaCMcp.ProgramStep

namespace FramaCMcp.CallChain

open BreadthFirst ProgramStep

inductive Direction where
  | callers
  | callees
  deriving DecidableEq, Repr

def parseDirection : String → Option Direction
  | "callers" => some .callers
  | "callees" => some .callees
  | _ => none

/-- The chain comes to an edge at its near end. -/
def Direction.near : Direction → CallEdge → String
  | .callers => CallEdge.dst
  | .callees => CallEdge.src

def Direction.far : Direction → CallEdge → String
  | .callers => CallEdge.src
  | .callees => CallEdge.dst

def getCallers (program : Program) (declMarker : String) : List String :=
  (program.callgraphEdges.filter fun edge => edge.dst == declMarker).map CallEdge.src

def getCallees (program : Program) (declMarker : String) : List String :=
  (program.callgraphEdges.filter fun edge => edge.src == declMarker).map CallEdge.dst

def neighbors (program : Program) : Direction → String → List String
  | .callers => getCallers program
  | .callees => getCallees program

theorem neighbors_eq (program : Program) (direction : Direction) (marker : String) :
    neighbors program direction marker =
      (program.callgraphEdges.filter fun edge => direction.near edge == marker).map
        direction.far := by
  cases direction <;> rfl

theorem mem_neighbors {program : Program} {direction : Direction} {marker other : String} :
    other ∈ neighbors program direction marker ↔
      ∃ edge ∈ program.callgraphEdges, direction.near edge = marker ∧
        direction.far edge = other := by
  rw [neighbors_eq, List.mem_map]
  simp only [List.mem_filter, beq_iff_eq, and_assoc]

structure ChainRow where
  fromName : String
  toName : String
  fromMarker : String
  toMarker : String
  depth : Nat
  deriving DecidableEq, Repr

def ChainRow.toJson (row : ChainRow) : Json :=
  .obj [("from", .str row.fromName), ("to", .str row.toName), ("from_marker", .str row.fromMarker),
    ("to_marker", .str row.toMarker), ("depth", .num row.depth)]

def chainRow (program : Program) (marker : String) (depth : Nat) (neighbor : String) :
    ChainRow where
  fromName := (resolveDeclToName program marker).getD "?"
  toName := (resolveDeclToName program neighbor).getD "?"
  fromMarker := marker
  toMarker := neighbor
  depth := depth

/-- Five levels follow without a request, and never more than twenty. -/
def depthInForce (maxDepth : Option Nat) : Nat := min (maxDepth.getD 5) 20

def chainSearch (program : Program) (direction : Direction) (maxDepth : Nat)
    (stopMarkers : List String) : Search String where
  next := neighbors program direction
  blocked := stopMarkers.contains
  limit := maxDepth
  sources := program.callgraphEdges.map direction.near
  covered := by
    intro marker some
    obtain ⟨other, member⟩ := List.exists_mem_of_ne_nil _ some
    obtain ⟨edge, stored, rfl, -⟩ := mem_neighbors.mp member
    exact List.mem_map_of_mem stored

/-- Each expanded function adds a row for each of its neighbors. -/
def chainRows (program : Program) (direction : Direction) (maxDepth : Nat)
    (stopMarkers : List String) (start : String) : List ChainRow :=
  ((chainSearch program direction maxDepth stopMarkers).run start).flatMap fun entry =>
    (neighbors program direction entry.1).map (chainRow program entry.1 entry.2)

def directionMessage : String := "direction must be \"callers\" or \"callees\""

section Payload

-- The table of functions is asked for the declaration of a name.
variable (resolveFunctionOrRefresh : String → Except String String)

/-- A stop name that no function has is passed over. -/
def stopMarkers (stopAt : Option (List String)) : List String :=
  (stopAt.getD []).filterMap fun name => (resolveFunctionOrRefresh name).toOption

/-- The direction is read when the first function is expanded. -/
def callChainPayload (program : Program) (function direction : String) (maxDepth : Option Nat)
    (stopAt : Option (List String)) : Except String Json := do
  let declaration ← resolveFunctionOrRefresh function
  match parseDirection direction with
  | none => .error directionMessage
  | some known =>
      .ok (.arr ((chainRows program known (depthInForce maxDepth)
        (stopMarkers resolveFunctionOrRefresh stopAt) declaration).map ChainRow.toJson))

end Payload

end FramaCMcp.CallChain
