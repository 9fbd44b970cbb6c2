/-
This file finds the targets of a main proof run and writes the response of the run.
-/

import FramaCMcp.Construction.Session
import FramaCMcp.Construction.WpSettings

namespace FramaCMcp.WpResponse

open Session Status WpSettings

/-- The table of functions is fetched for a name that is not cached, and for the whole project. -/
abbrev TableAnswers := Option String → Option (List Json)

def resolveFunctionOrRefresh (build : Nat) (answers : TableAnswers) (state : SessionState)
    (name : String) : Option (SessionState × FunctionInfo) :=
  match state.functions.lookup name with
  | some cached => some (state, cached.value)
  | none =>
      (answers (some name)).bind fun entries =>
        let refreshed := state.updateFunctions build entries
        (refreshed.functions.lookup name).map fun cached => (refreshed, cached.value)

def resolveNames (build : Nat) (answers : TableAnswers) (state : SessionState) :
    List String → Option (SessionState × List FunctionInfo)
  | [] => some (state, [])
  | name :: names =>
      (resolveFunctionOrRefresh build answers state name).bind fun first =>
        (resolveNames build answers first.1 names).map fun rest =>
          (rest.1, first.2 :: rest.2)

/-- Without names the targets are all functions of the table, sorted by name. -/
def resolveWpTargets (build : Nat) (answers : TableAnswers) (state : SessionState) :
    Option (List String) → Option (SessionState × List FunctionInfo)
  | none =>
      (answers none).map fun entries =>
        let refreshed := state.updateFunctions build entries
        (refreshed, StableSort.sortByKey (fun info => info.name)
          (refreshed.functions.entries.map fun entry => entry.2.value))
  | some names => resolveNames build answers state names

/-- The set of names is the one that the profile declares. -/
def profileCoversExactly (requested declared : List String) : Bool :=
  requested.all declared.contains && declared.all requested.contains

/-- These are the functions of the run. A profile stands for the set that it declares. -/
def requestedFunctions (functions profile : Option (List String)) :
    Option (Option (List String)) :=
  match profile with
  | none => some functions
  | some declared =>
      if declared = [] then none
      else
        match functions with
        | none => some (some declared)
        | some requested =>
            if profileCoversExactly requested declared then some (some requested) else none

/-- The word of the plug-in alone tells a replayed goal. -/
def goalIsFromCache (goal : Json) : Option Bool := (goal.get "from_cache").bind Json.asBool

def ownStatusIsTimeout (row : Json) : Bool := (ownStatus row).any statusIsTimeout

/-- The counts tell what was proved in this run and what was replayed. -/
structure RunMeasurement where
  goals : Nat
  replayed : Nat
  replayedUnknown : Nat
  unproved : Nat
  unprovedReplayed : Nat
  timedOut : Nat
  timedOutReplayed : Nat

def runMeasurement (goals : List Json) : RunMeasurement where
  goals := goals.length
  replayed := goals.countP fun goal => goalIsFromCache goal == some true
  replayedUnknown := goals.countP fun goal => (goalIsFromCache goal).isNone
  unproved := goals.countP fun goal => !ownStatusIsProved goal
  unprovedReplayed := goals.countP fun goal =>
    !ownStatusIsProved goal && goalIsFromCache goal == some true
  timedOut := goals.countP ownStatusIsTimeout
  timedOutReplayed := goals.countP fun goal =>
    ownStatusIsTimeout goal && goalIsFromCache goal == some true

def RunMeasurement.everyTimedOutGoalWasReplayed (measured : RunMeasurement) : Bool :=
  measured.timedOut > 0 && measured.timedOutReplayed == measured.timedOut

def RunMeasurement.toJson (measured : RunMeasurement) : Json :=
  .obj [("goals", .num measured.goals),
    ("replayed", .num measured.replayed),
    ("replayed_unknown", .num measured.replayedUnknown),
    ("unproved", .num measured.unproved),
    ("unproved_replayed", .num measured.unprovedReplayed),
    ("timed_out", .num measured.timedOut),
    ("timed_out_replayed", .num measured.timedOutReplayed),
    ("every_timed_out_goal_was_replayed", .bool measured.everyTimedOutGoalWasReplayed)]

def texts (values : List String) : Json := .arr (values.map .str)

def orNull {Value : Type} (write : Value → Json) (value : Option Value) : Json :=
  value.elim .null write

def number (value : UInt32) : Json := .num value.toNat

/-- A value that cannot be read counts as absent. -/
def readable {Value : Type} : Except McpError (Option Value) → Option Value
  | .ok value => value
  | .error _ => none

mutual

/-- These are the texts under the keys, at any depth. -/
def stringFields (keys : List String) : Json → List String
  | .obj fields => fieldStrings keys fields
  | .arr items => itemStrings keys items
  | _ => []

def itemStrings (keys : List String) : List Json → List String
  | [] => []
  | item :: items => stringFields keys item ++ itemStrings keys items

def fieldStrings (keys : List String) : List (String × Json) → List String
  | [] => []
  | (key, value) :: fields =>
      (if keys.contains key then value.asStr.toList else []) ++ stringFields keys value ++
        fieldStrings keys fields

end

def collectJsonStringFields (value : Json) (keys : List String) : List String :=
  StableSort.sortByKey id (stringFields keys value).dedup

/-- The response names what was requested beside what is known to be in force. -/
structure WpRunResponse where
  tasks : Json
  params : RunWpParams
  functions : List String
  scope : String
  rteEnabled : Bool
  unsignedRte : Bool
  pointerRte : Bool
  framaCProtocol : List Json
  proofreadReport : Option Json
  goals : Option (List Json)
  hostLoad : Json
  timeoutTriage : Json
  failureKind : Json

def effectiveWpConfig (env : WpEnvironment) (run : WpRunResponse) : Json :=
  let requestedProvers := readable (requestedWpProvers run.params)
  let envProvers := readable (parseWpProvers env.provers)
  let provers := requestedProvers <|> envProvers
  let envTimeout := readable (parseWpU32 "FRAMAC_TIMEOUT" env.timeout)
  let timeout := run.params.timeout <|> envTimeout
  let envPar := readable (parseWpU32 "FRAMAC_PAR" env.par)
  let par := run.params.par <|> envPar
  let cache := readable ((effectiveWpCache run.params).map some)
  let config := Json.obj
    [("scope", .str run.scope),
      ("functions", texts run.functions),
      ("model", .str (run.params.model.getD defaultWpModel)),
      ("arithmetic_model", .null),
      ("provers", .obj [("requested", orNull texts requestedProvers),
        ("env_default", orNull texts envProvers), ("effective", orNull texts provers),
        ("effective_known", .bool provers.isSome)]),
      ("timeout_seconds", .obj [("requested", orNull number run.params.timeout),
        ("env_default", orNull number envTimeout), ("effective", orNull number timeout),
        ("effective_known", .bool timeout.isSome)]),
      ("parallel", .obj [("requested", orNull number run.params.par),
        ("env_default", orNull number envPar), ("effective", orNull number par),
        ("effective_known", .bool par.isSome)]),
      ("prop", .obj [("requested", orNull Json.str run.params.prop),
        ("effective", orNull Json.str run.params.prop),
        ("effective_known", .bool run.params.prop.isSome)]),
      ("cache", .obj [("requested", orNull Json.str run.params.cache),
        ("effective", orNull Json.str cache), ("effective_known", .bool cache.isSome)]),
      ("rte", .bool run.rteEnabled),
      ("split_strategy", .null),
      ("raw_task_ids", texts (collectJsonStringFields run.tasks ["id", "task_id", "taskId"]))]
  -- Only a set budget is written, so that the receipts without one keep their digests.
  match run.params.steps with
  | some steps => config.insert "steps" (number steps)
  | none => config

def framaCOptions (env : WpEnvironment) (run : WpRunResponse) : List String :=
  let provers := readable (requestedWpProvers run.params) <|>
    readable (parseWpProvers env.provers)
  let timeout := run.params.timeout <|> readable (parseWpU32 "FRAMAC_TIMEOUT" env.timeout)
  let par := run.params.par <|> readable (parseWpU32 "FRAMAC_PAR" env.par)
  let named (option : String) (value : Option String) : List String :=
    value.elim [] fun value => [option, value]
  let written (value : Option UInt32) : Option String := value.map fun value => toString value.toNat
  ["-wp", "-wp-model", run.params.model.getD defaultWpModel] ++
    named "-wp-prover" (provers.map fun provers => Text.join provers ",") ++
    (if run.rteEnabled then
      ["-wp-rte"] ++
        (if run.unsignedRte then ["-warn-unsigned-overflow", "-warn-unsigned-downcast"] else []) ++
        (if run.pointerRte then ["-warn-invalid-pointer"] else [])
    else []) ++
    named "-wp-timeout" (written timeout) ++ named "-wp-par" (written par) ++
    named "-wp-steps" (written run.params.steps) ++ named "-wp-prop" run.params.prop

/-- An absent value writes no field. -/
def insertSome (response : Json) (key : String) : Option Json → Json
  | some value => response.insert key value
  | none => response

def wpRunResponse (env : WpEnvironment) (run : WpRunResponse) : Json :=
  let config := effectiveWpConfig env run
  let options := texts (framaCOptions env run)
  let measurement := run.goals.map fun goals => (runMeasurement goals).toJson
  match run.tasks with
  | .obj fields =>
      let configured := (((Json.obj fields).insert "effective_wp_config" config).insert
        "frama_c_options" options).insert "frama_c_protocol" (.arr run.framaCProtocol)
      let measured := insertSome configured "measurement" measurement
      let judged := ((measured.insert "host_load" run.hostLoad).insert
        "wp_timeout_triage" run.timeoutTriage).insert "failure_kind" run.failureKind
      insertSome judged "proofread_report" run.proofreadReport
  | tasks =>
      let response := Json.obj [("tasks", tasks), ("effective_wp_config", config),
        ("frama_c_options", options), ("frama_c_protocol", .arr run.framaCProtocol),
        ("host_load", run.hostLoad), ("wp_timeout_triage", run.timeoutTriage),
        ("failure_kind", run.failureKind)]
      insertSome (insertSome response "measurement" measurement) "proofread_report"
        run.proofreadReport

/-- These fields join the response of a main run after it is written. -/
structure RunRecords where
  rteGuarded : Json
  timeoutRetry : Json
  memoryModelProbe : Json
  smokeProbe : Option Json
  proofReceipt : Json
  verifyProfile : Option Json

def mainRunResponse (env : WpEnvironment) (run : WpRunResponse) (records : RunRecords) : Json :=
  let guarded := (wpRunResponse env run).insert "rte_guarded_in_place" records.rteGuarded
  let retried := guarded.insert "timeout_retry" records.timeoutRetry
  let probed := insertSome (retried.insert "memory_model_probe" records.memoryModelProbe)
    "smoke_probe" records.smokeProbe
  insertSome (probed.insert "proof_receipt" records.proofReceipt) "verify_profile"
    records.verifyProfile

end FramaCMcp.WpResponse
