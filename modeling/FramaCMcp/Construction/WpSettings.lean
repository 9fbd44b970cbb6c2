/-
This file applies the settings of one proof run to a Frama-C process that keeps them.
-/

import FramaCMcp.Foundation.StateFlow
import FramaCMcp.Foundation.Lines
import FramaCMcp.Foundation.Json

namespace FramaCMcp.WpSettings

open StateFlow

/-- These are the settings that the process holds from one request to the next. -/
structure Settings where
  /-- One request replaces this selection. -/
  proverList : List String
  /-- One request toggles one prover here. -/
  proverState : String → Bool
  timeout : Int
  steps : Int
  cacheMode : String
  model : List String
  procs : Int
  properties : List String

/-- An applied profile has written its values into the parameters. -/
structure RunWpParams where
  prover : Option String := none
  provers : Option (List String) := none
  timeout : Option UInt32 := none
  par : Option UInt32 := none
  steps : Option UInt32 := none
  model : Option String := none
  prop : Option String := none
  cache : Option String := none
  cancel : Option Bool := none
  retryUnproved : Option Bool := none

/-- These are `FRAMAC_PROVERS`, `FRAMAC_TIMEOUT` and `FRAMAC_PAR`. -/
structure WpEnvironment where
  provers : Option String := none
  timeout : Option String := none
  par : Option String := none

inductive WpRequest where
  | getProvers
  | setProvers
  | setProverState (id : String)
  | getTimeout
  | setTimeout
  | setCacheMode
  | execSetWpConfig

inductive McpError where
  | invalidParams (message : String)
  /-- The message prints both lists. -/
  | noProverMatches (unmatched ids : List String)
  /-- The message prints the requested mode and the known ones. -/
  | unknownCacheMode (requested : String)
  | requestFailed (request : WpRequest)
  /-- A step before the settings or after them failed. -/
  | stepFailed

def commaSeparated (value : String) : List String :=
  ((value.toList.splitOn ',').map fun part => String.ofList (Line.trim part)).filter (· ≠ "")

def parseWpProvers : Option String → Except McpError (Option (List String))
  | none => .ok none
  | some value =>
      if commaSeparated value = [] then
        .error (.invalidParams "FRAMAC_PROVERS must name at least one prover")
      else .ok (some (commaSeparated value))

/-- A number has decimal digits after at most one plus sign. -/
def parseU32 (text : List Char) : Option UInt32 :=
  let digits := if text.head? = some '+' then text.drop 1 else text
  let number := digits.foldl (fun number digit => 10 * number + (digit.toNat - 48)) 0
  if digits ≠ [] ∧ digits.all Char.isDigit ∧ number < 2 ^ 32 then some (UInt32.ofNat number)
  else none

def parseWpU32 (name : String) : Option String → Except McpError (Option UInt32)
  | none => .ok none
  | some value =>
      match parseU32 (Line.trim value.toList) with
      | some number => .ok (some number)
      | none => .error (.invalidParams (name ++ " must be a non-negative integer"))

def validateWpPar (par : UInt32) : Except McpError UInt32 :=
  if par = 0 then .error (.invalidParams "WP parallelism must be at least 1") else .ok par

def requestedWpProvers (params : RunWpParams) : Except McpError (Option (List String)) :=
  if params.prover.isSome ∧ params.provers.isSome then
    .error (.invalidParams "use either prover or provers, not both")
  else
    match params.provers <|> params.prover.map commaSeparated with
    | none => .ok none
    | some provers =>
        let provers := provers.map fun prover => String.ofList (Line.trim prover.toList)
        if provers = [] ∨ "" ∈ provers then
          .error (.invalidParams "provers must be a non-empty list of non-empty prover names")
        else .ok (some provers)

/-- The parameters come before the environment. -/
def effectiveWpProvers (env : WpEnvironment) (params : RunWpParams) :
    Except McpError (Option (List String)) := do
  match ← requestedWpProvers params with
  | some provers => return some provers
  | none => parseWpProvers env.provers

def effectiveWpTimeout (env : WpEnvironment) (params : RunWpParams) :
    Except McpError (Option UInt32) :=
  match params.timeout with
  | some timeout => .ok (some timeout)
  | none => parseWpU32 "FRAMAC_TIMEOUT" env.timeout

def effectiveWpPar (env : WpEnvironment) (params : RunWpParams) : Except McpError (Option UInt32) :=
  match params.par with
  | some par => (validateWpPar par).map some
  | none => do
      match ← parseWpU32 "FRAMAC_PAR" env.par with
      | some par => return some (← validateWpPar par)
      | none => return none

def wpCacheModes : List String := ["None", "Update", "Replay", "Rebuild", "Offline", "Cleanup"]

def validateWpCacheMode (requested : String) : Except McpError String :=
  match wpCacheModes.find? fun mode =>
      Text.eqIgnoreAsciiCase mode (String.ofList (Line.trim requested.toList)) with
  | some mode => .ok mode
  | none => .error (.unknownCacheMode requested)

def effectiveWpCache (params : RunWpParams) : Except McpError String :=
  validateWpCacheMode (params.cache.getD "Update")

def defaultWpModel : String := "Typed+nocast"

/-- These are the memory models that the installed Frama-C names in its help text. -/
structure WpModelSupport where
  bases : List String
  modifiers : List String

namespace WpModelSupport

def commonModels (support : WpModelSupport) : List String :=
  [("Typed", "nocast"), ("Typed", "cast")].foldl
    (fun models model =>
      if support.bases.contains model.1 ∧ support.modifiers.contains model.2 ∧
          !models.contains (model.1 ++ "+" ++ model.2) then
        models ++ [model.1 ++ "+" ++ model.2]
      else models)
    support.bases

def invalid (support : WpModelSupport) (model : String) : McpError :=
  .invalidParams ("invalid WP model '" ++ model ++ "'; bases: " ++ Text.join support.bases ", " ++
    "; modifiers: " ++ Text.join support.modifiers ", " ++ "; examples: " ++
    Text.join support.commonModels ", ")

def knows (known : List String) (name : String) : Bool :=
  name ≠ "" && known.any fun known => Text.eqIgnoreAsciiCase known name

def validateOne (support : WpModelSupport) (model : String) : Except McpError Unit :=
  let parts := (model.toList.splitOn '+').map String.ofList
  if knows support.bases (parts.headD "") ∧ (parts.drop 1).all (knows support.modifiers) then .ok ()
  else .error (support.invalid model)

def validate (support : WpModelSupport) (model : String) : Except McpError Unit :=
  (model.toList.splitOn ',').forM fun model =>
    support.validateOne (String.ofList (Line.trim model))

end WpModelSupport

/-- A request is answered, it is refused, or only its answer is lost. -/
inductive Outcome where
  | done
  | refused
  | lost
  deriving DecidableEq

def Outcome.takesEffect : Outcome → Bool
  | refused => false
  | done | lost => true

/-- This is what one pass of a run meets. -/
structure Pass where
  outcome : WpRequest → Outcome
  modelSupport : WpModelSupport
  /-- The proofs were started, drained and read back. -/
  proved : Bool

abbrev Run := Action McpError Settings

/-- This step has no part in the settings. -/
def step (succeeded : Bool) : Run Unit :=
  settle (if succeeded then .ok () else .error .stepFailed)

def send (outcome : Outcome) (request : WpRequest) (effect : Settings → Settings) : Run Unit :=
  perform (if outcome.takesEffect then effect else id)
    (if outcome = .done then .ok () else .error (.requestFailed request))

/-- This is the name of a prover with its version. -/
def splitProver (prover : String) : List Char × Option (List Char) :=
  let prover := if Text.startsWith prover "why3:" then prover.toList.drop 5 else prover.toList
  match prover.dropWhile (· ≠ ':') with
  | [] => (prover, none)
  | _ :: version => (prover.takeWhile (· ≠ ':'), some version)

def proverIdMatches (requested id : String) : Bool :=
  let same (left right : List Char) := Text.eqIgnoreAsciiCase (String.ofList left) (String.ofList right)
  same (splitProver requested).1 (splitProver id).1 &&
    match (splitProver requested).2, (splitProver id).2 with
    | none, _ => true
    | some version, some installed => same version installed
    | some _, none => false

def unmatchedProvers (requested ids : List String) : List String :=
  requested.filter fun name => !ids.any (proverIdMatches name)

/-- The list of provers is absent where Frama-C rejects the request for it. -/
def applyProverSelection (getProvers : Option Json) (outcome : WpRequest → Outcome)
    (requested : List String) : Run Unit := do
  send (outcome .getProvers) .getProvers id
  match getProvers with
  | none =>
      send (outcome .setProvers) .setProvers fun settings =>
        { settings with proverList := requested }
  | some response =>
      match response.asArray with
      | none => return
      | some available =>
          let ids := available.filterMap Json.asStr
          if unmatchedProvers requested ids ≠ [] then
            throw (.noProverMatches (unmatchedProvers requested ids) ids)
          else
            ids.forM fun id =>
              send (outcome (.setProverState id)) (.setProverState id) fun settings =>
                { settings with
                  proverState := Function.update settings.proverState id
                    (requested.any fun name => proverIdMatches name id) }

/-- Frama-C sets what the request names. -/
def setWpConfig (model : String) (prop : Option String) (par : Option UInt32) (steps : UInt32)
    (settings : Settings) : Settings :=
  let parts (value : String) := (value.toList.splitOn ',').map String.ofList
  { settings with
    model := parts model
    properties := prop.elim settings.properties parts
    procs := par.elim settings.procs fun par => par.toNat
    steps := steps.toNat }

def applyWpConfig (env : WpEnvironment) (getProvers : Option Json) (pass : Pass)
    (params : RunWpParams) (provers : Option (List String)) : Run Unit := do
  provers.elim (pure ()) (applyProverSelection getProvers pass.outcome)
  let timeout ← settle (effectiveWpTimeout env params)
  timeout.elim (pure ()) fun timeout =>
    send (pass.outcome .setTimeout) .setTimeout fun settings =>
      { settings with timeout := timeout.toNat }
  -- The cache mode is set in every run, and so are the model and the step budget below.
  let cache ← settle (effectiveWpCache params)
  send (pass.outcome .setCacheMode) .setCacheMode fun settings =>
    { settings with cacheMode := cache }
  let model := params.model.getD defaultWpModel
  settle (pass.modelSupport.validate model)
  let par ← settle (effectiveWpPar env params)
  send (pass.outcome .execSetWpConfig) .execSetWpConfig
    (setWpConfig model params.prop par (params.steps.getD 0))

/-- This is one call with everything that it meets. -/
structure RunWpCall where
  params : RunWpParams
  /-- The call gets past the lock, the profile and the reset of the entry point. -/
  entered : Bool
  first : Pass
  /-- The functions and the properties of the call are found. -/
  resolved : Bool
  /-- Some goal ran out of time. -/
  timedOut : Bool
  timeoutRead : Outcome
  retry : Pass
  restore : Outcome

/-- The calls reach this process, which is the main one or one of a sandbox. -/
structure FramaCProcess where
  sandbox : Bool
  getProvers : Option Json
  load : Settings

/-- These are the provers of a run on the process. A call can be answered without such a run. -/
def subject (env : WpEnvironment) (process : FramaCProcess) (call : RunWpCall) :
    Except McpError (Option (Option (List String))) := do
  if !process.sandbox && call.params.cancel == some true then return none
  else if !call.entered then throw .stepFailed
  else
    let provers ← effectiveWpProvers env call.params
    -- The isolated retries of a list of provers leave the settings of the process alone.
    if call.params.provers.isSome then return none else return some provers

/-- This brings the settings into force and finds what to prove. -/
def configure (env : WpEnvironment) (process : FramaCProcess) (call : RunWpCall)
    (provers : Option (List String)) : Run Unit := do
  applyWpConfig env process.getProvers call.first call.params provers
  step call.resolved

/-- The server reads the timeout as a 32-bit number. Zero stands for an unreadable one. -/
def getTimeout (outcome : Outcome) : Run UInt32 :=
  inspect fun settings =>
    if outcome = .done then .ok (UInt32.ofNat settings.timeout.toNat)
    else .error (.requestFailed .getTimeout)

def doubled (before : UInt32) : UInt32 :=
  if 2 * before.toNat < 2 ^ 32 then before * 2 else UInt32.ofNat (2 ^ 32 - 1)

def retryTimedOutGoals (env : WpEnvironment) (process : FramaCProcess) (call : RunWpCall)
    (provers : Option (List String)) : Run Unit := do
  if call.params.retryUnproved == some true && call.timedOut then
    let before ← getTimeout call.timeoutRead
    if before = 0 then return
    let params := { call.params with timeout := some (doubled before), cache := some "None" }
    let retried ← observe do
      applyWpConfig env process.getProvers call.retry params provers
      step call.retry.proved
    -- The restoring request comes before the failure of the retry is raised.
    let restored ← observe (send call.restore .setTimeout fun settings =>
      { settings with timeout := before.toNat })
    settle retried
    settle restored

def runWp (env : WpEnvironment) (process : FramaCProcess) (call : RunWpCall) : Run Unit := do
  match ← settle (subject env process call) with
  | none => return
  | some provers =>
      configure env process call provers
      step call.first.proved
      if !process.sandbox then retryTimedOutGoals env process call provers

/-- The settings after a sequence of calls are those that the last call leaves. -/
def run (env : WpEnvironment) (process : FramaCProcess) (calls : List RunWpCall) : Settings :=
  calls.foldl (fun settings call => final (runWp env process call) settings) process.load

/-- These settings are in force when the call schedules its proofs. -/
def inForce (env : WpEnvironment) (process : FramaCProcess) (call : RunWpCall)
    (settings : Settings) : Option Settings :=
  match subject env process call with
  | .ok (some provers) =>
      match result (configure env process call provers) settings with
      | .ok _ => some (final (configure env process call provers) settings)
      | .error _ => none
  | _ => none

end FramaCMcp.WpSettings
