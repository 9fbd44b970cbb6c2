/-
This file registers verification profiles and resolves the one that a reload request names, and
gives the markers that a reload declares stale.
-/

import FramaCMcp.Construction.Clauses
import FramaCMcp.Construction.Session

namespace FramaCMcp.ReloadRequest

open Profile LoadCommand MainProcess Session

/-- The gates and the command are only repeated to the caller. -/
structure RegisteredProfile extends VerificationProfile where
  buildGates : List String := []
  reproduce : Option String := none
  deriving DecidableEq

abbrev Registry := OrderedMap String RegisteredProfile

section Parsing

/-- This is the deserializer of the fields of one profile. -/
abbrev FromValue := Json → Except String RegisteredProfile

def jsonKind : Json → String
  | .null => "null"
  | .bool _ => "a boolean"
  | .num _ | .float _ => "a number"
  | .arr _ => "an array"
  | .str _ => "a string"
  | .obj _ => "an object"

/-- Each entry is trimmed, and a blank one is refused. -/
def trimEntries (name field : String) (entries : List String) : Except String (List String) :=
  entries.mapM fun entry =>
    let trimmed := Annotations.trim entry
    if trimmed = "" then
      .error ("profile \"" ++ name ++ "\" has a blank entry in " ++ field ++
        ", which can never match")
    else .ok trimmed

def parseVerificationProfile (fromValue : FromValue) (name : String) (body : Json) :
    Except String RegisteredProfile := do
  let profile ← (fromValue body).mapError fun error => "profile \"" ++ name ++ "\": " ++ error
  if profile.minGoals = some 0 then
    throw ("profile \"" ++ name ++ "\": min_goals 0 checks nothing; omit it to declare no floor")
  let functions ← trimEntries name "functions" profile.functions
  let provers ← trimEntries name "provers" profile.provers
  let buildGates ← trimEntries name "build_gates" profile.buildGates
  if functions.isEmpty && profile.sources.isEmpty then
    throw ("profile \"" ++ name ++ "\" names neither functions nor sources, so nothing " ++
      "could ever be matched to it")
  return { profile with functions := functions, provers := provers, buildGates := buildGates }

/-- The profiles are read in the order of the object. -/
def parseVerificationProfiles (fromValue : FromValue) (value : Json) : Except String Registry :=
  match value.asObject with
  | none =>
      .error ("profiles must be an object keyed by target name, got " ++ jsonKind value)
  | some [] => .error "profiles is empty, so no target could be named later"
  | some fields =>
      fields.foldlM (fun profiles field => do
        let profile ← parseVerificationProfile fromValue field.1 field.2
        return OrderedMap.insert profiles field.1 profile) OrderedMap.empty

end Parsing

structure RegisteringParams extends ReloadProjectParams where
  verifyProfiles : Option Json := none
  verifyProfilesSource : Option String := none
  verifyProfile : Option String := none

/-- Stale markers and stored conclusions are the rest. No step before the load reads them. -/
structure SessionData (Rest : Type) where
  server : Server
  verificationProfiles : Registry := OrderedMap.empty
  verificationProfilesSource : Option String := none
  rest : Rest

def unknownVerifyProfile (name : String) (registered : Registry) : Failure :=
  .invalidParams ("no verify_profile named \"" ++ name ++ "\". Registered: " ++
    (if registered.keys.isEmpty then "none" else Text.join registered.keys ", ") ++
    ". Register them through reload_project, emitted by the build system that defines the " ++
    "targets, so they cannot drift from the command that decides.")

def optionJson (value : Option Json) : Json := value.getD .null

/-- The answer of the call repeats what the profile supplied. -/
def profileUsed (params : RegisteringParams) (profile : RegisteredProfile) : Json :=
  .obj [("name", optionJson (params.verifyProfile.map .str)),
    ("sources", .arr (profile.sources.map .str)),
    ("model", optionJson (profile.model.map .str)),
    ("machdep", optionJson (profile.machdep.map .str)),
    ("rte", optionJson (profile.rte.map .bool)),
    ("isystem_paths", .arr (profile.isystemPaths.map .str)),
    ("nostdinc", optionJson (profile.nostdinc.map .bool)),
    ("reproduce", optionJson (profile.reproduce.map .str))]

variable {Rest : Type}

/-- A parsed set replaces the registered one together with its source. -/
def SessionData.register (session : SessionData Rest) (params : RegisteringParams)
    (profiles : Registry) : SessionData Rest :=
  { session with
    verificationProfiles := profiles
    verificationProfilesSource := params.verifyProfilesSource }

def namedProfile (params : RegisteringParams) (profiles : Registry) :
    Except Failure (Option RegisteredProfile) :=
  match params.verifyProfile with
  | none => .ok none
  | some name =>
      match profiles.lookup name with
      | some profile => .ok (some profile)
      | none => .error (unknownVerifyProfile name profiles)

/-- The set is registered before the name is resolved. -/
def resolveVerifyProfile (fromValue : FromValue) (params : RegisteringParams)
    (session : SessionData Rest) :
    Except Failure (Option RegisteredProfile × Option Json) × SessionData Rest :=
  match params.verifyProfiles.map (parseVerificationProfiles fromValue) with
  | some (.error error) => (.error (.invalidParams error), session)
  | some (.ok profiles) =>
      let registered := session.register params profiles
      ((namedProfile params registered.verificationProfiles).map fun profile =>
        (profile, profile.map (profileUsed params)), registered)
  | none =>
      ((namedProfile params session.verificationProfiles).map fun profile =>
        (profile, profile.map (profileUsed params)), session)

/-- A request is refused, or a process is asked to load its files. -/
inductive Answer where
  | refused (failure : Failure)
  | loaded (result : Except Failure Unit) (verifyProfile : Option Json)

variable [Sha256]

/-- The profile of the call is the one that its request resolves. -/
def reloadProject (env : Environment) (fromValue : FromValue) (params : RegisteringParams)
    (call : ReloadCall) (session : SessionData Rest) : Answer × SessionData Rest :=
  if call.locked then (.refused .projectLocked, session)
  else
    match resolveVerifyProfile fromValue params session with
    | (.error failure, resolved) => (.refused failure, resolved)
    | (.ok (profile, used), resolved) =>
        let call :=
          { call with
            params := params.toReloadProjectParams
            profile := .ok (profile.map RegisteredProfile.toVerificationProfile) }
        match admitted call with
        | .error failure => (.refused failure, resolved)
        | .ok _ =>
            let loaded := Session.reloadProject env call resolved.server
            (.loaded loaded.1 used, { resolved with server := loaded.2 })

end FramaCMcp.ReloadRequest

namespace FramaCMcp.StaleMarkers

open Goals

/-- A marker denotes a declaration or a property at one place of the program. -/
structure MarkerLocation where
  markerKind : String
  marker : String
  functionMarker : Option String := none
  functionName : Option String := none
  kinstrMarker : Option String := none
  sourceFile : Option String := none
  sourceLine : Option Nat := none
  deriving DecidableEq, Repr

structure StaleMarker where
  previous : MarkerLocation
  current : MarkerLocation
  deriving DecidableEq

def markerFileLine (location : Option Json) : Option String × Option Nat :=
  ((location.bind (Json.get · "file")).bind Json.asStr,
    (location.bind (Json.get · "line")).bind Json.asU64)

def textAt (entry : Json) (key : String) : Option String := (entry.get key).bind Json.asStr

/-- A function has a marker for its declaration and one for its variable. -/
def functionMarkerLocation (entry : Json) (marker : String) : MarkerLocation where
  markerKind := "function"
  marker := marker
  functionMarker := textAt entry "decl"
  functionName := textAt entry "name"
  sourceFile := (markerFileLine (entry.get "sloc")).1
  sourceLine := (markerFileLine (entry.get "sloc")).2

def functionMarkerLocations (entries : List Json) : HashMap MarkerLocation :=
  HashMap.ofList (entries.flatMap fun entry =>
    ([textAt entry "decl", textAt entry "key"].filterMap id).map fun marker =>
      (marker, functionMarkerLocation entry marker))

def propertyMarkerLocation (functionNames : HashMap String) (property : Json) (marker : String) :
    MarkerLocation where
  markerKind := "property"
  marker := marker
  functionMarker := textAt property "scope"
  functionName := (textAt property "scope").bind functionNames.lookup
  kinstrMarker := (property.get "kinstr_marker" <|> property.get "kinstr").bind Json.asStr
  sourceFile := (markerFileLine
    (property.get "source_location" <|> property.get "source" <|> property.get "loc")).1
  sourceLine := (markerFileLine
    (property.get "source_location" <|> property.get "source" <|> property.get "loc")).2

def propertyMarkerLocations (properties : List Json) (functionNames : HashMap String) :
    HashMap MarkerLocation :=
  HashMap.ofList (properties.filterMap fun property =>
    (valueMarker property).map fun marker =>
      (marker, propertyMarkerLocation functionNames property marker))

/-- These are the tables that Frama-C answers. -/
structure MarkerTables where
  functions : List Json := []
  properties : List Json := []

def functionNames (functions : List Json) : HashMap String :=
  HashMap.ofList (functions.filterMap fun function =>
    (textAt function "decl").bind fun declaration =>
      (textAt function "name").map fun name => (declaration, name))

/-- A property takes the place of a function with the same marker. -/
def markerLocationSnapshot (tables : MarkerTables) : HashMap MarkerLocation :=
  propertyMarkerLocations (tables.properties.map addIdentityFields)
      (functionNames tables.functions) ∪
    functionMarkerLocations tables.functions

def missingLocation (marker : String) : MarkerLocation where
  markerKind := "missing"
  marker := marker

/-- A marker is stale where its place before the reload is not its place after it. -/
def staleMarkerLocations (previous current : HashMap MarkerLocation) : HashMap StaleMarker :=
  previous.filterMap fun marker oldLocation =>
    let newLocation := (current.lookup marker).getD (missingLocation marker)
    if oldLocation = newLocation then none else some ⟨oldLocation, newLocation⟩

/-- The session knows the stale markers of the last reload. The last component is no part of the
server: it is the place that each marker denoted when the caller last read it. -/
structure Session where
  tables : MarkerTables
  staleMarkers : HashMap StaleMarker := ∅
  lastRead : HashMap MarkerLocation := ∅

namespace Session

/-- This is the place that a marker denotes now. -/
def denoted (session : Session) (marker : String) : Option MarkerLocation :=
  (markerLocationSnapshot session.tables).lookup marker

/-- A use of a stale marker is refused. -/
def rejectStaleMarker (session : Session) (marker : String) : Bool :=
  (session.staleMarkers.lookup marker).isSome

end Session

/-- The tables also change without a completed reload. Each snapshot of a reload may fail. -/
inductive Event where
  | reload (after : MarkerTables) (previousRead currentRead : Bool)
  | change (after : MarkerTables)
  | read (marker : String)

/-- A failed snapshot leaves no marker stale. -/
def reloadStaleMarkers (previous current : Option (HashMap MarkerLocation)) :
    HashMap StaleMarker :=
  match previous, current with
  | some previous, some current => staleMarkerLocations previous current
  | _, _ => ∅

def snapshot? (answered : Bool) (tables : MarkerTables) : Option (HashMap MarkerLocation) :=
  if answered then some (markerLocationSnapshot tables) else none

namespace Session

/-- A read returns a marker that denotes something. -/
def step (session : Session) : Event → Session
  | .reload after previousRead currentRead =>
      { session with
        tables := after
        staleMarkers := reloadStaleMarkers (snapshot? previousRead session.tables)
          (snapshot? currentRead after) }
  | .change after => { session with tables := after }
  | .read marker =>
      match session.denoted marker with
      | some location => { session with lastRead := session.lastRead.insert marker location }
      | none => session

def run (session : Session) (events : List Event) : Session := events.foldl step session

end Session

end FramaCMcp.StaleMarkers
