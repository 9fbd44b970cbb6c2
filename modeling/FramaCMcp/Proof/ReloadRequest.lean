/-
This file shows what a refused reload leaves behind, and which sessions refuse exactly the markers
that moved since the caller read them.
-/

import FramaCMcp.Construction.ReloadRequest

namespace FramaCMcp.ReloadRequest

open LoadCommand MainProcess Session

variable {Rest : Type} (fromValue : FromValue) (params : RegisteringParams)

/-- The call carries a set that can be read. -/
def Registers (profiles : Registry) : Prop :=
  ∃ value, params.verifyProfiles = some value ∧
    parseVerificationProfiles fromValue value = .ok profiles

section Resolution

variable (session : SessionData Rest)

theorem resolveVerifyProfile_registers {profiles : Registry}
    (registers : Registers fromValue params profiles) :
    (resolveVerifyProfile fromValue params session).2 = session.register params profiles := by
  obtain ⟨value, given, parsed⟩ := registers
  rw [resolveVerifyProfile, given, Option.map_some, parsed]

/-- Without a set that can be read nothing is replaced. -/
theorem resolveVerifyProfile_keeps
    (silent : ∀ profiles, ¬Registers fromValue params profiles) :
    (resolveVerifyProfile fromValue params session).2 = session := by
  rw [resolveVerifyProfile]
  split
  · rfl
  · rename_i profiles registering
    obtain ⟨value, given, parsed⟩ := Option.map_eq_some_iff.mp registering
    exact absurd ⟨value, given, parsed⟩ (silent profiles)
  · rfl

end Resolution

section Refusal

variable [Sha256] (env : Environment) (call : ReloadCall) {session : SessionData Rest}
  {failure : Failure}

/-- A refused request leaves what its resolution left. -/
theorem reloadProject_refused
    (refused : (reloadProject env fromValue params call session).1 = .refused failure) :
    (reloadProject env fromValue params call session).2 =
      if call.locked then session else (resolveVerifyProfile fromValue params session).2 := by
  rw [reloadProject] at refused ⊢
  split_ifs at refused ⊢ with locked
  · rfl
  · split at refused
    · rename_i resolved found
      rw [found]
    · rename_i profile used resolved found
      rw [found]
      dsimp only at refused ⊢
      split at refused
      · rfl
      · cases refused

/-- A refused request registers the profiles that it carries and changes nothing else. -/
theorem reloadProject_refused_keeps
    (refused : (reloadProject env fromValue params call session).1 = .refused failure) :
    (∀ profiles, Registers fromValue params profiles → call.locked = false →
      (reloadProject env fromValue params call session).2 =
        { session with
          verificationProfiles := profiles
          verificationProfilesSource := params.verifyProfilesSource }) ∧
      ((call.locked = true ∨ ∀ profiles, ¬Registers fromValue params profiles) →
        (reloadProject env fromValue params call session).2 = session) := by
  rw [reloadProject_refused fromValue params env call refused]
  constructor
  · intro profiles registers unlocked
    rw [unlocked]
    exact resolveVerifyProfile_registers fromValue params session registers
  · rintro (locked | silent)
    · rw [locked]
      rfl
    · rw [resolveVerifyProfile_keeps fromValue params session silent, ite_self]

end Refusal

section Instances

/-- This reads the sources of a profile. -/
def exampleFromValue : FromValue := fun body =>
  .ok { sources := (((body.index "sources").asArray).getD []).filterMap Json.asStr }

/-- The set names one target, and the request loads another one. -/
def unknownName : RegisteringParams where
  verifyProfiles := some (.obj [("elf", .obj [("sources", .arr [.str "elf.c"])])])
  verifyProfilesSource := some "make print-verify-profiles"
  verifyProfile := some "gva"

def exampleSession : SessionData Unit where
  server := Server.initial { disk := [], pending := [] }
  rest := ()

def exampleCall : ReloadCall where
  params := {}
  answers := { answers := fun _ => true, logLength := .ok 1 }

def quietEnvironment : Environment where
  clock _ written := some written
  preprocessor _ _ := []
  builtinHeader := none
  executableInPath _ := false
  framaCPath := "frama-c"
  socketPath := "/tmp/frama-c.sock"

/-- The registry of the refused call. -/
def elfRegistry : Registry := OrderedMap.insert OrderedMap.empty "elf" { sources := ["elf.c"] }

theorem unknownName_registers : Registers exampleFromValue unknownName elfRegistry :=
  ⟨_, rfl, rfl⟩

theorem unknownName_refused :
    (@reloadProject _ (.ofTable [] rfl) quietEnvironment exampleFromValue unknownName exampleCall
      exampleSession).1 = .refused (unknownVerifyProfile "gva" elfRegistry) := rfl

theorem reloadProject_refused_keeps_unknownName :
    (@reloadProject _ (.ofTable [] rfl) quietEnvironment exampleFromValue unknownName exampleCall
      exampleSession).2 =
        { exampleSession with
          verificationProfiles := elfRegistry
          verificationProfilesSource := some "make print-verify-profiles" } :=
  (@reloadProject_refused_keeps _ exampleFromValue unknownName (.ofTable [] rfl)
    quietEnvironment exampleCall exampleSession _ unknownName_refused).1
    elfRegistry unknownName_registers rfl

/-- The set is registered although the name in the request is unknown. -/
theorem not_reloadProject_refused_unchanged :
    ¬∀ [Sha256] (env : Environment) (fromValue : FromValue) (params : RegisteringParams)
      (call : ReloadCall) (session : SessionData Unit) (failure : Failure),
      (reloadProject env fromValue params call session).1 = .refused failure →
        (reloadProject env fromValue params call session).2 = session := by
  intro unchanged
  have same := @unchanged (.ofTable [] rfl) quietEnvironment exampleFromValue unknownName
    exampleCall exampleSession _ unknownName_refused
  have source := congrArg SessionData.verificationProfilesSource same
  cases source

end Instances

end FramaCMcp.ReloadRequest

namespace FramaCMcp.StaleMarkers

/-- A function and a property are never missing. -/
theorem ne_missingLocation {tables : MarkerTables} {marker : String} {location : MarkerLocation}
    (found : (markerLocationSnapshot tables).lookup marker = some location) (name : String) :
    location ≠ missingLocation name := by
  suffices kinds : location.markerKind = "property" ∨ location.markerKind = "function" by
    rintro rfl
    rcases kinds with same | same
    · exact absurd same (show "missing" ≠ "property" by decide)
    · exact absurd same (show "missing" ≠ "function" by decide)
  rcases AList.mem_lookup_union.mp found with property | ⟨-, function⟩
  · have member := HashMap.mem_of_lookup_ofList _ _ _ property
    obtain ⟨row, -, placed⟩ := List.mem_filterMap.mp member
    obtain ⟨_, -, same⟩ := Option.map_eq_some_iff.mp placed
    exact .inl (by rw [← (Prod.mk.inj same).2]; rfl)
  · have member := HashMap.mem_of_lookup_ofList _ _ _ function
    obtain ⟨row, -, placed⟩ := List.mem_flatMap.mp member
    obtain ⟨_, -, same⟩ := List.mem_map.mp placed
    exact .inr (by rw [← (Prod.mk.inj same).2]; rfl)

/-- A reload moved a marker that denoted something before it and not the same after it. -/
def Moved (before after : Option MarkerLocation) : Prop := before ≠ none ∧ after ≠ before

theorem isSome_staleMarkerLocations (previous current : MarkerTables) (marker : String) :
    ((staleMarkerLocations (markerLocationSnapshot previous)
        (markerLocationSnapshot current)).lookup marker).isSome = true ↔
      Moved ((markerLocationSnapshot previous).lookup marker)
        ((markerLocationSnapshot current).lookup marker) := by
  rw [staleMarkerLocations, HashMap.lookup_filterMap]
  cases before : (markerLocationSnapshot previous).lookup marker with
  | none => simp [Moved]
  | some old =>
      have present := ne_missingLocation before marker
      cases after : (markerLocationSnapshot current).lookup marker with
      | none => simp [Moved, present]
      | some new =>
          by_cases same : old = new
          · simp [Moved, same]
          · simp [Moved, same, Ne.symm same]

/-- The reload says something about a held marker in three cases: the marker was still where the
caller read it, or a missing one comes back to that place, or the reload moves it to a third place. -/
def Follows (before after : Option MarkerLocation) (location : MarkerLocation) : Prop :=
  before = some location ∨ (before = none ∧ after = some location) ∨
    (Moved before after ∧ after ≠ some location)

theorem moved_iff_follows (before after : Option MarkerLocation) (location : MarkerLocation) :
    (Moved before after ↔ after ≠ some location) ↔ Follows before after location := by
  cases before with
  | none => simp [Moved, Follows]
  | some old =>
      by_cases kept : old = location
      · simp [Moved, Follows, kept]
      · by_cases unmoved : after = some old
        · simp [Moved, Follows, kept, unmoved]
        · simp [Moved, Follows, kept, unmoved]

namespace Session

/-- The caller read the marker at this place and at no later time. -/
def Holds (session : Session) (marker : String) (location : MarkerLocation) : Prop :=
  session.lastRead.lookup marker = some location

/-- A held marker is refused exactly where it denotes another place than the caller read. -/
def Exact (session : Session) : Prop :=
  ∀ marker location, session.Holds marker location →
    (session.rejectStaleMarker marker = true ↔ session.denoted marker ≠ some location)

/-- This is what an event must do to the held markers. A marker that the last reload moved is not
read again, a completed reload with both tables follows each held marker, and any other change
leaves a held marker in place or, where it is refused already, away from its place. -/
def Meets (session : Session) : Event → Prop
  | .reload after previousRead currentRead => ∀ marker location, session.Holds marker location →
      if previousRead && currentRead then
        Follows (session.denoted marker) ((markerLocationSnapshot after).lookup marker) location
      else (markerLocationSnapshot after).lookup marker = some location
  | .change after => ∀ marker location, session.Holds marker location →
      if session.rejectStaleMarker marker then
        (markerLocationSnapshot after).lookup marker ≠ some location
      else (markerLocationSnapshot after).lookup marker = some location
  | .read marker => session.denoted marker ≠ none → session.rejectStaleMarker marker = false

/-- The gate of a reload knows the two tables and nothing else. -/
theorem rejectStaleMarker_reload (session : Session) (after : MarkerTables)
    (previousRead currentRead : Bool) (marker : String) :
    (session.step (.reload after previousRead currentRead)).rejectStaleMarker marker = true ↔
      (previousRead && currentRead) = true ∧
        Moved (session.denoted marker) ((markerLocationSnapshot after).lookup marker) := by
  cases previousRead <;> cases currentRead
  case true.true =>
    rw [Bool.and_self, eq_self_iff_true, true_and]
    exact isSome_staleMarkerLocations session.tables after marker
  all_goals simp [step, rejectStaleMarker, snapshot?, reloadStaleMarkers]

@[simp] theorem denoted_reload (session : Session) (after : MarkerTables)
    (previousRead currentRead : Bool) (marker : String) :
    (session.step (.reload after previousRead currentRead)).denoted marker =
      (markerLocationSnapshot after).lookup marker := rfl

theorem exact_reload_iff (session : Session) (after : MarkerTables)
    (previousRead currentRead : Bool) :
    (session.step (.reload after previousRead currentRead)).Exact ↔
      session.Meets (.reload after previousRead currentRead) := by
  refine forall_congr' fun marker => forall_congr' fun location => forall_congr' fun _ => ?_
  rw [rejectStaleMarker_reload, denoted_reload]
  by_cases both : (previousRead && currentRead) = true
  · rw [if_pos both, ← moved_iff_follows, and_iff_right both]
  · rw [if_neg both]
    simp [both]

theorem exact_change_iff (session : Session) (after : MarkerTables) :
    (session.step (.change after)).Exact ↔ session.Meets (.change after) := by
  refine forall_congr' fun marker => forall_congr' fun location => forall_congr' fun _ => ?_
  have gate : (session.step (.change after)).rejectStaleMarker marker =
      session.rejectStaleMarker marker := rfl
  have place : (session.step (.change after)).denoted marker =
      (markerLocationSnapshot after).lookup marker := rfl
  rw [gate, place]
  cases session.rejectStaleMarker marker <;> simp

theorem exact_read_iff {session : Session} (exact : session.Exact) (marker : String) :
    (session.step (.read marker)).Exact ↔ session.Meets (.read marker) := by
  cases found : session.denoted marker with
  | none =>
      have same : session.step (.read marker) = session := by rw [step, found]
      rw [same]
      simp [Meets, found, exact]
  | some location =>
      have next : session.step (.read marker) =
          { session with lastRead := session.lastRead.insert marker location } := by
        rw [step, found]
      rw [next, Meets, found]
      constructor
      · intro later _
        have own := later marker location (AList.lookup_insert session.lastRead)
        by_contra refused
        exact own.mp (Bool.eq_true_of_not_eq_false refused) found
      · intro kept name place held
        by_cases same : name = marker
        · subst same
          obtain rfl := Option.some.inj ((AList.lookup_insert session.lastRead).symm.trans held)
          have accepted := kept (by simp)
          constructor
          · intro refused
            exact absurd (refused.symm.trans accepted) (by decide)
          · exact fun away => absurd found away
        · exact exact name place ((AList.lookup_insert_ne same).symm.trans held)

/-- One event keeps the gate exact where it meets the condition, and nowhere else. -/
theorem exact_step_iff {session : Session} (exact : session.Exact) (event : Event) :
    (session.step event).Exact ↔ session.Meets event := by
  cases event with
  | reload after previousRead currentRead =>
      exact exact_reload_iff session after previousRead currentRead
  | change after => exact exact_change_iff session after
  | read marker => exact exact_read_iff exact marker

theorem exact_start (tables : MarkerTables) : Session.Exact { tables := tables } := by
  intro marker location held
  cases held

theorem run_append_singleton (session : Session) (events : List Event) (event : Event) :
    session.run (events ++ [event]) = (session.run events).step event := by
  rw [run, List.foldl_append]
  rfl

/-- The gate is exact at each point of a session exactly where each event meets the condition in
the state that it finds. -/
theorem staleMarkerGate_exact_iff (tables : MarkerTables) (events : List Event) :
    (∀ passed, passed <+: events → (Session.run { tables := tables } passed).Exact) ↔
      ∀ passed event, passed ++ [event] <+: events →
        (Session.run { tables := tables } passed).Meets event := by
  constructor
  · intro exact passed event reached
    have before := exact passed ((List.prefix_append passed [event]).trans reached)
    rw [← exact_step_iff before, ← run_append_singleton]
    exact exact _ reached
  · intro meets passed reached
    induction passed using List.reverseRecOn with
    | nil => exact exact_start tables
    | append_singleton passed event ih =>
        have before := ih ((List.prefix_append passed [event]).trans reached)
        rw [run_append_singleton, exact_step_iff before]
        exact meets passed event reached

/-- The function of this table stands on the given line. -/
def tablesAt (line : Int) : MarkerTables where
  functions := [.obj [("decl", .str "#F12"), ("name", .str "f"),
    ("sloc", .obj [("file", .str "f.c"), ("line", .num line)])]]

/-- The second reload forgets what the first one moved. -/
example : (Session.run { tables := tablesAt 3 } [.read "#F12", .reload (tablesAt 4) true true,
    .reload (tablesAt 4) true true]).rejectStaleMarker "#F12" = false := rfl

/-- A marker that is read after the reload that moved it is still refused. -/
theorem not_staleMarkerGate_exact : ¬ ∀ (tables : MarkerTables) (events : List Event),
    (Session.run { tables := tables } events).Exact := by
  intro exact
  have refused := (exact (tablesAt 3) [.reload (tablesAt 4) true true, .read "#F12"] "#F12"
    (functionMarkerLocation (tablesAt 4).functions.head! "#F12") (by rfl)).mp (by rfl)
  exact refused (by rfl)

end Session

end FramaCMcp.StaleMarkers
