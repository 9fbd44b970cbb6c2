/-
This file proves when the session caches describe the tree that the process holds.
-/

import FramaCMcp.Construction.Session

namespace FramaCMcp.Session

open Receipt LoadCommand MainProcess

/-- These are the builds behind the call graph, the receipts and the two flags. -/
def SessionState.besidesBuilds (state : SessionState) : List Nat :=
  state.callgraphEdges.map Cached.build ++ state.callgraphVertices.map Cached.build ++
    state.seenReceipts.map Cached.build ++ state.evaCompleted.toList ++ state.wpCompleted.toList

/-- A cached value was read from this build. -/
def SessionState.Caches (state : SessionState) (build : Nat) : Prop :=
  (∃ name cached, state.functions.lookup name = some cached ∧ cached.build = build) ∨
    build ∈ state.besidesBuilds

/-- Where a project is loaded, each cached value was read from the tree in the process. -/
def CachesDescribe (server : Server) : Prop :=
  server.state.projectLoaded = false ∨
    ∀ build, server.state.Caches build → server.currentBuild = some build

theorem caches_updateFunctions {state : SessionState} {build other : Nat} {entries : List Json}
    (caches : (state.updateFunctions build entries).Caches other) :
    other = build ∨ other ∈ state.besidesBuilds := by
  rcases caches with ⟨name, cached, found, rfl⟩ | besides
  · have listed := HashMap.mem_of_lookup_ofList _ name cached found
    obtain ⟨entry, -, same⟩ := List.mem_map.mp listed
    exact .inl (congrArg Cached.build (Prod.ext_iff.mp same).2).symm
  · exact .inr besides

theorem not_caches_initial (build : Nat) : ¬ ({} : SessionState).Caches build := by
  rintro (⟨name, cached, found, -⟩ | besides)
  · cases found
  · cases besides

@[simp] theorem functions_rememberReceipt (state : SessionState) (build : Nat) (sha256 : String)
    (receipt : Json) : (state.rememberReceipt build sha256 receipt).functions = state.functions := by
  unfold SessionState.rememberReceipt
  split_ifs <;> rfl

theorem besides_updateCallgraph {state : SessionState} {build other : Nat} {graph : Json}
    (besides : other ∈ (state.updateCallgraph build graph).besidesBuilds) :
    other = build ∨ other ∈ state.besidesBuilds := by
  have stamped {Value : Type} (values : List Value) :
      (values.map fun value => (⟨build, value⟩ : Cached Value)).map Cached.build =
        values.map fun _ => build := by
    rw [List.map_map]
    rfl
  simp only [SessionState.updateCallgraph, SessionState.besidesBuilds, stamped, List.mem_append,
    List.mem_map] at besides ⊢
  rcases besides with (((⟨_, -, rfl⟩ | ⟨_, -, rfl⟩) | receipts) | eva) | wp
  · exact .inl rfl
  · exact .inl rfl
  · exact .inr (.inl (.inl (.inr receipts)))
  · exact .inr (.inl (.inr eva))
  · exact .inr (.inr wp)

theorem projectLoaded_apply (state : SessionState) (build : Nat) (tool : Tool) :
    (tool.apply build state).projectLoaded = state.projectLoaded := by
  cases tool with
  | cacheCallgraph graph =>
      rw [Tool.apply]
      split_ifs <;> rfl
  | rememberReceipt sha256 receipt =>
      rw [Tool.apply, SessionState.rememberReceipt]
      split_ifs <;> rfl
  | refreshFunctions | refreshGlobals | evaComputed | evaDiscarded | wpCompleted => rfl

theorem besides_rememberReceipt {state : SessionState} {build other : Nat} {sha256 : String}
    {receipt : Json}
    (besides : other ∈ (state.rememberReceipt build sha256 receipt).besidesBuilds) :
    other = build ∨ other ∈ state.besidesBuilds := by
  have fewer : other ∈ state.seenReceipts.tail.map Cached.build →
      other ∈ state.seenReceipts.map Cached.build := fun member =>
    List.map_subset _ (List.tail_subset _) member
  unfold SessionState.rememberReceipt at besides
  split_ifs at besides with known full
  · exact .inr besides
  all_goals
    simp only [SessionState.besidesBuilds, List.map_append, List.mem_append, List.map_cons,
      List.map_nil, List.mem_singleton] at besides fewer ⊢
    tauto

/-- A tool adds values of the tree in the process only. -/
theorem caches_apply {state : SessionState} {build other : Nat} {tool : Tool}
    (caches : (tool.apply build state).Caches other) : other = build ∨ state.Caches other := by
  cases tool with
  | refreshFunctions entries => exact (caches_updateFunctions caches).imp_right .inr
  | refreshGlobals entries => exact .inr caches
  | cacheCallgraph graph =>
      simp only [Tool.apply] at caches
      split_ifs at caches with empty
      · rcases caches with named | besides
        · exact .inr (.inl named)
        · exact (besides_updateCallgraph besides).imp_right .inr
      · exact .inr caches
  | rememberReceipt sha256 receipt =>
      rcases caches with named | besides
      · rw [Tool.apply, functions_rememberReceipt] at named
        exact .inr (.inl named)
      · exact (besides_rememberReceipt besides).imp_right .inr
  | evaComputed | evaDiscarded | wpCompleted =>
      simp only [SessionState.Caches, SessionState.besidesBuilds, Tool.apply, List.mem_append,
        Option.mem_toList, Option.some.injEq, reduceCtorEq] at caches ⊢
      grind

/-- The new process starts and its client connects. -/
def connects (env : Environment) (answers : Answers) (files : List String)
    (options : ProjectLoadOptions) : Bool :=
  (startProcess env answers files options).toBool && answers.connected.toBool

/-- Each of these requests is answered. -/
def answered (answers : Answers) (requests : List String) : Bool := requests.all answers.answers

theorem requestAll_eq_ok_iff (answers : Answers) (requests : List String) :
    requestAll answers.answers requests = .ok () ↔ answered answers requests = true := by
  unfold requestAll answered
  cases found : requests.find? fun name => !answers.answers name with
  | none => simpa using found
  | some name =>
      have silent := List.find?_some found
      have member := List.mem_of_find?_eq_some found
      simp only [reduceCtorEq, List.all_eq_true, false_iff, not_forall]
      exact ⟨name, member, by simpa using silent⟩

/-- The process holds the next build. The caches of these builds were left as they were. -/
structure Rebuilt (left : Nat → Prop) (server after : Server) : Prop where
  build : after.currentBuild = some server.process.builds
  builds : after.process.builds = server.process.builds + 1
  loaded : after.state.projectLoaded = true
  caches : ∀ build, after.state.Caches build → build = server.process.builds ∨ left build
  kept : ∀ build, left build → after.state.Caches build
  earlier : ∀ build, left build → server.state.Caches build

/-- The process and the session are as they were. -/
structure Kept (server after : Server) : Prop where
  main : after.process.main = server.process.main
  builds : after.process.builds = server.process.builds
  state : after.state = server.state

/-- The tree in the process is in doubt, and so no project is loaded. -/
structure Doubtful (server after : Server) : Prop where
  builds : after.process.builds = server.process.builds + 1
  build : ∀ build, after.currentBuild = some build →
    build = server.process.builds ∨ server.currentBuild = some build
  loaded : after.state.projectLoaded = false
  caches : ∀ build, after.state.Caches build ↔ server.state.Caches build

variable {server : Server}

theorem currentBuild_cacheDiagnostics (bootLog : Except String Bytes) (process : Instance)
    (state : SessionState) :
    (Server.mk (cacheDiagnostics bootLog process) state).currentBuild =
      (Server.mk process state).currentBuild := by
  rcases process with ⟨_ | ⟨state, client⟩, world, builds⟩ <;> cases bootLog <;> rfl

theorem builds_cacheDiagnostics (bootLog : Except String Bytes) (process : Instance) :
    (cacheDiagnostics bootLog process).builds = process.builds := by
  rcases process with ⟨_ | ⟨state, client⟩, world, builds⟩ <;> cases bootLog <;> rfl

/-- The tree stays the same, and the caches are renewed where each request is answered. -/
structure Refreshed (call : ReloadCall) (server after : Server) : Prop where
  build : after.currentBuild = server.currentBuild
  builds : after.process.builds = server.process.builds
  caches : if answered call.answers (setterRequests ++ healthRequests) then
      ∀ build, after.state.Caches build → server.currentBuild = some build
    else after.state = server.state

theorem refresh_refreshed (call : ReloadCall) {build : Nat}
    (current : server.currentBuild = some build) :
    Refreshed call server (refresh call server).2 := by
  have both : answered call.answers (setterRequests ++ healthRequests) =
      (answered call.answers setterRequests && answered call.answers healthRequests) :=
    List.all_append
  unfold refresh
  cases main : server.process.main with
  | none =>
      rw [Server.currentBuild, main] at current
      cases current
  | some pair =>
      obtain ⟨state, client⟩ := pair
      have silent {requests : List String} {error : Failure}
          (failed : requestAll call.answers.answers requests = .error error) :
          answered call.answers requests = false := by
        rw [Bool.eq_false_iff]
        intro all
        rw [(requestAll_eq_ok_iff ..).mpr all] at failed
        cases failed
      cases setters : requestAll call.answers.answers setterRequests with
      | error error =>
          exact ⟨rfl, rfl, by rw [both, silent setters]; rfl⟩
      | ok _ =>
          cases health : requestAll call.answers.answers healthRequests with
          | error error =>
              refine ⟨currentBuild_cacheDiagnostics .., builds_cacheDiagnostics .., ?_⟩
              rw [both, silent health, Bool.and_false]
              rfl
          | ok _ =>
              refine ⟨currentBuild_cacheDiagnostics .., builds_cacheDiagnostics .., ?_⟩
              rw [both, (requestAll_eq_ok_iff ..).mp setters, (requestAll_eq_ok_iff ..).mp health]
              intro other caches
              rcases caches_updateFunctions caches with rfl | besides
              · rw [Server.currentBuild, main] at current ⊢
                rw [show client.ast.map Ast.build = some build from current]
                exact current
              · cases besides

/-- Each build that the session knows of was made before the next one. -/
structure Numbered (server : Server) : Prop where
  caches : ∀ build, server.state.Caches build → build < server.process.builds
  current : ∀ build, server.currentBuild = some build → build < server.process.builds

theorem Numbered.refreshed {call : ReloadCall} {after : Server} (numbered : Numbered server)
    (refreshed : Refreshed call server after) : Numbered after := by
  refine ⟨fun build caches => ?_, fun build current => ?_⟩
  · rw [refreshed.builds]
    have renewed := refreshed.caches
    split_ifs at renewed with all
    · exact numbered.current build (renewed build caches)
    · exact numbered.caches build (renewed ▸ caches)
  · rw [refreshed.builds]
    exact numbered.current build (refreshed.build ▸ current)

theorem Numbered.rebuilt {left : Nat → Prop} {after : Server} (numbered : Numbered server)
    (rebuilt : Rebuilt left server after) : Numbered after := by
  refine ⟨fun build caches => ?_, fun build current => ?_⟩
  · rw [rebuilt.builds]
    rcases rebuilt.caches build caches with rfl | kept
    · exact Nat.lt_succ_self _
    · exact Nat.lt_succ_of_lt (numbered.caches build (rebuilt.earlier build kept))
  · rw [rebuilt.builds, ← Option.some.inj (rebuilt.build.symm.trans current)]
    exact Nat.lt_succ_self _

theorem Numbered.doubtful {after : Server} (numbered : Numbered server)
    (doubtful : Doubtful server after) : Numbered after := by
  refine ⟨fun build caches => ?_, fun build current => ?_⟩
  · rw [doubtful.builds]
    exact Nat.lt_succ_of_lt (numbered.caches build ((doubtful.caches build).mp caches))
  · rw [doubtful.builds]
    rcases doubtful.build build current with rfl | earlier
    · exact Nat.lt_succ_self _
    · exact Nat.lt_succ_of_lt (numbered.current build earlier)

theorem Kept.currentBuild {after : Server} (kept : Kept server after) :
    after.currentBuild = server.currentBuild := by
  rw [Server.currentBuild, Server.currentBuild, kept.main]

theorem Numbered.kept {after : Server} (numbered : Numbered server) (kept : Kept server after) :
    Numbered after where
  caches build caches := kept.builds ▸ numbered.caches build (kept.state ▸ caches)
  current build current := kept.builds ▸ numbered.current build (kept.currentBuild ▸ current)

/-- After a rebuild the caches are stale exactly where a later request fails and some were left. -/
theorem describes_refreshed_iff {call : ReloadCall} {left : Nat → Prop} {rebuiltServer after : Server}
    (numbered : Numbered server) (rebuilt : Rebuilt left server rebuiltServer)
    (refreshed : Refreshed call rebuiltServer after) :
    CachesDescribe after ↔
      ¬ (answered call.answers (setterRequests ++ healthRequests) = false ∧
        ∃ build, left build) := by
  have renewed := refreshed.caches
  split_ifs at renewed with all
  · rw [all]
    simp only [Bool.true_eq_false, false_and, not_false_eq_true, iff_true]
    refine .inr fun build caches => ?_
    rw [refreshed.build]
    exact renewed build caches
  · rw [Bool.eq_false_iff.mpr all]
    simp only [true_and]
    constructor
    · rintro describes ⟨build, kept⟩
      rw [CachesDescribe, renewed, rebuilt.loaded, refreshed.build, rebuilt.build] at describes
      rcases describes with loaded | current
      · cases loaded
      · have same := Option.some.inj (current build (rebuilt.kept build kept))
        exact absurd (numbered.caches build (rebuilt.earlier build kept)) (by omega)
    · intro none
      rw [CachesDescribe, renewed, refreshed.build, rebuilt.build]
      refine .inr fun build caches => ?_
      rcases rebuilt.caches build caches with rfl | kept
      · rfl
      · exact absurd ⟨build, kept⟩ none

/-- A tool keeps the tree and reads from it. -/
theorem Numbered.tool (tool : Tool) (numbered : Numbered server) : Numbered (tool.run server) := by
  unfold Tool.run
  cases current : server.currentBuild with
  | none => exact numbered
  | some build =>
      refine ⟨fun other caches => ?_, numbered.current⟩
      rcases caches_apply caches with rfl | before
      · exact numbered.current _ current
      · exact numbered.caches _ before

theorem CachesDescribe.tool (tool : Tool) (describes : CachesDescribe server) :
    CachesDescribe (tool.run server) := by
  unfold Tool.run
  cases current : server.currentBuild with
  | none => exact describes
  | some build =>
      refine describes.imp (projectLoaded_apply ..).trans fun all other caches => ?_
      rcases caches_apply caches with rfl | before
      · exact current
      · exact all other before

theorem currentBuild_poisonTransport (server : Server) :
    server.poisonTransport.currentBuild = server.currentBuild := by
  rcases server with ⟨⟨_ | ⟨state, client⟩, world, builds⟩, session⟩ <;> rfl

theorem Numbered.poisonTransport (numbered : Numbered server) : Numbered server.poisonTransport where
  caches := numbered.caches
  current build current := numbered.current build (currentBuild_poisonTransport server ▸ current)

theorem CachesDescribe.poisonTransport (describes : CachesDescribe server) :
    CachesDescribe server.poisonTransport :=
  describes.imp_right fun all build caches =>
    (currentBuild_poisonTransport server).trans (all build caches)

theorem numbered_initial (world : World) : Numbered (Server.initial world) where
  caches build caches := absurd caches (not_caches_initial build)
  current build current := by cases current

section

variable [Sha256] {env : Environment}

/-- The call replaces the process. -/
def respawns (env : Environment) (answers : Answers) (files : List String)
    (options : ProjectLoadOptions) (server : Server) : Bool :=
  needsRespawn server.process.main options
    (sourceIdentity env.clock answers.sampled files options.machdep server.process.world).1

theorem spawned_cases (answers : Answers) (files : List String) (options : ProjectLoadOptions)
    (must : respawns env answers files options server = true) :
    if connects env answers files options then
      (ensureMainSpawned env answers files options server).1 = .ok () ∧
        Rebuilt (· ∈ server.state.besidesBuilds) server
          (ensureMainSpawned env answers files options server).2
    else
      (∃ error, (ensureMainSpawned env answers files options server).1 = .error error) ∧
        Kept server (ensureMainSpawned env answers files options server).2 := by
  rw [respawns] at must
  rw [ensureMainSpawned, if_pos must]
  unfold respawnMain spawnMain connects
  cases started : startProcess env answers files options with
  | error error => exact ⟨⟨error, rfl⟩, ⟨rfl, rfl, rfl⟩⟩
  | ok _ =>
      cases connected : answers.connected with
      | error reason => exact ⟨⟨_, rfl⟩, ⟨rfl, rfl, rfl⟩⟩
      | ok entries =>
          exact ⟨rfl, ⟨rfl, rfl, rfl, fun _ => caches_updateFunctions, fun _ => .inr, fun _ => .inr⟩⟩

theorem reloaded_cases (answers : Answers) (files : List String) (options : ProjectLoadOptions)
    (stays : respawns env answers files options server = false) :
    if answered answers reloadRequests then
      (ensureMainSpawned env answers files options server).1 = .ok () ∧
        Rebuilt server.state.Caches server (ensureMainSpawned env answers files options server).2
    else
      (∃ error, (ensureMainSpawned env answers files options server).1 = .error error) ∧
        Doubtful server (ensureMainSpawned env answers files options server).2 := by
  rw [respawns] at stays
  rw [ensureMainSpawned, if_neg (Bool.eq_false_iff.mp stays)]
  cases main : server.process.main with
  | none =>
      rw [main] at stays
      cases stays
  | some pair =>
      obtain ⟨state, client⟩ := pair
      simp only [reloadMain, main]
      unfold reloadInPlace
      cases attempt : requestAll answers.answers reloadRequests with
      | ok _ =>
          rw [if_pos ((requestAll_eq_ok_iff ..).mp attempt)]
          exact ⟨rfl, ⟨rfl, rfl, rfl, fun _ => .inr, fun _ => id, fun _ => id⟩⟩
      | error error =>
          have silent : ¬ answered answers reloadRequests = true := fun all => by
            rw [(requestAll_eq_ok_iff ..).mpr all] at attempt
            cases attempt
          rw [if_neg silent]
          refine ⟨⟨error, rfl⟩, ⟨rfl, fun build current => ?_, rfl, fun _ => Iff.rfl⟩⟩
          cases left : answers.leftover with
          | old =>
              rw [left] at current
              rw [Server.currentBuild, main]
              exact .inr current
          | rebuilt =>
              rw [left] at current
              exact .inl (Option.some.inj current).symm
          | nothing =>
              rw [left] at current
              cases current

/-- The call gets as far as a new tree. -/
def rebuilds (env : Environment) (answers : Answers) (files : List String)
    (options : ProjectLoadOptions) (server : Server) : Bool :=
  if respawns env answers files options server then connects env answers files options
  else answered answers reloadRequests

/-- A new process brings its own functions, and all other caches are left as they are. -/
def LeftBy (env : Environment) (answers : Answers) (files : List String)
    (options : ProjectLoadOptions) (server : Server) (build : Nat) : Prop :=
  if respawns env answers files options server then build ∈ server.state.besidesBuilds
  else server.state.Caches build

theorem ensureMainSpawned_cases (env : Environment) (answers : Answers) (files : List String)
    (options : ProjectLoadOptions) (server : Server) :
    if rebuilds env answers files options server then
      (ensureMainSpawned env answers files options server).1 = .ok () ∧
        Rebuilt (LeftBy env answers files options server) server
          (ensureMainSpawned env answers files options server).2
    else
      (∃ error, (ensureMainSpawned env answers files options server).1 = .error error) ∧
        (Kept server (ensureMainSpawned env answers files options server).2 ∨
          Doubtful server (ensureMainSpawned env answers files options server).2) := by
  unfold rebuilds LeftBy
  cases must : respawns env answers files options server with
  | true =>
      have cases := spawned_cases answers files options must
      simp only [if_true]
      split_ifs at cases ⊢ with connected
      · exact cases
      · exact ⟨cases.1, .inl cases.2⟩
  | false =>
      have cases := reloaded_cases answers files options must
      simp only [Bool.false_eq_true, if_false]
      split_ifs at cases ⊢ with rebuilt
      · exact cases
      · exact ⟨cases.1, .inr cases.2⟩

/-- The call rebuilds the tree, a later request of it fails, and the rebuild left a cache with a
value as it was. -/
def LeavesStale (env : Environment) (call : ReloadCall) (server : Server) : Prop :=
  ∃ files options, admitted call = .ok (files, options) ∧
    rebuilds env call.answers files options server = true ∧
    answered call.answers (setterRequests ++ healthRequests) = false ∧
    ∃ build, LeftBy env call.answers files options server build

/-- A reload leaves a stale cache exactly where the condition holds. -/
structure Judged (env : Environment) (call : ReloadCall) (server after : Server) : Prop where
  numbered : Numbered after
  stale : LeavesStale env call server → ¬ CachesDescribe after
  describes : ¬ LeavesStale env call server → CachesDescribe server → CachesDescribe after

theorem judged_reloadProject (call : ReloadCall) (numbered : Numbered server) :
    Judged env call server (reloadProject env call server).2 := by
  unfold reloadProject
  cases admission : admitted call with
  | error error =>
      refine ⟨numbered, ?_, fun _ describes => describes⟩
      rintro ⟨files, options, same, -⟩
      rw [admission] at same
      cases same
  | ok load =>
      obtain ⟨files, options⟩ := load
      have stale_iff : LeavesStale env call server ↔
          rebuilds env call.answers files options server = true ∧
            answered call.answers (setterRequests ++ healthRequests) = false ∧
            ∃ build, LeftBy env call.answers files options server build := by
        refine ⟨?_, fun stale => ⟨files, options, admission, stale⟩⟩
        rintro ⟨_, _, same, stale⟩
        rw [admission] at same
        cases same
        exact stale
      have ensured := ensureMainSpawned_cases env call.answers files options server
      simp only
      split_ifs at ensured with rebuilds
      · obtain ⟨ended, rebuilt⟩ := ensured
        have refreshed := refresh_refreshed call rebuilt.build
        rw [ended]
        refine ⟨(numbered.rebuilt rebuilt).refreshed refreshed, fun stale => ?_, fun whole _ => ?_⟩
        · rw [describes_refreshed_iff numbered rebuilt refreshed, not_not]
          exact (stale_iff.mp stale).2
        · rw [describes_refreshed_iff numbered rebuilt refreshed]
          exact fun stale => whole (stale_iff.mpr ⟨rebuilds, stale⟩)
      · obtain ⟨⟨error, ended⟩, kept | doubtful⟩ := ensured
        all_goals rw [ended]
        · refine ⟨numbered.kept kept, fun stale => ?_, fun _ describes => ?_⟩
          · exact absurd (stale_iff.mp stale).1 rebuilds
          · rw [CachesDescribe, kept.state, kept.currentBuild]
            exact describes
        · refine ⟨numbered.doubtful doubtful, fun stale => ?_, fun _ _ => .inl doubtful.loaded⟩
          exact absurd (stale_iff.mp stale).1 rebuilds

theorem numbered_run (world : World) (steps : List Step) :
    Numbered (run env (Server.initial world) steps) := by
  induction steps using List.reverseRecOn with
  | nil => exact numbered_initial world
  | append_singleton steps last ih =>
      rw [run, List.foldl_append]
      cases last with
      | reload call => exact (judged_reloadProject call ih).numbered
      | tool tool => exact ih.tool tool
      | transportPoisoned => exact ih.poisonTransport

/-- After each call of a run the caches describe the tree in the process, if and only if no call of
the run fails after it rebuilt the tree while a cache that the rebuild left has a value. -/
theorem run_cachesDescribe_iff (env : Environment) (world : World) (steps : List Step) :
    (∀ before call after, steps = before ++ .reload call :: after →
      CachesDescribe (reloadProject env call (run env (Server.initial world) before)).2) ↔
    ∀ before call after, steps = before ++ .reload call :: after →
      ¬ LeavesStale env call (run env (Server.initial world) before) := by
  constructor
  · intro describes before call after split stale
    exact (judged_reloadProject call (numbered_run world before)).stale stale
      (describes before call after split)
  · intro whole
    have always (before after : List Step) (split : steps = before ++ after) :
        CachesDescribe (run env (Server.initial world) before) := by
      induction before using List.reverseRecOn generalizing after with
      | nil => exact .inl rfl
      | append_singleton before last ih =>
          rw [List.append_assoc] at split
          have earlier := ih _ split
          rw [run, List.foldl_append]
          cases last with
          | reload call =>
              exact (judged_reloadProject call (numbered_run world before)).describes
                (whole before call after split) earlier
          | tool tool => exact earlier.tool tool
          | transportPoisoned => exact earlier.poisonTransport
    intro before call after split
    exact (judged_reloadProject call (numbered_run world before)).describes
      (whole before call after split) (always before _ split)

end

/-- One file holds no directive, and each request is answered. -/
def exampleEnvironment : Environment where
  clock _ written := some written
  preprocessor _ _ := []
  builtinHeader := none
  executableInPath _ := false
  framaCPath := "frama-c"
  socketPath := "/tmp/frama-c.sock"

def exampleWorld : World where
  disk := [⟨["a.c"], [105, 110, 116, 32, 120, 59]⟩]
  pending := []

def mainEntry : Json := .obj [("name", .str "main")]

def exampleLoad : ReloadCall where
  params := { files := some ["a.c"] }
  answers := { answers := fun _ => true, connected := .ok [mainEntry], logLength := .ok 1 }
  functions := [mainEntry]

/-- The second load rebuilds the tree in place, and its health check gets no answer. -/
def failedLoad : ReloadCall :=
  { exampleLoad with
    answers := { exampleLoad.answers with answers := fun request => request != "kernel.ast.getFiles" } }

/-- The functions of the first tree are still cached for the second one. -/
theorem failedLoad_leavesFunctions :
    ¬ CachesDescribe
      (@reloadProject (.ofTable [] rfl) exampleEnvironment failedLoad
        (@run (.ofTable [] rfl) exampleEnvironment (Server.initial exampleWorld)
          [.reload exampleLoad])).2 := by
  rintro (loaded | describes)
  · exact absurd loaded (by decide +kernel)
  · have current := describes 0 (.inl ⟨"main", ⟨0, functionInfo mainEntry⟩, by decide +kernel, rfl⟩)
    exact absurd current (by decide +kernel)

/-- A failed load keeps the functions of the load before it. -/
theorem not_reloadProject_cachesDescribe :
    ¬ ∀ [Sha256] (env : Environment) (world : World) (calls : List ReloadCall) (call : ReloadCall),
      CachesDescribe
        (reloadProject env call (run env (Server.initial world) (calls.map .reload))).2 :=
  fun describes => failedLoad_leavesFunctions
    (@describes (.ofTable [] rfl) exampleEnvironment exampleWorld [exampleLoad] failedLoad)

end FramaCMcp.Session
