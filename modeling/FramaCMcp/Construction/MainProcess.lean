/-
This file brings the main Frama-C process up to date with the files and options of a call.
-/

import FramaCMcp.Construction.LoadCommand
import FramaCMcp.Construction.SourceIdentity

namespace FramaCMcp.MainProcess

open Receipt LoadCommand

/-- These are the files that one parse read with the bytes it found there. -/
@[ext]
structure Sources where
  named : List (String × Option Bytes)
  machdep : Option (Option Bytes)
  included : List (String × Option Bytes)
  deriving DecidableEq

/-- Each build of the tree has its own number. -/
structure Ast where
  build : Nat
  sources : Sources

/-- The preprocessor decides which further files the named ones bring in. -/
abbrev Preprocessor := ProjectLoadOptions → List (Option Bytes) → List String

def World.readFile (world : World) (name : String) : Option Bytes × World :=
  let read := world.advance
  ((read.disk.openFile name).toOption.map Prod.snd, read)

def World.readFiles (world : World) : List String → List (String × Option Bytes) × World
  | [] => ([], world)
  | name :: names =>
      let first := world.readFile name
      let others := first.2.readFiles names
      ((name, first.1) :: others.1, others.2)

def World.readMachdep (world : World) : Option String → Option (Option Bytes) × World
  | none => (none, world)
  | some machdep => (some (world.readFile machdep).1, (world.readFile machdep).2)

/-- Frama-C reads the machine description, the named files and what these include. -/
def parse (preprocessor : Preprocessor) (files : List String) (options : ProjectLoadOptions)
    (world : World) : Sources × World :=
  let machine := world.readMachdep options.machdep
  let named := machine.2.readFiles files
  let included := named.2.readFiles (preprocessor options (named.1.map Prod.snd))
  ({ named := named.1, machdep := machine.1, included := included.1 }, included.2)

/-- The record counts the warnings in a part of the log, or it says why there is none. -/
inductive ParseRecord where
  | categories (log : Bytes)
  | unavailable (reason : String)
  deriving DecidableEq

def ParseRecord.isUnavailable : ParseRecord → Bool
  | .categories _ => false
  | .unavailable _ => true

/-- The client talks to one process. The process keeps what its boot parse read. -/
structure FramaCClient where
  poisoned : Bool
  boot : Sources
  ast : Option Ast

structure MainFramaCState where
  files : List String
  projectOptions : ProjectLoadOptions
  astParseLogEnd : Nat
  astParseSourceDigest : String
  astReloadDiagnostics : Option ParseRecord
  poisoned : Bool

/-- The kept record is marked where it names a reason for its absence. -/
def MainFramaCState.markedUnavailable (state : MainFramaCState) : Bool :=
  state.astReloadDiagnostics.any ParseRecord.isUnavailable

end FramaCMcp.MainProcess

namespace FramaCMcp.Receipt.ProjectLoadOptions

/-- The two options name files outside the file set. -/
def namesBytesOutsideTheFileSet (options : ProjectLoadOptions) : Bool :=
  !options.forceIncludes.isEmpty || options.compilationDatabase.isSome

end FramaCMcp.Receipt.ProjectLoadOptions

namespace FramaCMcp.MainProcess

open Receipt LoadCommand

def parseRecordSurvives (state : MainFramaCState) (identity : String × Bool) : Bool :=
  !state.projectOptions.namesBytesOutsideTheFileSet && !identity.2 &&
    identity.1 == state.astParseSourceDigest

/-- The length of the log is read when the socket has appeared. -/
def bootParseWindow (logLength : Except String Nat) (parsed bootedOn : String) :
    Nat × Option ParseRecord :=
  match logLength with
  | .error error =>
      (0, some (.unavailable ("cannot measure the boot parse in the Frama-C stdout log: " ++ error)))
  | .ok 0 =>
      (0, some (.unavailable ("Frama-C had written nothing to its log when the socket appeared, " ++
        "so this server never saw the boot parse")))
  | .ok length =>
      (length, if parsed = bootedOn then none
        else some (.unavailable ("the sources changed while Frama-C was starting, " ++
          "so no boot parse describes them")))

/-- A request is refused, or the process or a directory cannot be had. -/
inductive Failure where
  | projectLocked
  | invalidParams (message : String)
  | noProjectLoaded
  | internal (message : String)
  | request (name : String)
  deriving DecidableEq

/-- A failed rebuild leaves the old tree, the new one or no tree. -/
inductive Leftover where
  | old
  | rebuilt
  | nothing

/-- These are the answers of the process and of the system in one call. -/
structure Answers where
  /-- The request of this name is answered. -/
  answers : String → Bool
  /-- Each sample of the identity finishes. -/
  sampled : Bool := true
  resampled : Bool := true
  leftover : Leftover := .nothing
  logDirectory : Except String Unit := .ok ()
  tmpDirectory : Except String Unit := .ok ()
  spawned : Except String Unit := .ok ()
  connected : Except String (List Json) := .ok []
  logLength : Except String Nat

/-- The first request without an answer fails the whole sequence. -/
def requestAll (answers : String → Bool) (names : List String) : Except Failure Unit :=
  match names.find? fun name => !answers name with
  | some name => .error (.request name)
  | none => .ok ()

/-- These requests rebuild the tree in the running process. The first one empties the file set. -/
def reloadRequests : List String :=
  ["kernel.ast.setFiles []", "kernel.ast.setFiles", "kernel.ast.compute"]

/-- An argument with this character starts no process. -/
def spawnFramaC (commandLine : List String) (answer : Except String Unit) :
    Except Failure Unit :=
  if commandLine.any hasNul then .error (.internal "spawn frama-c: nul byte found in provided data")
  else answer.mapError fun error => .internal ("spawn frama-c: " ++ error)

/-- These parts stand for the file system, the preprocessor and the installation. -/
structure Environment where
  clock : Clock
  preprocessor : Preprocessor
  builtinHeader : Option String
  executableInPath : String → Bool
  framaCPath : String
  socketPath : String

/-- The session keeps the process, its client, the disk and the number of the next build. -/
structure Instance where
  main : Option (MainFramaCState × FramaCClient) := none
  world : World
  builds : Nat := 0

/-- A process is replaced where it is poisoned, its options change or its record does not answer. -/
def needsRespawn (main : Option (MainFramaCState × FramaCClient)) (options : ProjectLoadOptions)
    (identity : String × Bool) : Bool :=
  match main with
  | none => true
  | some (state, client) =>
      state.poisoned || state.projectOptions != options || client.poisoned ||
        !parseRecordSurvives state identity

/-- The client holds another tree after an attempt to rebuild it. -/
def FramaCClient.rebuilt (client : FramaCClient) (attempt : Except Failure Unit)
    (leftover : Leftover) (ast : Ast) : FramaCClient :=
  match attempt, leftover with
  | .ok (), _ | .error _, .rebuilt => { client with ast := some ast }
  | .error _, .old => client
  | .error _, .nothing => { client with ast := none }

def startProcess (env : Environment) (answers : Answers) (files : List String)
    (options : ProjectLoadOptions) : Except Failure Unit := do
  let commandLine := mainFramaCArgs env.builtinHeader env.executableInPath env.framaCPath files
    options env.socketPath
  answers.logDirectory.mapError fun error => .internal ("create log directory: " ++ error)
  answers.tmpDirectory.mapError fun error => .internal ("create a TMPDIR for frama-c: " ++ error)
  spawnFramaC commandLine answers.spawned

variable [Sha256]

/-- The record is replaced by the reason of its absence, and the process is to be replaced. -/
def MainFramaCState.dropRecord (state : MainFramaCState) : MainFramaCState :=
  { state with
    astReloadDiagnostics := some (.unavailable ("the sources changed while Frama-C was rebuilding " ++
      "the AST, so no parse record describes it"))
    poisoned := true }

/-- The tree is rebuilt in place, and the sources are sampled once more. -/
def reloadInPlace (env : Environment) (answers : Answers) (files : List String)
    (options : ProjectLoadOptions) (state : MainFramaCState) (client : FramaCClient)
    (process : Instance) : Except Failure Unit × Instance :=
  let parsed := parse env.preprocessor files options process.world
  let attempt := requestAll answers.answers reloadRequests
  let client := client.rebuilt attempt answers.leftover ⟨process.builds, parsed.1⟩
  match attempt with
  | .error error =>
      (.error error,
        { main := some ({ state with poisoned := true }, client)
          world := parsed.2
          builds := process.builds + 1 })
  | .ok () =>
      let reparsed := sourceIdentity env.clock answers.resampled files options.machdep parsed.2
      let state :=
        if reparsed.1.1 = state.astParseSourceDigest then state else state.dropRecord
      (.ok (),
        { main := some ({ state with files := files }, client)
          world := reparsed.2
          builds := process.builds + 1 })

/-- The new process parses the files before its socket appears. The old process stays where any
part fails. -/
def spawnMain (env : Environment) (answers : Answers) (files : List String)
    (options : ProjectLoadOptions) (identity : String × Bool) (process : Instance) :
    Except Failure (List Json) × Instance :=
  match startProcess env answers files options with
  | .error error => (.error error, process)
  | .ok () =>
      let parsed := parse env.preprocessor files options process.world
      match answers.connected with
      | .error reason =>
          (.error (.internal ("connect to new frama-c: " ++ reason)),
            { process with world := parsed.2 })
      | .ok entries =>
          let resampled :=
            sourceIdentity env.clock answers.resampled files options.machdep parsed.2
          let window := bootParseWindow answers.logLength resampled.1.1 identity.1
          (.ok entries,
            { main := some
                ({ files := files
                   projectOptions := options
                   astParseLogEnd := window.1
                   astParseSourceDigest := identity.1
                   astReloadDiagnostics := window.2
                   poisoned := window.2.isSome },
                 { poisoned := false
                   boot := parsed.1
                   ast := some ⟨process.builds, parsed.1⟩ })
              world := resampled.2
              builds := process.builds + 1 })

end FramaCMcp.MainProcess
