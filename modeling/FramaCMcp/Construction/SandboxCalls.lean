/-
This file runs the calls that create and delete sandboxes, one step between two awaits at a time,
and builds the command lines of a sandbox and of an isolated proof run in it.
-/

import FramaCMcp.Construction.Conclusion
import FramaCMcp.Construction.LoadCommand
import FramaCMcp.Construction.WpSettings

namespace FramaCMcp.Sandboxes

open Loader

/-- The server knows a child by its handle, and the system knows it by its number. -/
structure Child where
  handle : Nat
  pid : Nat
  deriving DecidableEq, Repr

structure SandboxMetadata where
  experimentId : String
  sandboxPid : Nat
  deleted : Bool := false
  deriving DecidableEq, Repr

structure SandboxEntry where
  metadata : SandboxMetadata
  child : Child
  deriving DecidableEq, Repr

/-- This is one running Frama-C that a creation spawned. -/
structure Process where
  child : Child
  experimentId : String
  deriving DecidableEq, Repr

/-- A call waits at one of these points. -/
inductive Call where
  | extracting (requested : Option String)
  | prepared (experimentId : String)
  | connecting (experimentId : String) (child : Child)
  | recording (experimentId : String) (child : Child)
  | inserting (experimentId : String) (child : Child)
  | removing (experimentId : String)
  | killing (experimentId : String) (child : Child)
  | reaping (experimentId : String) (child : Child)
  | marking (experimentId : String)
  | finished
  deriving DecidableEq, Repr

/-- These are the registry, the state file, the scratch root, the system and the open calls. -/
structure Server where
  maxSandboxes : Nat
  owner : String
  sandboxes : HashMap SandboxEntry := ∅
  records : List SandboxMetadata := []
  directories : List String := []
  live : List Process := []
  spawned : Nat := 0
  calls : List Call := []

inductive Preparation where
  | refused | unwritten | written
  deriving DecidableEq, Repr

/-- These are the answers that one step meets. -/
structure Answer where
  succeeded : Bool := true
  /-- This is the text of `random_hex`. -/
  generated : String := ""
  /-- These processes are alive and no sandbox of this server. -/
  otherPids : List Nat := []
  removable : Bool := true
  preparation : Preparation := .written
  pid : Nat := 0

inductive Event where
  | createSandbox (requested : Option String)
  | deleteSandbox (experimentId : String)
  | advance (call : Nat) (answer : Answer)
  | exit (handle : Nat)

/-- A step says which directory a creation removed and which entry it replaced. -/
structure Outcome where
  server : Server
  removed : Option String := none
  replaced : Option SandboxEntry := none

/-- The owner is the digest of the state directory. -/
def expectedSandboxDir (owner experimentId : String) : String :=
  "sb-" ++ owner ++ "-" ++ experimentId

/-- A number is no process where it cannot be signalled. -/
def signallable (pid : Nat) : Bool := pid != 0 && decide (pid < 2 ^ 31)

namespace Server

def processIsAlive (server : Server) (otherPids : List Nat) (pid : Nat) : Bool :=
  signallable pid &&
    (server.live.any (fun process => process.child.pid == pid) || otherPids.contains pid)

/-- A live entry hides the record of the same id. -/
def knownSandboxes (server : Server) : List (SandboxMetadata × Bool) :=
  (server.sandboxes.entries.map fun entry => (entry.2.metadata, true)) ++
    (server.records.filter fun sandbox =>
      !(server.sandboxes.entries.any fun entry => entry.2.metadata.experimentId ==
        sandbox.experimentId)).map fun sandbox => (sandbox, false)

def isTaken (server : Server) (otherPids : List Nat) (experimentId : String) : Bool :=
  server.knownSandboxes.any fun sandbox =>
    sandbox.1.experimentId == experimentId && (sandbox.2 ||
      (!sandbox.1.deleted && server.processIsAlive otherPids sandbox.1.sandboxPid))

def requestedId (requested : Option String) : Option String :=
  (requested.map fun text => String.ofList (Line.trim text.toList)).filter fun text => text != ""

/-- A requested id is refused where it is unsafe or taken, and a generated one is not tested. -/
def chooseId (server : Server) (requested : Option String) (answer : Answer) : Option String :=
  match requestedId requested with
  | some text =>
      if isSafePathSegment text && !server.isTaken answer.otherPids text then some text else none
  | none => some answer.generated

def setCall (server : Server) (call : Nat) (next : Call) : Server :=
  { server with calls := server.calls.set call next }

def directoryOf (server : Server) (experimentId : String) : String :=
  expectedSandboxDir server.owner experimentId

def removeDirectory (server : Server) (directory : String) : Server :=
  { server with directories := server.directories.filter fun other => other != directory }

def makeDirectory (server : Server) (directory : String) : Server :=
  { server with directories := directory :: (server.removeDirectory directory).directories }

/-- An old directory is removed before the new one is made. A failed removal is a warning. -/
def prepare (server : Server) (call : Nat) (experimentId : String) (answer : Answer) : Outcome :=
  let directory := server.directoryOf experimentId
  let removed := server.directories.contains directory && answer.removable
  let cleared := if removed then server.removeDirectory directory else server
  { server := match answer.preparation with
      | .refused => cleared.setCall call .finished
      | .unwritten => (cleared.makeDirectory directory).setCall call .finished
      | .written => (cleared.makeDirectory directory).setCall call (.prepared experimentId)
    removed := if removed then some directory else none }

/-- Each process has a handle of its own. -/
def startProcess (server : Server) (process : Process) : Server :=
  { server with live := process :: server.live, spawned := server.spawned + 1 }

/-- The log files are made in the directory of the sandbox. -/
def spawn (server : Server) (call : Nat) (experimentId : String) (answer : Answer) : Server :=
  if answer.succeeded && server.directories.contains (server.directoryOf experimentId) then
    (server.startProcess ⟨⟨server.spawned, answer.pid⟩, experimentId⟩).setCall call
      (.connecting experimentId ⟨server.spawned, answer.pid⟩)
  else server.setCall call .finished

def sandboxMetadata (experimentId : String) (child : Child) : SandboxMetadata where
  experimentId := experimentId
  sandboxPid := child.pid

/-- A record replaces the one with the same id. -/
def rememberSandboxMetadata (server : Server) (metadata : SandboxMetadata) : Server :=
  { server with
    records := StableSort.sortByKey SandboxMetadata.experimentId
      ((server.records.filter fun sandbox => sandbox.experimentId != metadata.experimentId) ++
        [metadata]) }

def markSandboxMetadataDeleted (server : Server) (experimentId : String) : Server :=
  { server with
    records := server.records.map fun sandbox =>
      if sandbox.experimentId = experimentId then { sandbox with deleted := true } else sandbox }

def addEntry (server : Server) (entry : SandboxEntry) : Server :=
  { server with sandboxes := server.sandboxes.insert entry.metadata.experimentId entry }

def dropEntry (server : Server) (experimentId : String) : Server :=
  { server with sandboxes := server.sandboxes.erase experimentId }

/-- The map drops the entry that it replaces, and with it the child. -/
def insertSandbox (server : Server) (call : Nat) (experimentId : String) (child : Child) :
    Outcome where
  server := (server.addEntry ⟨sandboxMetadata experimentId child, child⟩).setCall call .finished
  replaced := server.sandboxes.lookup experimentId

/-- An id without an entry may still have a record of an earlier server. -/
def removeSandbox (server : Server) (call : Nat) (experimentId : String) : Server :=
  match server.sandboxes.lookup experimentId with
  | some entry =>
      (server.dropEntry experimentId).setCall call (.killing experimentId entry.child)
  | none =>
      (if server.records.any fun sandbox => sandbox.experimentId == experimentId then
        server.removeDirectory (server.directoryOf experimentId)
      else server).setCall call (.marking experimentId)

/-- The wait ends when the process is gone. -/
def reap (server : Server) (call : Nat) (experimentId : String) (child : Child) : Server :=
  if server.live.any fun process => process.child.handle == child.handle then server
  else (server.removeDirectory (server.directoryOf experimentId)).setCall call
    (.marking experimentId)

def advance (server : Server) (call : Nat) (answer : Answer) : Call → Outcome
  | .extracting requested =>
      if !answer.succeeded then { server := server.setCall call .finished }
      else match server.chooseId requested answer with
        | some experimentId => server.prepare call experimentId answer
        | none => { server := server.setCall call .finished }
  | .prepared experimentId => { server := server.spawn call experimentId answer }
  | .connecting experimentId child =>
      { server := server.setCall call
          (if answer.succeeded then .recording experimentId child else .finished) }
  | .recording experimentId child =>
      let recorded := if answer.succeeded then
          server.rememberSandboxMetadata (sandboxMetadata experimentId child)
        else server
      { server := recorded.setCall call (.inserting experimentId child) }
  | .inserting experimentId child => server.insertSandbox call experimentId child
  | .removing experimentId => { server := server.removeSandbox call experimentId }
  | .killing experimentId child => { server := server.setCall call (.reaping experimentId child) }
  | .reaping experimentId child => { server := server.reap call experimentId child }
  | .marking experimentId =>
      let marked := if answer.succeeded then server.markSandboxMetadataDeleted experimentId
        else server
      { server := marked.setCall call .finished }
  | .finished => { server := server }

/-- The limit is compared with the entries of the registry. -/
def limitReached (server : Server) : Bool :=
  decide (server.maxSandboxes ≤ server.sandboxes.entries.length)

def openCall (server : Server) (call : Call) : Server := { server with calls := server.calls ++ [call] }

def step (server : Server) : Event → Outcome
  | .createSandbox requested =>
      { server := if server.limitReached then server else server.openCall (.extracting requested) }
  | .deleteSandbox experimentId => { server := server.openCall (.removing experimentId) }
  | .advance call answer =>
      match server.calls[call]? with
      | some waiting => server.advance call answer waiting
      | none => { server := server }
  | .exit handle =>
      { server := { server with
          live := server.live.filter fun process => process.child.handle != handle } }

def run (server : Server) (events : List Event) : Server :=
  events.foldl (fun server event => (server.step event).server) server

end Server

end FramaCMcp.Sandboxes

namespace FramaCMcp.SandboxWp

open Receipt LoadCommand WpSettings Sandboxes

/-- A sandbox keeps the switches of the main project that it was created beside. -/
structure SandboxRte where
  unsigned : Bool := true
  pointer : Bool := false
  deriving DecidableEq, Repr

def unsignedRteOptions : List String := ["-warn-unsigned-overflow", "-warn-unsigned-downcast"]

def pointerRteOption : String := "-warn-invalid-pointer"

def rteIndependentOfEva : String := "-rte-no-use-eva-results"

def unsignedRte (options : ProjectLoadOptions) : Bool := options.rte && !options.unsignedRteSkipped

def pointerRte (options : ProjectLoadOptions) : Bool := options.rte && options.pointerRteRequested

/-- The pointer option travels with the unsigned pair. -/
def unsignedRteArgs (options : ProjectLoadOptions) : List String :=
  (if unsignedRte options then unsignedRteOptions else []) ++
    if pointerRte options then [pointerRteOption] else []

def sandboxFramaCCommandLine (executableInPath : String → Bool) (framaCPath sandboxFile socket : String)
    (rte : SandboxRte) : List String :=
  [framaCPath, sandboxFile, "-rte", rteIndependentOfEva] ++
    (if rte.unsigned then unsignedRteOptions else []) ++
    (if rte.pointer then [pointerRteOption] else []) ++
    ["-keep-unused-functions", "all", "-keep-unused-types", "-server-socket", socket,
      "-wp-prover", defaultWpProvers executableInPath, "-wp-model", WpSettings.defaultWpModel,
      "-kernel-warn-key", "annot-error=feedback"]

/-- An option without a value is left out. -/
def optionWords (name : String) (value : Option String) : List String :=
  (value.map fun value => [name, value]).getD []

structure IsolatedAttempt where
  framaCPath : String
  files : List String
  projectOptions : ProjectLoadOptions
  params : RunWpParams
  prover : String
  rteEnabled : Bool
  timeout : Option UInt32
  par : Option UInt32
  cacheMode : String
  functions : List String

def isolatedAttemptCommand (written : Option String) (attempt : IsolatedAttempt) : List String :=
  [attempt.framaCPath] ++ projectCliArgs written attempt.projectOptions ++ attempt.files ++
    ["-wp", "-wp-prover", attempt.prover, "-wp-model",
      attempt.params.model.getD WpSettings.defaultWpModel] ++
    (if attempt.rteEnabled then "-wp-rte" :: unsignedRteArgs attempt.projectOptions else []) ++
    optionWords "-wp-timeout" (attempt.timeout.map fun value => toString value.toNat) ++
    optionWords "-wp-par" (attempt.par.map fun value => toString value.toNat) ++
    optionWords "-wp-steps" (attempt.params.steps.map fun value => toString value.toNat) ++
    optionWords "-wp-prop" attempt.params.prop ++
    ["-wp-cache", attempt.cacheMode] ++
    if attempt.functions.isEmpty then [] else ["-wp-fct", Text.join attempt.functions ","]

/-- These options take the next word as their value. -/
def valueOptions : List String :=
  ["-machdep", "-compilation-db", "-keep-unused-functions", "-server-socket", "-wp-prover",
    "-wp-model", "-kernel-warn-key", "-wp-timeout", "-wp-par", "-wp-steps", "-wp-prop", "-wp-cache",
    "-wp-fct"]

/-- These options say what is loaded. -/
def loadOptionNames : List String :=
  ["-machdep", "-compilation-db", "-keep-unused-functions", "-keep-unused-types",
    "-kernel-warn-key"]

def isLoadOption (name : String) : Bool :=
  loadOptionNames.contains name || Text.startsWith name "-cpp-extra-args="

/-- This is what the words of a command line have said so far. -/
structure Reading where
  awaits : Option String := none
  files : List String := []
  flags : List String := []
  loadOptions : List (String × Option String) := []
  deriving DecidableEq, Repr

def Reading.addOption (reading : Reading) (name : String) (value : Option String) : Reading :=
  if isLoadOption name then
    { reading with awaits := none, loadOptions := reading.loadOptions ++ [(name, value)] }
  else { reading with awaits := none }

/-- A word is a value, an option or the name of a source file. -/
def readWord (reading : Reading) (word : String) : Reading :=
  match reading.awaits with
  | some name => reading.addOption name (some word)
  | none =>
      if valueOptions.contains word then { reading with awaits := some word }
      else if hasDash word then
        { reading with flags := reading.flags ++ [word] }.addOption word none
      else { reading with files := reading.files ++ [word] }

/-- The first word names the program. -/
def readLine (line : List String) : Reading := line.tail.foldl readWord {}

structure Switches where
  rte : Bool
  unsignedOverflow : Bool
  unsignedDowncast : Bool
  invalidPointer : Bool
  deriving DecidableEq, Repr

/-- Both plug-ins generate the guards. -/
def Reading.switches (reading : Reading) : Switches where
  rte := reading.flags.contains "-rte" || reading.flags.contains "-wp-rte"
  unsignedOverflow := reading.flags.contains "-warn-unsigned-overflow"
  unsignedDowncast := reading.flags.contains "-warn-unsigned-downcast"
  invalidPointer := reading.flags.contains "-warn-invalid-pointer"

/-- One proof run works on one program under one set of switches. -/
structure Analysis (Program : Type) where
  program : Program
  switches : Switches

/-- These are the settings of the server and of the machine. -/
structure Host where
  framaCPath : String
  executableInPath : String → Bool
  written : Option String
  env : WpEnvironment
  user : Nat
  owner : String

/-- The directory stands below the private root of the user. -/
def sandboxDir (host : Host) (experimentId : String) : String :=
  "/tmp/fcmcp-" ++ toString host.user ++ "/" ++ expectedSandboxDir host.owner experimentId

def sandboxFile (host : Host) (experimentId : String) : String :=
  sandboxDir host experimentId ++ "/sandbox.c"

def sandboxSocket (host : Host) (experimentId : String) : String :=
  sandboxDir host experimentId ++ "/frama-c.sock"

/-- Frama-C loads the files of a command line as its options say. A refused insertion changes
nothing. -/
structure Kernel (Program Insertion : Type) where
  load : List (String × Option String) → List String → Program
  insert : Insertion → Program → Option Program

variable {Program Insertion : Type}

def Kernel.loadLine (kernel : Kernel Program Insertion) (line : List String) : Program :=
  kernel.load (readLine line).loadOptions (readLine line).files

/-- The process of a sandbox holds the program with all that was inserted into it. -/
structure Sandbox (Program : Type) where
  experimentId : String
  rte : SandboxRte
  program : Program

def commandLine (host : Host) (experimentId : String) (rte : SandboxRte) : List String :=
  sandboxFramaCCommandLine host.executableInPath host.framaCPath (sandboxFile host experimentId)
    (sandboxSocket host experimentId) rte

/-- The process loads the file that the creation wrote. -/
def createSandbox (host : Host) (kernel : Kernel Program Insertion) (experimentId : String)
    (rte : SandboxRte) : Sandbox Program where
  experimentId := experimentId
  rte := rte
  program := kernel.loadLine (commandLine host experimentId rte)

def Sandbox.insert (kernel : Kernel Program Insertion) (sandbox : Sandbox Program)
    (insertion : Insertion) : Sandbox Program :=
  { sandbox with program := (kernel.insert insertion sandbox.program).getD sandbox.program }

def Sandbox.insertAll (kernel : Kernel Program Insertion) (sandbox : Sandbox Program)
    (insertions : List Insertion) : Sandbox Program :=
  insertions.foldl (Sandbox.insert kernel) sandbox

/-- The name of a sandbox stands before the first colon. -/
def scopeForFunction (function : String) : Option (String × String) :=
  (Text.findChars [':'] function.toList).map fun offset =>
    (String.ofList (function.toList.take offset), Text.dropTo function (offset + 1))

def targetName (expected name : String) : Except McpError String :=
  match scopeForFunction name with
  | some (experimentId, function) =>
      if experimentId = expected then .ok function
      else .error (.invalidParams ("function '" ++ name ++ "' belongs to sandbox '" ++
        experimentId ++ "', expected '" ++ expected ++ "'"))
  | none => .error (.invalidParams ("function '" ++ name ++ "' must include experiment_id prefix"))

/-- The process proves its own program under the switches of its command line. -/
def liveAnalysis (host : Host) (sandbox : Sandbox Program) : Analysis Program where
  program := sandbox.program
  switches := (readLine (commandLine host sandbox.experimentId sandbox.rte)).switches

/-- The attempt is described by the default options with the guards switched on. -/
def isolatedOptions : ProjectLoadOptions := { rte := true }

def isolatedAnalysis (host : Host) (kernel : Kernel Program Insertion)
    (attempt : IsolatedAttempt) : Analysis Program where
  program := kernel.loadLine (isolatedAttemptCommand host.written attempt)
  switches := (readLine (isolatedAttemptCommand host.written attempt)).switches

/-- Each prover has an attempt of its own. -/
def runIsolatedWpRetries (host : Host) (kernel : Kernel Program Insertion)
    (experimentId : String) (functions provers : List String) (params : RunWpParams) :
    Except McpError (List (Analysis Program)) := do
  let timeout ← effectiveWpTimeout host.env params
  let par ← effectiveWpPar host.env params
  let cacheMode ← effectiveWpCache params
  return provers.map fun prover => isolatedAnalysis host kernel {
    framaCPath := host.framaCPath
    files := [sandboxFile host experimentId]
    projectOptions := isolatedOptions
    params := params
    prover := prover
    rteEnabled := true
    timeout := timeout
    par := par
    cacheMode := Text.toAsciiLowercase cacheMode
    functions := functions }

/-- A list of provers selects the isolated attempts. -/
def runWpOnSandbox (host : Host) (kernel : Kernel Program Insertion) (sandbox : Sandbox Program)
    (functions : Option (List String)) (params : RunWpParams) :
    Except McpError (List (Analysis Program)) := do
  match functions with
  | none => throw (.invalidParams "functions required for sandbox WP")
  | some names =>
      let targets ← names.mapM (targetName sandbox.experimentId)
      let requested ← effectiveWpProvers host.env params
      match requested.filter fun _ => params.provers.isSome with
      | some provers =>
          runIsolatedWpRetries host kernel sandbox.experimentId targets provers params
      | none => return [liveAnalysis host sandbox]

end FramaCMcp.SandboxWp
