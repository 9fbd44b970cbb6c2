/-
This file updates the list of sandboxes that several servers share and keeps the output path of a
caller in the working directory.
-/

import Mathlib.Data.String.Basic
import FramaCMcp.Construction.Conclusion

namespace FramaCMcp.SandboxRecords

open Loader

/-- The other fields travel along with these. -/
structure SandboxMetadata where
  experimentId : String
  sandboxDir : String
  sandboxSocket : String
  deleted : Bool
  details : List (String × Json)

/-- A server names the shared directory in its own way. -/
structure StateDir where
  currentDir : String
  baseDir : String
  privateRoot : String

/-- The components are pushed one after the other. -/
def collectPath (components : List Path.Component) : String :=
  components.foldl (fun path component => match component with
    | .rootDir => "/"
    | .curDir => Path.join path "."
    | .parentDir => Path.join path ".."
    | .normal name => Path.join path name) ""

/-- A parent component is carried along. -/
def absoluteDir (dir : StateDir) : String :=
  collectPath (Path.components
    (if Path.isAbsolute dir.baseDir then dir.baseDir else Path.join dir.currentDir dir.baseDir))

section Layout

variable [Sha256]

/-- The owner is the digest of the spelling. -/
def owner (dir : StateDir) : String :=
  String.ofList ((Sha256.hexText (absoluteDir dir)).toList.take 8)

def expectedSandboxDir (dir : StateDir) (experimentId : String) : String :=
  Path.join dir.privateRoot ("sb-" ++ owner dir ++ "-" ++ experimentId)

/-- Two paths are equal where their components are. -/
def hasExpectedSandboxPaths (dir : StateDir) (sandbox : SandboxMetadata) : Bool :=
  Path.components sandbox.sandboxDir ==
      Path.components (expectedSandboxDir dir sandbox.experimentId) &&
    Path.components sandbox.sandboxSocket ==
      Path.components (Path.join (expectedSandboxDir dir sandbox.experimentId) "frama-c.sock")

def isOwn (dir : StateDir) (sandbox : SandboxMetadata) : Bool :=
  isSafePathSegment sandbox.experimentId && hasExpectedSandboxPaths dir sandbox

/-- These are the answers of the system. A text that cannot be parsed counts as unreadable. -/
structure Answer where
  locked : Bool := true
  readable : Bool := true
  written : Bool := true

/-- A file that is absent or cannot be read is empty, and the other entries are dropped. -/
def loadSandboxMetadataFromDisk (dir : StateDir) (answer : Answer)
    (file : Option (List SandboxMetadata)) : List SandboxMetadata :=
  if answer.readable then (file.getD []).filter (isOwn dir) else []

inductive Update where
  | remember (metadata : SandboxMetadata)
  | markDeleted (experimentId : String)

/-- A record replaces the one with its id. -/
def rememberSandboxMetadata (metadata : SandboxMetadata) (sandboxes : List SandboxMetadata) :
    List SandboxMetadata :=
  StableSort.sortByKey SandboxMetadata.experimentId
    ((sandboxes.filter fun sandbox => sandbox.experimentId != metadata.experimentId) ++ [metadata])

def markDeletedEntry (experimentId : String) (sandbox : SandboxMetadata) : SandboxMetadata :=
  if sandbox.experimentId = experimentId then { sandbox with deleted := true } else sandbox

def Update.apply : Update → List SandboxMetadata → List SandboxMetadata
  | .remember metadata => rememberSandboxMetadata metadata
  | .markDeleted experimentId => List.map (markDeletedEntry experimentId)

/-- One server updates the list under the lock. -/
structure Step where
  server : StateDir
  answer : Answer
  update : Update

def Step.succeeds (step : Step) : Bool := step.answer.locked && step.answer.written

/-- A step that fails leaves the file as it is. -/
def Step.apply (file : Option (List SandboxMetadata)) (step : Step) :
    Option (List SandboxMetadata) :=
  if step.succeeds then
    some (step.update.apply (loadSandboxMetadataFromDisk step.server step.answer file))
  else file

def run (steps : List Step) : Option (List SandboxMetadata) := steps.foldl Step.apply none

end Layout

end FramaCMcp.SandboxRecords

namespace FramaCMcp.OutputPath

open Path

structure InvalidParams where
  message : String
  data : Json

def refuse (output reason : String) : InvalidParams where
  message := "output must stay inside the working directory: " ++ reason
  data := .obj [("kind", .str "OutputPathOutsideWorkingDirectory"), ("output", .str output),
    ("reason", .str reason)]

/-- The root of the file system has no parent. -/
def pushComponent (normalized : List Component) : Component → Option (List Component)
  | .parentDir =>
      match normalized.getLast? with
      | none => none
      | some .rootDir => none
      | some _ => some normalized.dropLast
  | .curDir => some normalized
  | .rootDir => some [.rootDir]
  | .normal name => some (normalized ++ [.normal name])

def normalize (joined : List Component) : Option (List Component) :=
  joined.foldlM pushComponent []

variable (host : FileHost)

/-- A root that has no canonical path is taken as it is. -/
def realRoot (root : List Component) : List Component :=
  match host.canonicalize root with
  | .ok place => ofPlace place
  | .error _ => root

/-- An absolute path replaces the root. -/
def joinedPath (root : List Component) (path : String) : List Component :=
  if isAbsolute path then components path else realRoot host root ++ components path

def resolveOutputPathIn (root : List Component) (path : String) :
    Except InvalidParams (List Component) :=
  match normalize (joinedPath host root path) with
  | none => .error (refuse path "path climbs above the filesystem root")
  | some normalized =>
      if (realRoot host root).isPrefixOf normalized = false then
        .error (refuse path "resolved outside it")
      else match (ancestors normalized).find? host.pathExists with
        | none => .error (refuse path "no existing ancestor to check")
        | some existing =>
            match host.canonicalize existing with
            | .error text => .error (refuse path ("cannot resolve " ++
                SandboxRecords.collectPath existing ++ ": " ++ text))
            | .ok real =>
                if (realRoot host root).isPrefixOf (ofPlace real) = false then
                  .error (refuse path "a symlink on the path leaves the working directory")
                else .ok normalized

end FramaCMcp.OutputPath
