/-
This file splits the commands of a compilation database and builds the command line that loads a
project from one reload request.
-/

import FramaCMcp.Construction.Profile

namespace FramaCMcp.CompileEntry

/-- This is the word up to the closing quote, with the rest of the command. -/
def pushDoubleQuoted : List Char → List Char → List Char × List Char
  | [], word => (word, [])
  | letter :: rest, word =>
      if letter = '"' then (word, rest)
      else if letter = '\\' then
        match rest with
        | [] => (word, [])
        | next :: later => pushDoubleQuoted later (word ++ [next])
      else pushDoubleQuoted rest (word ++ [letter])

theorem length_pushDoubleQuoted (command word : List Char) :
    (pushDoubleQuoted command word).2.length ≤ command.length := by
  fun_induction pushDoubleQuoted command word <;> simp_all <;> omega

/-- The word is the one at hand. Single quotes are literal, and an open quote ends with the command. -/
def shellWordsFrom (word : Option (List Char)) : List Char → List (List Char)
  | [] => word.toList
  | letter :: rest =>
      if Text.isWhitespace letter then word.toList ++ shellWordsFrom none rest
      else if letter = '\'' then
        shellWordsFrom (some (word.getD [] ++ rest.takeWhile (· != '\'')))
          (rest.dropWhile (· != '\'')).tail
      else if letter = '"' then
        shellWordsFrom (some (pushDoubleQuoted rest (word.getD [])).1)
          (pushDoubleQuoted rest (word.getD [])).2
      else if letter = '\\' then
        shellWordsFrom (some (word.getD [] ++ rest.head?.toList)) rest.tail
      else shellWordsFrom (some (word.getD [] ++ [letter])) rest
termination_by command => command.length
decreasing_by
  · simp
  · have shorter := (List.dropWhile_suffix (· != '\'') (l := rest)).length_le
    simp only [List.length_tail, List.length_cons]
    omega
  · have shorter := length_pushDoubleQuoted rest (word.getD [])
    simp only [List.length_cons]
    omega
  · simp only [List.length_tail, List.length_cons]
    omega
  · simp

def shellWords (command : String) : List String :=
  (shellWordsFrom none command.toList).map String.ofList

end FramaCMcp.CompileEntry

namespace FramaCMcp.LoadCommand

open Receipt Profile

structure ReloadProjectParams where
  files : Option (List String) := none
  includePaths : Option (List String) := none
  defines : Option (List String) := none
  forceIncludes : Option (List String) := none
  isystemPaths : Option (List String) := none
  nostdinc : Option Bool := none
  machdep : Option String := none
  compilationDatabase : Option String := none
  rte : Option Bool := none
  rteUnsigned : Option Bool := none
  rtePointer : Option Bool := none
  builtinModels : Option Bool := none

/-- A word with a leading dash is an option. -/
def hasDash (word : String) : Bool := Text.startsWith word "-"

/-- These characters mean nothing to a shell. -/
def isCppArgChar (letter : Char) : Bool :=
  letter.isAlphanum || ['_', '=', '.', '/', '+', '-'].contains letter

def validateCppEntries (entries : List String) (complaint : String) : Except String Unit :=
  if entries.any fun entry => entry == "" || hasDash entry || !entry.toList.all isCppArgChar then
    .error complaint
  else .ok ()

/-- A value is absent, or it is nonempty and has no leading dash. -/
def validateValue (value : Option String) (complaint : String) : Except String Unit :=
  if value.any fun value => value == "" || hasDash value then .error complaint else .ok ()

def validateProjectOptions (options : ProjectLoadOptions) : Except String Unit := do
  validateCppEntries options.includePaths
    ("include_paths entries must be non-empty directories of [A-Za-z0-9_./+-] " ++
      "without a leading dash (write \"include\", not \"-Iinclude\")")
  validateCppEntries options.defines
    ("defines entries must be non-empty NAME or NAME=VALUE of [A-Za-z0-9_=./+-] " ++
      "without a leading dash (write \"_Atomic=\", not \"-D_Atomic=\")")
  validateCppEntries options.forceIncludes
    ("force_includes entries must be non-empty header names of [A-Za-z0-9_./+-] " ++
      "without a leading dash (write \"builtins.h\", not \"-include builtins.h\")")
  validateCppEntries options.isystemPaths
    ("isystem_paths entries must be non-empty directories of [A-Za-z0-9_./+-] " ++
      "without a leading dash (write \"include\", not \"-isystem include\")")
  validateValue options.machdep
    ("machdep must be a non-empty predefined name or YAML machdep file path without a " ++
      "leading dash (write \"gcc_x86_64\" or \"machdeps/custom\", not \"-machdep gcc_x86_64\")")
  validateValue options.compilationDatabase
    ("compilation_database must be a non-empty path without a leading dash " ++
      "(write \"build/compile_commands.json\", not \"-json-compilation-database build\")")

/-- The caller's list comes before the one of the profile. -/
def listOf (explicit : Option (List String)) (profile : Option VerificationProfile)
    (pick : VerificationProfile → List String) : List String :=
  explicit.getD ((profile.map pick).getD [])

def flagOf (explicit : Option Bool) (profile : Option VerificationProfile)
    (pick : VerificationProfile → Option Bool) : Option Bool :=
  explicit <|> profile.bind pick

def requestedFiles (params : ReloadProjectParams) (profile : Option VerificationProfile) :
    Option (List String) :=
  params.files <|>
    (profile.filter fun profile => !profile.sources.isEmpty).map VerificationProfile.sources

def requestedOptions [Sha256] (params : ReloadProjectParams)
    (profile : Option VerificationProfile) : ProjectLoadOptions where
  includePaths := listOf params.includePaths profile VerificationProfile.includePaths
  defines := listOf params.defines profile VerificationProfile.defines
  forceIncludes := listOf params.forceIncludes profile VerificationProfile.forceIncludes
  machdep := params.machdep <|> profile.bind VerificationProfile.machdep
  compilationDatabase := params.compilationDatabase
  rte := (flagOf params.rte profile VerificationProfile.rte).getD false
  isystemPaths := listOf params.isystemPaths profile VerificationProfile.isystemPaths
  nostdinc := (flagOf params.nostdinc profile VerificationProfile.nostdinc).getD false
  unsignedRteSkipped :=
    flagOf params.rteUnsigned profile VerificationProfile.rteUnsigned == some false
  pointerRteRequested :=
    flagOf params.rtePointer profile VerificationProfile.rtePointer == some true
  builtinModels :=
    if flagOf params.builtinModels profile VerificationProfile.builtinModels == some true then
      some builtinModelsDigest
    else none

/-- The options are validated before anything is loaded. -/
def requestedLoad [Sha256] (params : ReloadProjectParams) (profile : Option VerificationProfile) :
    Except String (Option (List String) × ProjectLoadOptions) := do
  validateProjectOptions (requestedOptions params profile)
  return (requestedFiles params profile, requestedOptions params profile)

/-- The entries are the elements of the database, or the reason why they cannot be read. -/
structure CompileDatabase where
  path : String
  entries : Except String (List Json)

def CompileDatabase.read (readEntries : String → Except String (List Json)) (path : String) :
    CompileDatabase where
  path := path
  entries := readEntries path

/-- A relative file is resolved against the directory of its entry or of the database. -/
def entryDirectory (dbPath : String) (entry : Json) : String :=
  ((entry.get "directory").bind Json.asStr).getD ((Path.parentText dbPath).getD ".")

def resolveEntry (dbPath file : String) (entry : Json) : String :=
  if Path.isAbsolute file then file else Path.join (entryDirectory dbPath entry) file

def entryFile (dbPath : String) (entry : Json) : Except String String :=
  match (entry.get "file").bind Json.asStr with
  | some file => .ok (resolveEntry dbPath file entry)
  | none => .error "compilation database entry is missing file"

/-- Each resolved file is named once, at its first place. -/
def compileDatabaseFiles (database : CompileDatabase) : Except String (List String) := do
  let entries ← database.entries
  let resolved ← entries.mapM (entryFile database.path)
  let files := resolved.foldl (fun seen file => if seen.contains file then seen else seen ++ [file])
    []
  if files.isEmpty then .error "compilation database contains no files" else .ok files

/-- Without named files the database or the running process gives the list. -/
def filesForThisLoad (loadedFiles : Except String (List String))
    (requestedFiles : Option (List String)) (database : Option CompileDatabase) :
    Except String (List String) :=
  match requestedFiles, database with
  | some files, _ => .ok files
  | none, some database => compileDatabaseFiles database
  | none, none => loadedFiles

/-- The header is missing where it could not be written. -/
def builtinHeader (written : Option String) : String :=
  written.getD "/nonexistent/frama-c-mcp-builtins.h"

/-- These are the flags of the preprocessor in the order of its search. -/
def cppExtraArgs (written : Option String) (options : ProjectLoadOptions) : Option String :=
  let flags := (if options.nostdinc then ["-nostdinc"] else []) ++
    options.includePaths.map ("-I" ++ ·) ++
    options.isystemPaths.map ("-isystem " ++ ·) ++
    options.defines.map ("-D" ++ ·) ++
    options.forceIncludes.map ("-include " ++ ·) ++
    (options.builtinModels.map fun _ => "-include " ++ builtinHeader written).toList
  if flags.isEmpty then none else some (Text.join flags " ")

def projectCliArgs (written : Option String) (options : ProjectLoadOptions) : List String :=
  ((cppExtraArgs written options).map ("-cpp-extra-args=" ++ ·)).toList ++
    ((options.machdep.map fun machdep => ["-machdep", machdep]).getD []) ++
    ((options.compilationDatabase.map fun database => ["-compilation-db", database]).getD [])

def defaultWpProvers (executableInPath : String → Bool) : String :=
  Text.join (["Alt-Ergo"] ++ (if executableInPath "cvc5" then ["CVC5"] else []) ++
    (if executableInPath "z3" then ["Z3"] else [])) ","

def defaultWpModel : String := "Typed+nocast"

/-- These words end each command line. -/
def serverArgs (executableInPath : String → Bool) (socketPath : String) : List String :=
  ["-load-module", "ast_utils_plugin", "-server-socket", socketPath, "-rte-no-use-eva-results",
    "-wp-prover", defaultWpProvers executableInPath, "-wp-model", defaultWpModel]

/-- This is the command line of the main process. -/
def mainFramaCArgs (written : Option String) (executableInPath : String → Bool)
    (framaCPath : String) (files : List String) (options : ProjectLoadOptions)
    (socketPath : String) : List String :=
  [framaCPath] ++ projectCliArgs written options ++ files ++ serverArgs executableInPath socketPath

end FramaCMcp.LoadCommand
