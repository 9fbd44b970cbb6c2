/-
This file says when the command line of a load holds an option that the server did not write.
-/

import FramaCMcp.Construction.LoadCommand

namespace FramaCMcp.LoadCommand

open Receipt Profile

/-- These are the words of the command line that no caller supplies. -/
def serverWords (written : Option String) (executableInPath : String → Bool) (framaCPath : String)
    (options : ProjectLoadOptions) (socketPath : String) : List String :=
  [framaCPath] ++ (((cppExtraArgs written options).map ("-cpp-extra-args=" ++ ·)).toList ++
    (options.machdep.map fun _ => "-machdep").toList ++
    (options.compilationDatabase.map fun _ => "-compilation-db").toList) ++
    serverArgs executableInPath socketPath

/-- Each option of the command line is one that the server writes. -/
def OnlyServerOptions (written : Option String) (executableInPath : String → Bool)
    (framaCPath : String) (files : List String) (options : ProjectLoadOptions)
    (socketPath : String) : Prop :=
  (mainFramaCArgs written executableInPath framaCPath files options socketPath).filter hasDash =
    (serverWords written executableInPath framaCPath options socketPath).filter hasDash

/-- A file of the load opens with a dash, named or resolved or loaded before. -/
inductive FileHasDash (loadedFiles : Except String (List String)) :
    Option (List String) → Option CompileDatabase → Prop where
  | named {files : List String} {database : Option CompileDatabase} (file : String)
      (given : file ∈ files) (dash : hasDash file = true) :
      FileHasDash loadedFiles (some files) database
  | entry {database : CompileDatabase} {entries : List Json} (entry : Json) (file : String)
      (readable : database.entries = .ok entries) (given : entry ∈ entries)
      (names : (entry.get "file").bind Json.asStr = some file)
      (relative : Path.isAbsolute file = false)
      (dash : hasDash (entryDirectory database.path entry) = true ∨
        entryDirectory database.path entry = "" ∧ hasDash file = true) :
      FileHasDash loadedFiles none (some database)
  | loaded {files : List String} (file : String) (listed : loadedFiles = .ok files)
      (given : file ∈ files) (dash : hasDash file = true) :
      FileHasDash loadedFiles none none

theorem hasDash_iff (word : String) : hasDash word = true ↔ word.toList.head? = some '-' := by
  rw [hasDash, Text.startsWith]
  cases word.toList with
  | nil => simp
  | cons letter rest => simp [List.isPrefixOf, @eq_comm Char letter]

theorem isAbsolute_iff (path : String) : Path.isAbsolute path = true ↔
    path.toList.head? = some '/' := by
  rw [Path.isAbsolute, Text.startsWith]
  cases path.toList with
  | nil => simp
  | cons letter rest => simp [List.isPrefixOf, @eq_comm Char letter]

theorem hasDash_join (directory file : String) :
    hasDash (Path.join directory file) = true ↔
      hasDash directory = true ∨ directory = "" ∧ hasDash file = true := by
  simp only [hasDash_iff, Path.join]
  by_cases empty : directory = ""
  · subst empty
    simp
  · have filled : directory.toList ≠ [] := by simpa using empty
    obtain ⟨letter, rest, same⟩ := List.exists_cons_of_ne_nil filled
    split_ifs <;> simp [empty, same, String.toList_append]

theorem hasDash_resolveEntry (dbPath file : String) (entry : Json) :
    hasDash (resolveEntry dbPath file entry) = true ↔
      Path.isAbsolute file = false ∧ (hasDash (entryDirectory dbPath entry) = true ∨
        entryDirectory dbPath entry = "" ∧ hasDash file = true) := by
  rw [resolveEntry]
  split_ifs with absolute
  · have slash := (isAbsolute_iff file).mp absolute
    simp [hasDash_iff, slash, absolute]
  · rw [hasDash_join]
    simp [absolute]

theorem not_hasDash_of_validateValue {value : Option String} {complaint : String}
    (valid : validateValue value complaint = .ok ()) (word : String) (given : value = some word) :
    hasDash word = false := by
  subst given
  rw [validateValue] at valid
  split_ifs at valid with bad
  simp only [Option.any_some, Bool.or_eq_true, not_or, Bool.not_eq_true] at bad
  exact bad.2

theorem validateProjectOptions_values {options : ProjectLoadOptions}
    (valid : validateProjectOptions options = .ok ()) :
    (∀ machdep, options.machdep = some machdep → hasDash machdep = false) ∧
      ∀ database, options.compilationDatabase = some database → hasDash database = false := by
  simp only [validateProjectOptions, bind, Except.bind] at valid
  split at valid
  · cases valid
  split at valid
  · cases valid
  split at valid
  · cases valid
  split at valid
  · cases valid
  split at valid
  · cases valid
  · rename_i machdep
    exact ⟨not_hasDash_of_validateValue machdep, not_hasDash_of_validateValue valid⟩

theorem mapM_ok {Input Output : Type} (compute : Input → Except String Output)
    (inputs : List Input) (outputs : List Output) (computed : inputs.mapM compute = .ok outputs)
    (output : Output) : output ∈ outputs ↔ ∃ input ∈ inputs, compute input = .ok output := by
  induction inputs generalizing outputs with
  | nil =>
      obtain rfl : [] = outputs := Except.ok.inj computed
      simp
  | cons input rest ih =>
      rw [List.mapM_cons] at computed
      cases first : compute input with
      | error message => simp [first, bind, Except.bind] at computed
      | ok value =>
          cases others : rest.mapM compute with
          | error message => simp [first, others, bind, Except.bind] at computed
          | ok values =>
              simp only [first, others, bind, Except.bind, pure, Except.pure,
                Except.ok.injEq] at computed
              subst computed
              rw [List.mem_cons, ih values others]
              simp [first, eq_comm]

theorem mem_firstPlaces (files seen : List String) (file : String) :
    file ∈ files.foldl (fun seen file => if seen.contains file then seen else seen ++ [file]) seen ↔
      file ∈ seen ∨ file ∈ files := by
  induction files generalizing seen with
  | nil => simp
  | cons next rest ih =>
      rw [List.foldl_cons, ih]
      split_ifs with known
      · have listed : next ∈ seen := by simpa using known
        rw [List.mem_cons]
        constructor
        · tauto
        · rintro (early | rfl | late)
          · exact .inl early
          · exact .inl listed
          · exact .inr late
      · simp only [List.mem_append, List.mem_cons]
        tauto

theorem mem_compileDatabaseFiles {database : CompileDatabase} {files : List String}
    (computed : compileDatabaseFiles database = .ok files) :
    ∃ entries, database.entries = .ok entries ∧
      ∀ file, file ∈ files ↔ ∃ entry ∈ entries, entryFile database.path entry = .ok file := by
  rw [compileDatabaseFiles] at computed
  cases readable : database.entries with
  | error message => simp [readable, bind, Except.bind] at computed
  | ok entries =>
      cases resolved : entries.mapM (entryFile database.path) with
      | error message => simp [readable, resolved, bind, Except.bind] at computed
      | ok values =>
          simp only [readable, resolved, bind, Except.bind] at computed
          split_ifs at computed
          obtain rfl := Except.ok.inj computed
          refine ⟨entries, rfl, fun file => ?_⟩
          rw [mem_firstPlaces, ← mapM_ok _ _ _ resolved]
          simp

/-- Some file of the list opens with a dash exactly where one of its sources does. -/
theorem exists_hasDash_iff {loadedFiles : Except String (List String)}
    {requested : Option (List String)} {database : Option CompileDatabase} {files : List String}
    (named : filesForThisLoad loadedFiles requested database = .ok files) :
    (∃ file ∈ files, hasDash file = true) ↔ FileHasDash loadedFiles requested database := by
  cases requested with
  | some given =>
      obtain rfl : given = files := Except.ok.inj named
      constructor
      · rintro ⟨file, member, dash⟩
        exact .named file member dash
      · rintro ⟨file, member, dash⟩
        exact ⟨_, ‹_›, ‹_›⟩
  | none =>
      cases database with
      | none =>
          constructor
          · rintro ⟨file, member, dash⟩
            exact .loaded file named member dash
          · intro source
            cases source with
            | loaded file listed given dash =>
                obtain rfl := Except.ok.inj (listed.symm.trans named)
                exact ⟨file, given, dash⟩
      | some database =>
          obtain ⟨entries, readable, listed⟩ := mem_compileDatabaseFiles named
          constructor
          · rintro ⟨file, member, dash⟩
            obtain ⟨entry, given, computed⟩ := (listed file).mp member
            rw [entryFile] at computed
            cases names : (entry.get "file").bind Json.asStr with
            | none => simp [names] at computed
            | some text =>
                simp only [names, Except.ok.injEq] at computed
                subst computed
                obtain ⟨relative, opens⟩ := (hasDash_resolveEntry _ _ _).mp dash
                exact .entry entry text readable given names relative opens
          · intro source
            cases source with
            | entry entry text known given names relative opens =>
                obtain rfl := Except.ok.inj (known.symm.trans readable)
                refine ⟨resolveEntry database.path text entry, (listed _).mpr ⟨entry, given, ?_⟩,
                  (hasDash_resolveEntry _ _ _).mpr ⟨relative, opens⟩⟩
                rw [entryFile, names]

theorem filter_projectCliArgs (written : Option String) {options : ProjectLoadOptions}
    (valid : validateProjectOptions options = .ok ()) :
    (projectCliArgs written options).filter hasDash =
      (((cppExtraArgs written options).map ("-cpp-extra-args=" ++ ·)).toList ++
        (options.machdep.map fun _ => "-machdep").toList ++
        (options.compilationDatabase.map fun _ => "-compilation-db").toList).filter hasDash := by
  obtain ⟨machdep, database⟩ := validateProjectOptions_values valid
  rw [projectCliArgs, List.filter_append, List.filter_append, List.filter_append,
    List.filter_append]
  congr 1
  · congr 1
    cases given : options.machdep with
    | none => rfl
    | some value => simp [machdep value given, List.filter_cons]
  · cases given : options.compilationDatabase with
    | none => rfl
    | some value => simp [database value given, List.filter_cons]

/-- The options of the command line are the server's own exactly where no file of the load opens
with a dash. -/
theorem mainFramaCArgs_options_iff [Sha256] (written : Option String)
    (executableInPath : String → Bool) (framaCPath socketPath : String)
    (params : ReloadProjectParams) (profile : Option VerificationProfile)
    (readEntries : String → Except String (List Json))
    (loadedFiles : Except String (List String)) (requested : Option (List String))
    (options : ProjectLoadOptions) (files : List String)
    (accepted : requestedLoad params profile = .ok (requested, options))
    (named : filesForThisLoad loadedFiles requested
      (options.compilationDatabase.map (CompileDatabase.read readEntries)) = .ok files) :
    OnlyServerOptions written executableInPath framaCPath files options socketPath ↔
      ¬ FileHasDash loadedFiles requested
        (options.compilationDatabase.map (CompileDatabase.read readEntries)) := by
  have valid : validateProjectOptions options = .ok () := by
    simp only [requestedLoad, bind, Except.bind] at accepted
    split at accepted
    · cases accepted
    · rename_i checked
      obtain ⟨-, rfl⟩ := Prod.mk.inj (Except.ok.inj accepted)
      exact checked
  rw [← exists_hasDash_iff named, OnlyServerOptions, mainFramaCArgs, serverWords]
  simp only [List.filter_append, filter_projectCliArgs written valid]
  rw [List.append_left_inj, List.append_right_eq_self, List.filter_eq_nil_iff]
  simp

/-- This request names an option as its only file. -/
def moduleFile : ReloadProjectParams where
  files := some ["-load-module=/tmp/payload.cmxs"]

/-- The option of the request reaches the command line. -/
theorem not_mainFramaCArgs_options :
    ¬ ∀ [Sha256] (written : Option String) (executableInPath : String → Bool)
      (framaCPath socketPath : String) (params : ReloadProjectParams)
      (profile : Option VerificationProfile) (readEntries : String → Except String (List Json))
      (loadedFiles : Except String (List String)) (requested : Option (List String))
      (options : ProjectLoadOptions) (files : List String),
      requestedLoad params profile = .ok (requested, options) →
      filesForThisLoad loadedFiles requested
        (options.compilationDatabase.map (CompileDatabase.read readEntries)) = .ok files →
      OnlyServerOptions written executableInPath framaCPath files options socketPath := by
  intro clean
  have same := @clean (.ofTable [] rfl) none (fun _ => false) "frama-c" "/tmp/frama-c.io" moduleFile
    none (fun _ => .error "") (.error "") _ _ _ rfl rfl
  exact absurd same (by unfold OnlyServerOptions; decide +kernel)

/-- The example loads the files of a compilation database. -/
theorem mainFramaCArgs_options_iff_example :
    OnlyServerOptions none (fun _ => true) "frama-c" ["/src/a.c", "/src/b.c"]
        { machdep := some "gcc_x86_64", compilationDatabase := some "compile_commands.json" }
        "/tmp/frama-c.io" ↔
      ¬ FileHasDash (.error "") none (some ⟨"compile_commands.json", .ok
        [.obj [("directory", .str "/src"), ("file", .str "a.c")], .obj [("file", .str "/src/b.c")],
          .obj [("file", .str "/src/a.c")]]⟩) :=
  @mainFramaCArgs_options_iff (.ofTable [] rfl) none (fun _ => true) "frama-c" "/tmp/frama-c.io"
    { machdep := some "gcc_x86_64", compilationDatabase := some "compile_commands.json" } none
    (fun _ => .ok [.obj [("directory", .str "/src"), ("file", .str "a.c")],
      .obj [("file", .str "/src/b.c")], .obj [("file", .str "/src/a.c")]])
    (.error "") _ _ _ rfl rfl

end FramaCMcp.LoadCommand
