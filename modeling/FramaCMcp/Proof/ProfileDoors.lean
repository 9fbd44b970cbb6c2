/-
This file compares the two doors that a profiled run must pass.
-/

import FramaCMcp.Construction.Profile

namespace FramaCMcp.ProfileDoors

open Receipt Profile

theorem length_laterFields (options : ProjectLoadOptions) :
    (laterFields options).length = options.unsignedRteSkipped.toNat +
      options.pointerRteRequested.toNat + options.builtinModels.isSome.toNat := by
  unfold laterFields
  cases options.unsignedRteSkipped <;> cases options.pointerRteRequested <;>
    cases options.builtinModels <;> rfl

theorem lookup_unsigned (options : ProjectLoadOptions) :
    (projectLoadIdentity options).get "unsigned_rte_skipped" =
      if options.unsignedRteSkipped then some (.bool true) else none := by
  unfold projectLoadIdentity laterFields
  cases options.unsignedRteSkipped <;> cases options.pointerRteRequested <;>
    cases options.builtinModels <;> rfl

theorem lookup_pointer (options : ProjectLoadOptions) :
    (projectLoadIdentity options).get "pointer_rte_requested" =
      if options.pointerRteRequested then some (.bool true) else none := by
  unfold projectLoadIdentity laterFields
  cases options.unsignedRteSkipped <;> cases options.pointerRteRequested <;>
    cases options.builtinModels <;> rfl

theorem lookup_builtin (options : ProjectLoadOptions) :
    (projectLoadIdentity options).get "builtin_models" = options.builtinModels.map Json.str := by
  unfold projectLoadIdentity laterFields
  cases options.unsignedRteSkipped <;> cases options.pointerRteRequested <;>
    cases options.builtinModels <;> rfl

theorem mem_laterFields (options : ProjectLoadOptions) (entry : String × Json) :
    entry ∈ laterFields options ↔
      (options.unsignedRteSkipped = true ∧ entry = ("unsigned_rte_skipped", .bool true)) ∨
      (options.pointerRteRequested = true ∧ entry = ("pointer_rte_requested", .bool true)) ∨
      ∃ digest, options.builtinModels = some digest ∧ entry = ("builtin_models", .str digest) := by
  unfold laterFields
  cases options.unsignedRteSkipped <;> cases options.pointerRteRequested <;>
    cases options.builtinModels <;> simp

structure LaterWithin (left right : ProjectLoadOptions) : Prop where
  unsigned : left.unsignedRteSkipped = true → right.unsignedRteSkipped = true
  pointer : left.pointerRteRequested = true → right.pointerRteRequested = true
  builtin : ∀ digest, left.builtinModels = some digest → right.builtinModels = some digest

/-- Settings within settings of the same number are the same settings. -/
theorem LaterWithin.eq_of_length {left right : ProjectLoadOptions} (within : LaterWithin left right)
    (length : (laterFields left).length = (laterFields right).length) :
    left.unsignedRteSkipped = right.unsignedRteSkipped ∧
      left.pointerRteRequested = right.pointerRteRequested ∧
      left.builtinModels = right.builtinModels := by
  obtain ⟨unsigned, pointer, builtin⟩ := within
  rw [length_laterFields, length_laterFields] at length
  cases leftUnsigned : left.unsignedRteSkipped <;> cases rightUnsigned : right.unsignedRteSkipped <;>
    cases leftPointer : left.pointerRteRequested <;>
    cases rightPointer : right.pointerRteRequested <;>
    cases leftBuiltin : left.builtinModels <;> cases rightBuiltin : right.builtinModels <;>
    simp_all

theorem textArray_eqv_iff (left right : List String) :
    (textArray left).eqv (textArray right) = true ↔ left = right := by
  rw [textArray, textArray, Json.eqv, Json.eqvItems_texts_iff]

theorem bool_eqv_iff (left right : Bool) :
    (Json.bool left).eqv (Json.bool right) = true ↔ left = right := by
  simp [Json.eqv]

/-- A recorded load is equal to itself. -/
theorem projectLoadIdentity_eqv_self (options : ProjectLoadOptions) :
    (projectLoadIdentity options).eqv (projectLoadIdentity options) = true := by
  rw [projectLoadIdentity, Json.eqv, Bool.and_eq_true, Json.eqvFields_iff]
  refine ⟨by simp, ?_⟩
  simp only [List.forall_mem_cons]
  refine ⟨⟨_, rfl, (textArray_eqv_iff _ _).mpr rfl⟩, ⟨_, rfl, (textArray_eqv_iff _ _).mpr rfl⟩,
    ⟨_, rfl, (textArray_eqv_iff _ _).mpr rfl⟩, ⟨_, rfl, (Json.eqv_ofText?_iff _ _).mpr rfl⟩,
    ⟨_, rfl, (Json.eqv_ofText?_iff _ _).mpr rfl⟩, ⟨_, rfl, (bool_eqv_iff _ _).mpr rfl⟩,
    ⟨_, rfl, (textArray_eqv_iff _ _).mpr rfl⟩, ⟨_, rfl, (bool_eqv_iff _ _).mpr rfl⟩, ?_⟩
  intro entry member
  rcases (mem_laterFields options entry).mp member with ⟨set, rfl⟩ | ⟨set, rfl⟩ | ⟨digest, set, rfl⟩
  · exact ⟨_, (lookup_unsigned options).trans (if_pos set), (bool_eqv_iff _ _).mpr rfl⟩
  · exact ⟨_, (lookup_pointer options).trans (if_pos set), (bool_eqv_iff _ _).mpr rfl⟩
  · exact ⟨.str digest, by rw [← Json.get_obj]; exact (lookup_builtin options).trans (by rw [set]; rfl),
      by simp [Json.eqv]⟩

/-- The later settings of equal records are the same. -/
theorem laterWithin_of_eqv (left right : ProjectLoadOptions)
    (same : (projectLoadIdentity left).eqv (projectLoadIdentity right) = true) :
    LaterWithin left right := by
  have found : ∀ key value, (projectLoadIdentity left).get key = some value →
      ∃ other, (projectLoadIdentity right).get key = some other ∧ value.eqv other = true := by
    intro key value read
    obtain ⟨before, after, split, -⟩ := List.lookup_eq_some_iff.mp read
    rw [projectLoadIdentity, projectLoadIdentity, Json.eqv, Bool.and_eq_true,
      Json.eqvFields_iff] at same
    exact same.2 (key, value) (by simp [split])
  constructor
  · intro set
    obtain ⟨other, read, -⟩ := found "unsigned_rte_skipped" _ (by rw [lookup_unsigned, if_pos set])
    by_contra unset
    simp [lookup_unsigned, unset] at read
  · intro set
    obtain ⟨other, read, -⟩ := found "pointer_rte_requested" _ (by rw [lookup_pointer, if_pos set])
    by_contra unset
    simp [lookup_pointer, unset] at read
  · intro digest set
    obtain ⟨other, read, equal⟩ := found "builtin_models" (.str digest)
      (by rw [lookup_builtin, set]; rfl)
    rw [lookup_builtin] at read
    obtain ⟨text, present, rfl⟩ := Option.map_eq_some_iff.mp read
    simp only [Json.eqv, beq_iff_eq] at equal
    rw [present, equal]

/-- The recorded load determines the settings. -/
theorem projectLoadIdentity_eqv_iff (left right : ProjectLoadOptions) :
    (projectLoadIdentity left).eqv (projectLoadIdentity right) = true ↔ left = right := by
  constructor
  · intro same
    have recorded := fun key first second => Json.eqv_of_get _ _ key first second same
    have includePaths := (textArray_eqv_iff _ _).mp (recorded "include_paths" _ _ rfl rfl)
    have defines := (textArray_eqv_iff _ _).mp (recorded "defines" _ _ rfl rfl)
    have forceIncludes := (textArray_eqv_iff _ _).mp (recorded "force_includes" _ _ rfl rfl)
    have machdep := (Json.eqv_ofText?_iff _ _).mp (recorded "machdep" _ _ rfl rfl)
    have database := (Json.eqv_ofText?_iff _ _).mp (recorded "compilation_database" _ _ rfl rfl)
    have rte := (bool_eqv_iff _ _).mp (recorded "rte" _ _ rfl rfl)
    have isystemPaths := (textArray_eqv_iff _ _).mp (recorded "isystem_paths" _ _ rfl rfl)
    have nostdinc := (bool_eqv_iff _ _).mp (recorded "nostdinc" _ _ rfl rfl)
    have length : (laterFields left).length = (laterFields right).length := by
      rw [projectLoadIdentity, projectLoadIdentity, Json.eqv, Bool.and_eq_true] at same
      simpa using same.1
    obtain ⟨unsigned, pointer, builtin⟩ := (laterWithin_of_eqv left right same).eq_of_length length
    cases left
    cases right
    simp_all
  · rintro rfl
    exact projectLoadIdentity_eqv_self left

/-- The profile states what the run of a target needs. -/
structure StatesTarget (profile : VerificationProfile) : Prop where
  model : profile.model.isSome = true
  provers : profile.provers ≠ []
  timeoutSeconds : profile.timeoutSeconds.isSome = true
  functions : profile.functions ≠ []
  rte : profile.rte.isSome = true
  nostdinc : profile.nostdinc.isSome = true

/-- The receipt records the load identity and the files of this load. -/
structure ComputedFrom [Sha256] (disk : FileSystem) (files : List String)
    (options : ProjectLoadOptions) (receipt : Json) : Prop where
  load : receipt.pointer ["subject", "project_load"] = some (projectLoadIdentity options)
  files : receipt.pointer ["subject", "files"] = some (.arr (proofReceiptSourceFiles disk files))

/-- These are the questions about the files and the settings of the load. -/
def loadPartError [UnicodeTables] [Sha256] (name : String) (profile : VerificationProfile)
    (receipt : Json) : Option String :=
  sourcesError name profile (some receipt) <|> projectLoadError name profile receipt

theorem path_receiptSourceFile [Sha256] (disk : FileSystem) (file : String) :
    ((receiptSourceFile disk file).pointer ["path"]).bind Json.asStr =
      some (receiptSourcePath file) := by
  unfold receiptSourceFile
  cases disk.read file <;> rfl

/-- The recorded paths are a rearrangement of the loaded files. -/
theorem provedOver_perm [Sha256] (disk : FileSystem) (files : List String)
    (options : ProjectLoadOptions) (receipt : Json)
    (computed : ComputedFrom disk files options receipt) :
    (provedOver (some receipt)).Perm (files.map receiptSourcePath) := by
  have paths : provedOver (some receipt) = (proofReceiptSourceFiles disk files).filterMap
      fun file => (file.pointer ["path"]).bind Json.asStr := by
    rw [provedOver, Option.bind_some, computed.files]
    rfl
  have recorded : (files.map (receiptSourceFile disk)).filterMap
      (fun file => (file.pointer ["path"]).bind Json.asStr) = files.map receiptSourcePath := by
    rw [List.filterMap_map]
    simp [path_receiptSourceFile]
  rw [paths, ← recorded]
  exact (StableSort.sortByKey_perm _ _).filterMap _

theorem sortTexts_eq_iff (left right : List String) :
    sortTexts left = sortTexts right ↔ left.Perm right := by
  constructor
  · intro same
    exact (List.perm_insertionSort _ left).symm.trans
      ((List.Perm.of_eq same).trans (List.perm_insertionSort _ right))
  · intro permuted
    have sorted : (sortTexts left).Perm (sortTexts right) :=
      (List.perm_insertionSort _ left).trans
        (permuted.trans (List.perm_insertionSort _ right).symm)
    exact sorted.eq_of_sortedLE List.sortedLE_insertionSort List.sortedLE_insertionSort

theorem sortTexts_isEmpty (texts : List String) : (sortTexts texts).isEmpty = texts.isEmpty := by
  rw [Bool.eq_iff_iff, List.isEmpty_iff_length_eq_zero, List.isEmpty_iff_length_eq_zero, sortTexts,
    List.length_insertionSort]

/-- The evidence door compares the files as a collection of recorded names. -/
theorem sourcesError_eq_none_iff [UnicodeTables] [Sha256] (disk : FileSystem) (name : String)
    (profile : VerificationProfile) (files : List String) (options : ProjectLoadOptions)
    (receipt : Json) (computed : ComputedFrom disk files options receipt) :
    sourcesError name profile (some receipt) = none ↔
      profile.sources = [] ∨ profile.sources.Perm (files.map receiptSourcePath) := by
  have recorded := provedOver_perm disk files options receipt computed
  have same : profile.sources.Perm (provedOver (some receipt)) ↔
      profile.sources.Perm (files.map receiptSourcePath) :=
    ⟨fun permuted => permuted.trans recorded, fun permuted => permuted.trans recorded.symm⟩
  rw [← same, ← sortTexts_eq_iff]
  simp only [sourcesError, sortTexts_isEmpty]
  by_cases empty : profile.sources = []
  · simp [empty]
  · simp [empty]

/-- The evidence door compares the settings with the load that the target describes. -/
theorem projectLoadError_eq_none_iff [Sha256] (disk : FileSystem) (name : String)
    (profile : VerificationProfile) (files : List String) (options : ProjectLoadOptions)
    (receipt : Json) (computed : ComputedFrom disk files options receipt) :
    projectLoadError name profile receipt = none ↔
      ∃ rte nostdinc, profile.rte = some rte ∧ profile.nostdinc = some nostdinc ∧
        options = expectedLoad profile rte nostdinc := by
  unfold projectLoadError
  cases profile.rte <;> cases profile.nostdinc <;>
    simp [computed.load, projectLoadIdentity_eqv_iff]

/-- An unset request for unsigned checks agrees with a load that has them. -/
theorem allows_unsigned_iff (stated : Option Bool) (skipped : Bool)
    (checked : stated = none → skipped = false) :
    allows stated (!skipped) = true ↔ skipped = (stated == some false) := by
  cases stated with
  | none => simp [allows, checked]
  | some want => cases want <;> cases skipped <;> simp [allows]

theorem getD_false_iff (stated : Option Bool) (loaded : Bool) :
    stated.getD false = loaded ↔ loaded = (stated == some true) := by
  cases stated with
  | none => cases loaded <;> simp
  | some want => cases want <;> cases loaded <;> simp

/-- A load with its own models is determined by the flag. -/
theorem builtinModels_iff [Sha256] (stated : Option Bool) (loaded : Option String)
    (ownModels : ∀ digest, loaded = some digest → digest = builtinModelsDigest) :
    stated.getD false = loaded.isSome ↔
      loaded = if stated == some true then some builtinModelsDigest else none := by
  rw [getD_false_iff]
  cases loaded with
  | none => cases stated == some true <;> simp
  | some digest =>
      rw [ownModels digest rfl]
      cases stated == some true <;> simp

theorem allows_stated_iff (stated loaded : Bool) :
    allows (some stated) loaded = true ↔ loaded = stated := by
  cases stated <;> cases loaded <;> decide

/-- The live door compares the same settings and the file list in its order. -/
theorem profileMatches_iff [Sha256] (profile : VerificationProfile) (files : List String)
    (options : ProjectLoadOptions) (stated : StatesTarget profile)
    (ownModels : ∀ digest, options.builtinModels = some digest → digest = builtinModelsDigest)
    (checked : profile.rteUnsigned = none → options.unsignedRteSkipped = false) :
    profileMatchesLoadedProject profile files options = true ↔
      (∃ rte nostdinc, profile.rte = some rte ∧ profile.nostdinc = some nostdinc ∧
        options = expectedLoad profile rte nostdinc) ∧
      (profile.sources = [] ∨ profile.sources = files) := by
  obtain ⟨rte, rteStated⟩ := Option.isSome_iff_exists.mp stated.rte
  obtain ⟨nostdinc, nostdincStated⟩ := Option.isSome_iff_exists.mp stated.nostdinc
  have unsigned := allows_unsigned_iff profile.rteUnsigned options.unsignedRteSkipped checked
  have builtin := builtinModels_iff profile.builtinModels options.builtinModels ownModels
  have expected : (∃ rte nostdinc, profile.rte = some rte ∧ profile.nostdinc = some nostdinc ∧
      options = expectedLoad profile rte nostdinc) ↔
      options = expectedLoad profile rte nostdinc := by
    simp [rteStated, nostdincStated]
  have fields : options = expectedLoad profile rte nostdinc ↔
      options.includePaths = profile.includePaths ∧ options.defines = profile.defines ∧
      options.forceIncludes = profile.forceIncludes ∧ options.machdep = profile.machdep ∧
      options.compilationDatabase = none ∧ options.rte = rte ∧
      options.isystemPaths = profile.isystemPaths ∧ options.nostdinc = nostdinc ∧
      options.unsignedRteSkipped = (profile.rteUnsigned == some false) ∧
      options.pointerRteRequested = (profile.rtePointer == some true) ∧
      options.builtinModels =
        if profile.builtinModels == some true then some builtinModelsDigest else none := by
    rcases options with ⟨_⟩
    simp [expectedLoad]
  rw [expected, fields]
  simp only [profileMatchesLoadedProject, Bool.and_eq_true, unsigned, builtin, getD_false_iff,
    rteStated, nostdincStated, allows_stated_iff, beq_iff_eq, Bool.or_eq_true, List.isEmpty_iff,
    Option.isNone_iff_eq_none]
  constructor
  · rintro ⟨⟨⟨⟨⟨⟨⟨⟨⟨⟨⟨database, sources⟩, include'⟩, defines⟩, force⟩, machdep⟩, rte⟩, unsigned⟩,
      pointer⟩, builtin⟩, isystem⟩, nostdinc⟩
    exact ⟨⟨include'.symm, defines.symm, force.symm, machdep.symm, database, rte, isystem.symm,
      nostdinc, unsigned, pointer, builtin⟩, sources⟩
  · rintro ⟨⟨include', defines, force, machdep, database, rte, isystem, nostdinc, unsigned,
      pointer, builtin⟩, sources⟩
    exact ⟨⟨⟨⟨⟨⟨⟨⟨⟨⟨⟨database, sources⟩, include'.symm⟩, defines.symm⟩, force.symm⟩, machdep.symm⟩,
      rte⟩, unsigned⟩, pointer⟩, builtin⟩, isystem.symm⟩, nostdinc⟩

/-- The doors ask for the same settings, and differ in how they compare the file list. -/
theorem profileDoors_agree [UnicodeTables] [Sha256] (disk : FileSystem) (name : String)
    (profile : VerificationProfile) (files : List String) (options : ProjectLoadOptions)
    (receipt : Json) (stated : StatesTarget profile)
    (computed : ComputedFrom disk files options receipt)
    (ownModels : ∀ digest, options.builtinModels = some digest → digest = builtinModelsDigest)
    (checked : profile.rteUnsigned = none → options.unsignedRteSkipped = false) :
    (profileMatchesLoadedProject profile files options = true ↔
        projectLoadError name profile receipt = none ∧
          (profile.sources = [] ∨ profile.sources = files)) ∧
      (loadPartError name profile receipt = none ↔
        projectLoadError name profile receipt = none ∧
          (profile.sources = [] ∨ profile.sources.Perm (files.map receiptSourcePath))) := by
  constructor
  · rw [profileMatches_iff profile files options stated ownModels checked,
      projectLoadError_eq_none_iff disk name profile files options receipt computed]
  · rw [← sourcesError_eq_none_iff disk name profile files options receipt computed]
    unfold loadPartError
    cases sourcesError name profile (some receipt) <;> simp

/-- The target lists its two sources in this order. -/
def orderedProfile : VerificationProfile where
  sources := ["b.c", "a.c"]
  functions := ["f"]
  model := some "Typed"
  provers := ["alt-ergo"]
  timeoutSeconds := some 10
  rte := some true
  nostdinc := some false

/-- Both source files are empty. -/
def emptyFiles : FileSystem where
  isFile _ := true
  read _ := .ok ByteArray.empty

/-- This is the digest of the empty file. -/
abbrev emptyFileDigest : Sha256 :=
  .ofTable [("", "e3b0c44298fc1c149afbf4c8996fb92427ae41e4649b934ca495991b7852b855")] rfl

/-- This is the load of the target. -/
def orderedLoad : ProjectLoadOptions where
  rte := true

/-- This receipt records the load of the given files. -/
def loadReceipt (files : List String) : Json :=
  .obj [("subject", .obj [("project_load", projectLoadIdentity orderedLoad),
    ("files", .arr (@proofReceiptSourceFiles emptyFileDigest emptyFiles files))])]

theorem orderedProfile_statesTarget : StatesTarget orderedProfile :=
  ⟨rfl, by decide, rfl, by decide, rfl, rfl⟩

theorem loadReceipt_computedFrom (files : List String) :
    @ComputedFrom emptyFileDigest emptyFiles files orderedLoad (loadReceipt files) :=
  @ComputedFrom.mk emptyFileDigest _ _ _ _ rfl rfl

/-- Both doors judge the target that is loaded in its own order. -/
theorem profileDoors_agree_ordered :
    (profileMatchesLoadedProject orderedProfile ["b.c", "a.c"] orderedLoad = true ↔
        @projectLoadError emptyFileDigest "target" orderedProfile (loadReceipt ["b.c", "a.c"]) =
            none ∧
          (orderedProfile.sources = [] ∨ orderedProfile.sources = ["b.c", "a.c"])) ∧
      (@loadPartError .ascii emptyFileDigest "target" orderedProfile
          (loadReceipt ["b.c", "a.c"]) = none ↔
        @projectLoadError emptyFileDigest "target" orderedProfile (loadReceipt ["b.c", "a.c"]) =
            none ∧
          (orderedProfile.sources = [] ∨
            orderedProfile.sources.Perm (["b.c", "a.c"].map receiptSourcePath))) :=
  @profileDoors_agree .ascii emptyFileDigest emptyFiles "target" orderedProfile ["b.c", "a.c"]
    orderedLoad (loadReceipt ["b.c", "a.c"]) orderedProfile_statesTarget
    (loadReceipt_computedFrom _) (by simp [orderedLoad]) (by simp [orderedLoad])

/-- The live door refuses the order that the evidence door accepts. -/
theorem not_profileDoors_agree :
    ¬ ∀ [UnicodeTables] [Sha256] (disk : FileSystem) (name : String)
      (profile : VerificationProfile) (files : List String) (options : ProjectLoadOptions)
      (receipt : Json), StatesTarget profile → ComputedFrom disk files options receipt →
      (profileMatchesLoadedProject profile files options = true ↔
        loadPartError name profile receipt = none) := by
  intro agree
  let tables : UnicodeTables := .ascii
  let digest : Sha256 := emptyFileDigest
  have computed : ComputedFrom emptyFiles ["a.c", "b.c"] orderedLoad (loadReceipt ["a.c", "b.c"]) :=
    loadReceipt_computedFrom _
  have settings : projectLoadError "target" orderedProfile (loadReceipt ["a.c", "b.c"]) = none :=
    (projectLoadError_eq_none_iff emptyFiles "target" orderedProfile _ orderedLoad _
      computed).mpr ⟨true, false, rfl, rfl, rfl⟩
  have sources : sourcesError "target" orderedProfile (some (loadReceipt ["a.c", "b.c"])) = none :=
    (sourcesError_eq_none_iff emptyFiles "target" orderedProfile _ orderedLoad _
      computed).mpr (.inr (List.Perm.swap _ _ _))
  have accepted : loadPartError "target" orderedProfile (loadReceipt ["a.c", "b.c"]) = none := by
    rw [loadPartError, sources, settings]
    rfl
  have live := (agree emptyFiles "target" orderedProfile ["a.c", "b.c"] orderedLoad _
    orderedProfile_statesTarget computed).mpr accepted
  simp [profileMatchesLoadedProject, orderedProfile] at live

end FramaCMcp.ProfileDoors
