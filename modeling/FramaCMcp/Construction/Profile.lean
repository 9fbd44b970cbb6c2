/-
This file compares a verification profile with a loaded project and with a proof receipt.
-/

import FramaCMcp.Construction.Receipt

namespace FramaCMcp.Profile

open Goals Receipt

/-- Each stated field is what a run must match. -/
structure VerificationProfile where
  sources : List String := []
  functions : List String := []
  model : Option String := none
  machdep : Option String := none
  includePaths : List String := []
  defines : List String := []
  forceIncludes : List String := []
  provers : List String := []
  timeoutSeconds : Option Nat := none
  isystemPaths : List String := []
  nostdinc : Option Bool := none
  minGoals : Option Nat := none
  rte : Option Bool := none
  rteUnsigned : Option Bool := none
  rtePointer : Option Bool := none
  builtinModels : Option Bool := none
  deriving DecidableEq, Repr

/-- Every contract of this header is an assumption. -/
def builtinModelsHeader : String :=
  "/* frama-c-mcp builtin models: every contract below is an assumption. */\n" ++
  "/*@ terminates \\true; exits \\false; assigns \\nothing; ensures \\false; */\n" ++
  "void __builtin_unreachable(void);\n" ++
  "/*@ terminates \\false; exits \\false; assigns \\nothing; ensures \\false; */\n" ++
  "void __builtin_trap(void);\n" ++
  "/*@ requires x != 0; assigns \\nothing;\n    ensures 0 <= \\result < 8 * sizeof(unsigned int); */\n" ++
  "int __builtin_clz(unsigned int x);\n" ++
  "/*@ requires x != 0; assigns \\nothing;\n    ensures 0 <= \\result < 8 * sizeof(unsigned int); */\n" ++
  "int __builtin_ctz(unsigned int x);\n" ++
  "/*@ assigns \\nothing; ensures 0 <= \\result <= 8 * sizeof(unsigned int); */\n" ++
  "int __builtin_popcount(unsigned int x);\n"

def builtinModelsDigest [Sha256] : String := Sha256.hexText builtinModelsHeader

/-- An unset option constrains nothing. -/
def allows (stated : Option Bool) (loaded : Bool) : Bool := stated.all fun want => want == loaded

/-- The loaded project is compared field by field. -/
def profileMatchesLoadedProject (profile : VerificationProfile) (files : List String)
    (options : ProjectLoadOptions) : Bool :=
  options.compilationDatabase.isNone &&
    (profile.sources.isEmpty || profile.sources == files) &&
    profile.includePaths == options.includePaths &&
    profile.defines == options.defines &&
    profile.forceIncludes == options.forceIncludes &&
    profile.machdep == options.machdep &&
    allows profile.rte options.rte &&
    allows profile.rteUnsigned (!options.unsignedRteSkipped) &&
    profile.rtePointer.getD false == options.pointerRteRequested &&
    profile.builtinModels.getD false == options.builtinModels.isSome &&
    profile.isystemPaths == options.isystemPaths &&
    allows profile.nostdinc options.nostdinc

def provedFunctions (receipt : Json) : Option (List Json) :=
  (receipt.pointer ["wp", "functions"]).bind Json.asArray

/-- The receipt names this function among the ones that WP ran over. -/
def receiptNamesFunction (receipt : Json) (function : String) : Bool :=
  (provedFunctions receipt).any fun names => names.any fun name => name.isText function

def targetFunctionError (name : String) (profile : VerificationProfile) (function : String) :
    Option String :=
  if profile.functions.contains function then none
  else some ("verify_profile \"" ++ name ++ "\" does not prove " ++ function ++
    ", so a conclusion for it is not evidence about that target")

def receiptFunctionError (name function : String) (receipt : Option Json) : Option String :=
  if receipt.all fun receipt => receiptNamesFunction receipt function then none
  else some ("this receipt does not prove " ++ function ++
    ", so it is not evidence about verify_profile \"" ++ name ++ "\"")

def modelError (name : String) (profile : VerificationProfile) (receipt : Option Json) :
    Option String :=
  match profile.model, ((receipt.bind fun receipt => receipt.pointer ["wp", "model"]).bind
      Json.asStr) with
  | some declared, some used =>
      if declared = used then none
      else some ("verify_profile \"" ++ name ++ "\" declares model " ++ declared ++
        " and this receipt was produced under " ++ used ++
        ", so it is not evidence about that target")
  | _, _ => none

/-- These are the recorded paths of the source files. -/
def provedOver (receipt : Option Json) : List String :=
  (((receipt.bind fun receipt => receipt.pointer ["subject", "files"]).bind
    Json.asArray).getD []).filterMap fun file => (file.pointer ["path"]).bind Json.asStr

def sortTexts (texts : List String) : List String := texts.insertionSort (· ≤ ·)

/-- Both lists are sorted before they are compared. -/
def sourcesError [UnicodeTables] (name : String) (profile : VerificationProfile)
    (receipt : Option Json) : Option String :=
  let proved := sortTexts (provedOver receipt)
  let declared := sortTexts profile.sources
  if !declared.isEmpty && receipt.isSome && declared != proved then
    some ("verify_profile \"" ++ name ++ "\" declares sources " ++ Text.debugList declared ++
      " and this receipt was produced over " ++ Text.debugList proved ++
      ", so it is not evidence about that target")
  else none

/-- This is the load that a receipt of the target records. -/
def expectedLoad [Sha256] (profile : VerificationProfile) (rte nostdinc : Bool) :
    ProjectLoadOptions where
  includePaths := profile.includePaths
  defines := profile.defines
  forceIncludes := profile.forceIncludes
  machdep := profile.machdep
  compilationDatabase := none
  rte := rte
  isystemPaths := profile.isystemPaths
  nostdinc := nostdinc
  unsignedRteSkipped := profile.rteUnsigned == some false
  pointerRteRequested := profile.rtePointer == some true
  builtinModels := if profile.builtinModels == some true then some builtinModelsDigest else none

def projectLoadError [Sha256] (name : String) (profile : VerificationProfile) (receipt : Json) :
    Option String :=
  match profile.rte, profile.nostdinc with
  | some rte, some nostdinc =>
      if (receipt.pointer ["subject", "project_load"]).any fun load =>
          load.eqv (projectLoadIdentity (expectedLoad profile rte nostdinc)) then none
      else some ("verify_profile \"" ++ name ++ "\" declares different project load settings than " ++
        "this receipt, so it is not evidence about that target")
  | _, _ => some ("verify_profile \"" ++ name ++ "\" must state both rte and nostdinc for a " ++
      "receipt to be checked against it")

def goalsOwnedBy (goals : List Json) (functions : List String) : Nat :=
  ((goals.filterMap goalOwnerName).filter functions.contains).length

def coversWholeTarget (profile : VerificationProfile) (receipt : Json) : Bool :=
  (provedFunctions receipt).isSome && profile.functions.all (receiptNamesFunction receipt)

/-- The floor counts the goals of the target where the receipt names their owners. -/
def floorError (name : String) (profile : VerificationProfile) (receipt : Json) : Option String :=
  (profile.minGoals.filter fun _ => coversWholeTarget profile receipt).bind fun minGoals =>
    let goals := ((receipt.get "goals").bind Json.asArray).getD []
    let recorded := if receiptGoalsRecordOwner goals then goalsOwnedBy goals profile.functions
      else goals.length
    if recorded < minGoals then
      some ("verify_profile \"" ++ name ++ "\" requires at least " ++ toString minGoals ++
        " obligations and this receipt records " ++ toString recorded ++
        ", so it is not evidence about that target however many discharged")
    else none

/-- The first failed question names the mismatch. -/
def profileEvidenceError [UnicodeTables] [Sha256] (name : String) (profile : VerificationProfile)
    (function : String) (receipt : Option Json) : Option String :=
  targetFunctionError name profile function <|> receiptFunctionError name function receipt <|>
    modelError name profile receipt <|> sourcesError name profile receipt <|>
    receipt.bind fun receipt =>
      projectLoadError name profile receipt <|> floorError name profile receipt

end FramaCMcp.Profile
