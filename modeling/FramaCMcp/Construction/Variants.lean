/-
This file checks several configurations of one program and gives the verdict over all of them.
-/

import FramaCMcp.Foundation.HashMap
import FramaCMcp.Foundation.Json

namespace FramaCMcp.Variants

/-- A variant overrides what the check sets for all of them. -/
structure CheckVariant where
  label : Option String := none
  defines : Option (List String) := none
  machdep : Option String := none

/-- These are the settings of the check that a variant may override. -/
structure CheckParams where
  defines : Option (List String) := none
  machdep : Option String := none

def numbered (label : String) (suffix : Nat) : String := label ++ "#" ++ toString suffix

/-- The search for a free label tries one number after the other. -/
def freeLabel (taken : List String) (label : String) : Nat → Nat → Option String
  | 0, _ => none
  | steps + 1, suffix =>
      if numbered label suffix ∈ taken then freeLabel taken label steps (suffix + 1)
      else some (numbered label suffix)

/-- One step more than there are labels is enough for the search. -/
def claimLabel (taken : List String) (label : String) (start : Nat) : Option String :=
  if label ∉ taken then some label else freeLabel taken label (taken.length + 1) start

/-- The payload says what the load used, and without a load the request counts. -/
def effectiveInputs (payload : Json) (defines : List String) (machdep : Option String) :
    List String × Option String × Option String :=
  match (payload.get "reload").filter fun reload => (reload.get "defines").isSome with
  | some reload =>
      ((((reload.index "defines").asArray.bind fun items => items.mapM Json.asStr).getD []),
        (reload.index "machdep").asStr, (reload.index "machdep_digest").asStr)
  | none => (defines, machdep, none)

def incompleteCodes (payload : Json) : List String :=
  (((payload.get "incomplete").bind Json.asArray).getD []).filterMap fun item =>
    (item.get "code").bind Json.asStr

/-- This is the report of one variant before it is compared with the others. -/
def variantEntry (label : String) (payload : Json) (defines : List String)
    (machdep machdepDigest : Option String) : Json :=
  .obj [("label", .str label), ("defines", .arr (defines.map .str)),
    ("machdep", .ofText? machdep), ("machdep_digest", .ofText? machdepDigest),
    ("model", (payload.pointer ["wp", "effective_wp_config", "model"]).getD .null),
    ("verdict", payload.index "verdict"),
    ("incomplete", .arr ((incompleteCodes payload).map .str)),
    ("ast_digest", .ofText? ((payload.pointer ["proof_receipt", "subject", "ast_digest"]).bind
      Json.asStr)),
    ("wp_backend_diagnosis", payload.index "wp_backend_diagnosis"),
    ("proof_receipt_sha256", (payload.pointer ["proof_receipt", "sha256"]).getD .null)]

def astDigest (entry : Json) : Option String := (entry.get "ast_digest").bind Json.asStr

/-- The machine is known by its digest or else by its name. -/
def variantProgramKey (entry : Json) : Option String :=
  (astDigest entry).map fun digest =>
    digest ++ "\x00" ++ (((entry.get "machdep_digest").bind Json.asStr).or
      ((entry.get "machdep").bind Json.asStr)).getD ""

/-- These inputs can change the code. -/
abbrev AstInputs := List String × Option String

/-- Each program comes with the inputs that led to it and the first label for each. -/
abbrev DigestGroups := HashMap (List (String × AstInputs))

structure VariantRun where
  results : List Json := []
  digests : DigestGroups := ∅
  labels : List String := []

/-- The first variant of the program is named where the inputs are new for the program. -/
def duplicateOf (digests : DigestGroups) (key : String) (inputs : AstInputs) : Option String :=
  (digests.lookup key).bind fun groups =>
    if groups.any fun group => group.2 == inputs then none else groups.head?.map Prod.fst

def addInputs (digests : DigestGroups) (key label : String) (inputs : AstInputs) : DigestGroups :=
  let groups := (digests.lookup key).getD []
  if groups.any fun group => group.2 == inputs then digests.insert key groups
  else digests.insert key (groups ++ [(label, inputs)])

/-- One variant is checked and compared with the ones before it. -/
def checkVariant (base : CheckParams) (state : VariantRun) (index : Nat) (variant : CheckVariant)
    (payload : Json) : Option VariantRun :=
  (claimLabel state.labels (variant.label.getD ("variant" ++ toString index)) index).map
    fun label =>
      let effective := effectiveInputs payload ((variant.defines.or base.defines).getD [])
        (variant.machdep.or base.machdep)
      let inputs := (effective.1, effective.2.1)
      let entry := variantEntry label payload effective.1 effective.2.1 effective.2.2
      let program := variantProgramKey entry
      let first := program.bind fun key => duplicateOf state.digests key inputs
      { results := state.results ++
          [first.elim entry fun first => entry.insert "duplicate_ast" (.str first)]
        digests := program.elim state.digests fun key => addInputs state.digests key label inputs
        labels := label :: state.labels }

/-- Each variant comes with the payload of its check. -/
def checkFrom (base : CheckParams) (state : VariantRun) (index : Nat) :
    List (CheckVariant × Json) → Option VariantRun
  | [] => some state
  | (variant, payload) :: rest =>
      (checkVariant base state index variant payload).bind fun next =>
        checkFrom base next (index + 1) rest

def duplicateReason : String :=
  "Two or more variants asked for different code and analysed byte-identical ASTs, so they are " ++
    "one configuration checked twice rather than several checked once. Equal goal counts cannot " ++
    "show this; the digests can. Variants that differ only in the WP model are not counted here: " ++
    "no proof option changes the AST, so sharing one is expected."

def unestablishedReason : String :=
  "At least one variant has no AST digest, so it was compared to nothing and this run cannot say " ++
    "whether the configurations differ. Read proof_receipt.subject.ast_digest_unavailable_reason " ++
    "on that variant: the usual causes are the ast-utils plug-in not being installed and " ++
    "printSource outrunning its budget on a large project."

def isProved (entry : Json) : Bool := (entry.get "verdict").bind Json.asStr == some "proved"

/-- The verdict needs every proof and every comparison. -/
def checkVariantsSummary (results : List Json) : Json :=
  let duplicates := results.countP fun entry => (entry.get "duplicate_ast").isSome
  let unestablished := results.countP fun entry => (astDigest entry).isNone
  .obj [("schema", .str "frama-c-mcp.check-variants.v2"),
    ("verdict", .str (if duplicates = 0 ∧ unestablished = 0 ∧ results.all isProved then "proved"
      else "incomplete")),
    ("variant_count", .num results.length),
    ("distinct_asts", .num (results.filterMap variantProgramKey).dedup.length),
    ("duplicate_ast_count", .num duplicates),
    ("ast_digest_unavailable_count", .num unestablished),
    ("reason", if 0 < duplicates then .str duplicateReason
      else if 0 < unestablished then .str unestablishedReason else .null),
    ("variants", .arr results)]

def checkVariants (base : CheckParams) (variants : List (CheckVariant × Json)) :
    Option (List Json × Json) :=
  (checkFrom base {} 0 variants).map fun checked =>
    (checked.results, checkVariantsSummary checked.results)

end FramaCMcp.Variants
