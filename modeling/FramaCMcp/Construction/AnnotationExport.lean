/-
This file writes the contracts and the code annotations of a program into a dump.
-/

import FramaCMcp.Foundation.Json

namespace FramaCMcp.Export

section Specifications

inductive PredicateKind where
  | assert
  | check
  | admitted
  deriving DecidableEq

inductive TerminationKind where
  | normal
  | exits
  | breaks
  | «continues»
  | returns
  deriving DecidableEq

/-- A statement is given by its text in the dump, and so is a term. -/
structure ToplevelPredicate where
  tpKind : PredicateKind
  tpStatement : Json

inductive Deps where
  | fromAny
  | «from» (its : List Json)

abbrev From := Json × Deps

inductive Assigns where
  | writesAny
  | writes (froms : List From)

inductive Allocation where
  | freeAllocAny
  | freeAlloc (frees allocates : List Json)

/-- Only requires and ensures clauses have a kind in the language. -/
structure Behavior where
  bName : String
  bRequires : List ToplevelPredicate
  bAssumes : List Json
  bPostCond : List (TerminationKind × ToplevelPredicate)
  bAssigns : Assigns
  bAllocation : Allocation

structure Funspec where
  specBehavior : List Behavior
  specVariant : Option (Json × Option String)
  specTerminates : Option Json
  specCompleteBehaviors : List (List String)
  specDisjointBehaviors : List (List String)

inductive ExtKind where
  | id
  | terms
  | preds
  | annot

inductive CodeAnnot where
  | assert (bhvs : List String) (p : ToplevelPredicate)
  | invariant (bhvs : List String) (loop : Bool) (p : ToplevelPredicate)
  | variant (t : Json) (rel : Option String)
  | assigns (bhvs : List String) (assigns : Assigns)
  | allocation (bhvs : List String) (alloc : Allocation)
  | stmtSpec (bhvs : List String) (spec : Funspec)
  | extended (bhvs : List String) (isLoop : Bool) (extName : String) (extKind : ExtKind)
      (payload : String)

end Specifications

section Clauses

/-- A clause comes with the behavior that it is attached to. -/
inductive Clause where
  | requires (behavior : String) (p : ToplevelPredicate)
  | ensures (behavior : String) (termination : TerminationKind) (p : ToplevelPredicate)
  | assigns (behavior : String) (froms : List From)
  | assumes (behavior : String) (p : Json)
  | allocation (behavior : String) (frees allocates : List Json)
  | terminates (p : Json)
  | decreases (variant : Json × Option String)
  | complete (names : List String)
  | disjoint (names : List String)

def Assigns.clauses (behavior : String) : Assigns → List Clause
  | .writesAny => []
  | .writes froms => [.assigns behavior froms]

def Allocation.clauses (behavior : String) : Allocation → List Clause
  | .freeAllocAny => []
  | .freeAlloc frees allocates => [.allocation behavior frees allocates]

def Behavior.clauses (bhv : Behavior) : List Clause :=
  bhv.bRequires.map (.requires bhv.bName) ++
    bhv.bPostCond.map (fun post => .ensures bhv.bName post.1 post.2) ++
    bhv.bAssigns.clauses bhv.bName ++
    bhv.bAssumes.map (.assumes bhv.bName) ++
    bhv.bAllocation.clauses bhv.bName

def Funspec.clauses (spec : Funspec) : List Clause :=
  spec.specBehavior.flatMap Behavior.clauses ++
    spec.specTerminates.toList.map .terminates ++
    spec.specVariant.toList.map .decreases ++
    spec.specCompleteBehaviors.map .complete ++
    spec.specDisjointBehaviors.map .disjoint

/-- The kernel says whether a contract is empty. One with extended clauses alone, which the export
does not read, has no clause here and is not empty. -/
structure Contract extends Funspec where
  isEmptyFunspec : Bool
  empty : isEmptyFunspec = true → toFunspec.clauses = []

end Clauses

section Sets

def mkKind (tag : String) (fields : List (String × Json)) : Json :=
  .obj (("tag", .str tag) :: fields)

def acslTermsToTset : List Json → Json
  | [] => mkKind "TSnothing" []
  | [t] => mkKind "TSterm" [("t", t)]
  | terms => mkKind "TSunion" [("sets", .arr (terms.map fun t => mkKind "TSterm" [("t", t)]))]

def acslFromsToTset (froms : List From) : Json := acslTermsToTset (froms.map Prod.fst)

def acslFromsExtractFrom (froms : List From) : List Json :=
  froms.filterMap fun entry =>
    match entry.2 with
    | .fromAny => none
    | .from [] => none
    | .from its => some (acslTermsToTset its)

end Sets

section Encoding

variable (defaultBehaviorName : String)

def tpKindToString : PredicateKind → String
  | .assert => "CKnone"
  | .check => "CKcheck"
  | .admitted => "CKadmit"

/-- Each clause of these two families is written with the kind of a plain clause. -/
def acRequires (p : ToplevelPredicate) : Json :=
  mkKind "ACrequires" [("ck", .str "CKnone"), ("p", p.tpStatement)]

def acEnsures (post : TerminationKind × ToplevelPredicate) : Json :=
  mkKind "ACensures" [("ck", .str "CKnone"), ("p", post.2.tpStatement)]

def writesFields (froms : List From) : List (String × Json) :=
  let fromJsons := acslFromsExtractFrom froms
  [("locs", acslFromsToTset froms)] ++
    if fromJsons.isEmpty then [] else [("from", .arr fromJsons)]

def acAssigns : Assigns → List Json
  | .writesAny => []
  | .writes froms => [mkKind "ACassigns" (writesFields froms)]

def acAssumes (p : Json) : Json := mkKind "ACassumes" [("p", p)]

/-- A clause without a location is left out. -/
def locsClause (tag : String) (terms : List Json) : List Json :=
  if terms.isEmpty then [] else [mkKind tag [("locs", acslTermsToTset terms)]]

def acAllocation : Allocation → List Json
  | .freeAllocAny => []
  | .freeAlloc frees allocates => locsClause "ACfrees" frees ++ locsClause "ACallocates" allocates

def behaviorName (bhv : Behavior) : Json :=
  if bhv.bName = defaultBehaviorName then .null else .str bhv.bName

def behaviorToJson (bhv : Behavior) : Json :=
  .obj [("name", behaviorName defaultBehaviorName bhv), ("clauses", .arr (
    bhv.bRequires.map acRequires ++ bhv.bPostCond.map acEnsures ++ acAssigns bhv.bAssigns ++
      bhv.bAssumes.map acAssumes ++ acAllocation bhv.bAllocation))]

def variantFields (variant : Json × Option String) : List (String × Json) :=
  (variant.2.map fun name => ("rel", Json.str name)).toList ++ [("t", variant.1)]

/-- The later clause is in front. -/
def defaultExtra (spec : Funspec) : List Json :=
  (spec.specVariant.map fun variant => mkKind "ACdecreases" (variantFields variant)).toList ++
    (spec.specTerminates.map fun p => mkKind "ACterminates" [("p", p)]).toList

def appendClauses (extra : List Json) (fields : List (String × Json)) : List (String × Json) :=
  let clauses := match fields.lookup "clauses" with
    | some (.arr cs) => .arr (cs ++ extra)
    | _ => .arr extra
  fields.map fun field => if field.1 = "clauses" then (field.1, clauses) else field

/-- The clauses of the whole contract go to the first behavior. -/
def appendExtra (extra behaviors : List Json) : List Json :=
  match behaviors with
  | .obj fields :: rest =>
      if extra.isEmpty then behaviors else .obj (appendClauses extra fields) :: rest
  | _ => behaviors

def namesToJson (names : List String) : Json := .arr (names.map .str)

def acslContractToJson (contract : Contract) : Option Json :=
  if contract.isEmptyFunspec then none
  else some (.obj [
    ("behaviors", .arr (appendExtra (defaultExtra contract.toFunspec)
      (contract.specBehavior.map (behaviorToJson defaultBehaviorName)))),
    ("complete", .arr (contract.specCompleteBehaviors.map namesToJson)),
    ("disjoint", .arr (contract.specDisjointBehaviors.map namesToJson))])

/-- The other clauses of a statement contract are not written. -/
def stmtBehaviorToJson (bhv : Behavior) : Json :=
  .obj [("name", behaviorName defaultBehaviorName bhv), ("clauses", .arr (
    bhv.bRequires.map acRequires ++ bhv.bPostCond.map acEnsures))]

def predicateFields (p : ToplevelPredicate) : List (String × Json) :=
  [("ck", .str (tpKindToString p.tpKind)), ("p", p.tpStatement)]

def extKindTag : ExtKind → String
  | .id => "EKid"
  | .terms => "EKterms"
  | .preds => "EKpreds"
  | .annot => "EKannot"

def acslAnnotationToJson : CodeAnnot → Json
  | .assert bhvs p => mkKind "AAassert"
      ((if bhvs.isEmpty then [] else [("behaviors", namesToJson bhvs)]) ++ predicateFields p)
  | .invariant _ true p => mkKind "AAloop_invariant" (predicateFields p)
  | .invariant _ false p => mkKind "AAassert" (predicateFields p)
  | .variant t rel => mkKind "AAloop_variant" (variantFields (t, rel))
  | .assigns _ .writesAny => mkKind "AAloop_assigns" [("locs", mkKind "TSnothing" [])]
  | .assigns _ (.writes froms) => mkKind "AAloop_assigns" (writesFields froms)
  | .allocation _ .freeAllocAny => mkKind "AAloop_assigns" [("locs", mkKind "TSnothing" [])]
  | .allocation _ (.freeAlloc frees allocates) =>
      if frees.isEmpty then mkKind "AAloop_allocates" [("locs", acslTermsToTset allocates)]
      else mkKind "AAloop_frees" [("locs", acslTermsToTset frees)]
  | .stmtSpec _ spec => mkKind "AAstmt_contract" [("contract", .obj [
      ("behaviors", .arr (spec.specBehavior.map (stmtBehaviorToJson defaultBehaviorName))),
      ("complete", .arr []), ("disjoint", .arr [])])]
  | .extended _ _ extName extKind payload => mkKind "AAextension"
      [("keyword", .str extName), ("kind", mkKind (extKindTag extKind) []),
        ("raw_payload", .arr [.str payload])]

end Encoding

end FramaCMcp.Export
