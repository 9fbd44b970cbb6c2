/-
This file reads the annotations of one injection call, plans their clauses in order, records where
the tagged entries go and maps the paths of the fields back to them.
-/

import FramaCMcp.Construction.Clauses

namespace FramaCMcp.Annotations

structure InjectAllAnnotationsParams where
  function : Option String := none
  sandboxName : Option String := none
  annotations : Option (List Json) := none
  proposedGlobals : Option (List Json) := none
  proposedBehaviors : Option (List Json) := none
  proposedRequires : Option (List Json) := none
  proposedEnsures : Option (List Json) := none
  proposedAssigns : Option (List Json) := none
  proposedAsserts : Option (List Json) := none
  proposedLoopAnnots : Option (List Json) := none
  proposedCompleteBehaviors : Option (List Json) := none
  proposedDisjointBehaviors : Option (List Json) := none
  proposedTerminates : Option Json := none
  proposedExits : Option Json := none
  proposedDecreases : Option Json := none

/-- One loop has a statement and a label for its clauses. -/
structure Loop where
  path : String
  stmtId : Option Int
  label : String

def Loop.baseLabel (loop : Loop) : String :=
  "loop_" ++ String.ofList (loop.label.toList.map fun letter => if letter = ' ' then '_' else letter)

def Loop.clause (loop : Loop) (behaviors : Behaviors) (keyword part purpose : String)
    (label : String) (value : Json) (plan : Plan) : Plan :=
  planWrapped plan (loop.path ++ "." ++ part) ""
    (wrapLoopClause keyword (textOr value "acsl" "") (text value "behavior") behaviors
      (loop.path ++ "." ++ part)) fun acslText => {
    acslText
    kind := "annot"
    derivedFrom := loop.path ++ "." ++ part
    stmtId := loop.stmtId
    purpose := loop.label ++ " " ++ purpose
    userLabel := some label }

def Loop.invariant (loop : Loop) (behaviors : Behaviors) (plan : Plan) (value : Json × Nat) : Plan :=
  loop.clause behaviors "loop invariant" (indexed "invariants" value.2)
    ("invariant " ++ toString value.2) (textOr value.1 "user_label" ("Inv" ++ toString value.2))
    value.1 plan

def Loop.assigns (loop : Loop) (behaviors : Behaviors) (plan : Plan) (value : Json × Nat) : Plan :=
  if isBlank (textOr value.1 "acsl" "") then plan
  else loop.clause behaviors "loop assigns" (indexed "assigns" value.2)
    ("assigns " ++ toString value.2) (loop.baseLabel ++ "_assigns_" ++ toString value.2)
    value.1 plan

/-- A variant that is absent, null or blank was not proposed. -/
def Loop.variant (loop : Loop) (behaviors : Behaviors) (plan : Plan) (value : Option Json) : Plan :=
  match value with
  | none => plan
  | some value =>
      if isBlank (textOr value "acsl" "") then plan
      else loop.clause behaviors "loop variant" "variant" "variant" (loop.baseLabel ++ "_variant")
        value plan

def fieldArray (value : Json) (key : String) : List Json :=
  ((value.get key).bind Json.asArray).getD []

/-- The clauses of one loop are planned one after another. -/
def loopAnnotsToAcsl (behaviors : Behaviors) (plan : Plan) (value : Json × Nat) : Plan :=
  let loop : Loop := {
    path := indexed "proposed_loop_annots" value.2
    stmtId := (value.1.get "stmt_id").bind Json.asI64
    label := textOr value.1 "loop_label" "" }
  let invariants :=
    (fieldArray value.1 "invariants").zipIdx.foldl (loop.invariant behaviors) plan
  let assigns := (fieldArray value.1 "assigns").zipIdx.foldl (loop.assigns behaviors) invariants
  loop.variant behaviors assigns (value.1.get "variant")

/-- A behavior without a name is skipped. -/
def behaviorEntry (value : Json) : Option (String × List String) :=
  match text value "name" with
  | none => none
  | some name =>
      if name = "" then none
      else some (name, (fieldArray value "assumes").filterMap Json.asStr)

def behaviorAssumesTable (proposedBehaviors : Option (List Json)) : Behaviors :=
  HashMap.ofList ((proposedBehaviors.getD []).filterMap behaviorEntry)

/-- The clauses are planned kind by kind. -/
def buildInjectionPlan (params : InjectAllAnnotationsParams) : Plan :=
  let behaviors := behaviorAssumesTable params.proposedBehaviors
  let plan := planGlobals {} params.proposedGlobals
  let plan := planRequires plan params.proposedRequires behaviors
  let plan := pushSingleFunspecClause plan "terminates" "proposed_terminates" "termination clause"
    params.proposedTerminates behaviors
  let plan := pushSingleFunspecClause plan "decreases" "proposed_decreases" "decreases clause"
    params.proposedDecreases behaviors
  let plan := pushSingleFunspecClause plan "exits" "proposed_exits" "exit clause"
    params.proposedExits behaviors
  let plan := planEnsures plan params.proposedEnsures behaviors
  let plan := planAssigns plan params.proposedAssigns behaviors
  let plan := pushBehaviorGroupClauses plan "complete" "proposed_complete_behaviors"
    params.proposedCompleteBehaviors behaviors
  let plan := pushBehaviorGroupClauses plan "disjoint" "proposed_disjoint_behaviors"
    params.proposedDisjointBehaviors behaviors
  let plan := planAsserts plan params.proposedAsserts
  ((params.proposedLoopAnnots.getD []).zipIdx).foldl (loopAnnotsToAcsl behaviors) plan

/-- The ghost entries leave the call with their places and kinds. -/
structure Expansion where
  params : InjectAllAnnotationsParams
  ghosts : List (Nat × String × Json) := []

def ghostKinds : List String :=
  ["ghost_global", "ghost_formal", "ghost_lemma_function", "ghost_loop", "ghost_stmt"]

def entryPath (index : Nat) : String := indexed "annotations" index

/-- A group needs a nonempty array of names. -/
def behaviorGroupNames (index : Nat) (kind : String) (names : Option Json) : Except String Json :=
  match names with
  | none => .error (entryPath index ++ ": " ++ kind ++
      " needs a behaviors array, e.g. \x7b\"kind\": \"" ++ kind ++
      "\", \"behaviors\": [\"pos\", \"neg\"]\x7d")
  | some names =>
      if names.asArray.any fun items => !items.isEmpty && items.all fun item => item.asStr.isSome then
        .ok names
      else .error (entryPath index ++ ": " ++ kind ++
        " behaviors must be a non-empty array of names")

def removeField (key : String) (fields : List (String × Json)) : List (String × Json) :=
  fields.filter fun field => field.1 != key

def append (list : Option (List Json)) (value : Json) : Option (List Json) :=
  some (list.getD [] ++ [value])

/-- A single clause may appear at most once. -/
def fillSingle (index : Nat) (kind : String) (slot : Option Json) (value : Json) :
    Except String (Option Json) :=
  if slot.isSome then .error (entryPath index ++ ": " ++ kind ++ " may appear at most once")
  else .ok (some value)

/-- One entry goes to the field of its kind. -/
def expandKind [UnicodeTables] (state : Expansion) (index : Nat) (kind : String) (entry : Json)
    (groupNames : Option Json) : Except String Expansion :=
  let params := state.params
  let keep (params : InjectAllAnnotationsParams) : Expansion := { state with params }
  if ghostKinds.contains kind then .ok { state with ghosts := state.ghosts ++ [(index, kind, entry)] }
  else match kind with
  | "global" => .ok (keep { params with proposedGlobals := append params.proposedGlobals entry })
  | "behavior" => .ok (keep { params with
      proposedBehaviors := append params.proposedBehaviors entry })
  | "requires" => .ok (keep { params with
      proposedRequires := append params.proposedRequires entry })
  | "ensures" => .ok (keep { params with proposedEnsures := append params.proposedEnsures entry })
  | "assigns" => .ok (keep { params with proposedAssigns := append params.proposedAssigns entry })
  | "assert" => .ok (keep { params with proposedAsserts := append params.proposedAsserts entry })
  | "loop" => .ok (keep { params with
      proposedLoopAnnots := append params.proposedLoopAnnots entry })
  | "terminates" => (fillSingle index kind params.proposedTerminates entry).map fun slot =>
      keep { params with proposedTerminates := slot }
  | "exits" => (fillSingle index kind params.proposedExits entry).map fun slot =>
      keep { params with proposedExits := slot }
  | "decreases" => (fillSingle index kind params.proposedDecreases entry).map fun slot =>
      keep { params with proposedDecreases := slot }
  | "complete_behaviors" => (behaviorGroupNames index kind groupNames).map fun names =>
      keep { params with
        proposedCompleteBehaviors := append params.proposedCompleteBehaviors names }
  | "disjoint_behaviors" => (behaviorGroupNames index kind groupNames).map fun names =>
      keep { params with
        proposedDisjointBehaviors := append params.proposedDisjointBehaviors names }
  | other => .error (entryPath index ++ " has unknown kind " ++ Text.debug other)

/-- The kind and the names of a group are taken out of the entry. -/
def expandEntry [UnicodeTables] (state : Expansion) (entry : Json × Nat) :
    Except String Expansion :=
  match entry.1.asObject with
  | none => .error (entryPath entry.2 ++ " must be an object")
  | some fields =>
      match (fields.lookup "kind").bind Json.asStr with
      | none => .error (entryPath entry.2 ++ " is missing kind")
      | some kind =>
          let untagged := removeField "kind" fields
          match untagged.lookup "behaviors" with
          | some names => expandKind state entry.2 kind (.obj (removeField "behaviors" untagged))
              (some names)
          | none => expandKind state entry.2 kind (.obj (removeField "names" untagged))
              (untagged.lookup "names")

/-- The tagged entries are appended to the fields of their kinds. -/
def expandTaggedAnnotations [UnicodeTables] (params : InjectAllAnnotationsParams) :
    Except String Expansion :=
  ((params.annotations.getD []).zipIdx).foldlM expandEntry ⟨{ params with annotations := none }, []⟩

/-- A name with a colon selects a sandbox. -/
def isSandbox (target : String) : Bool := Text.contains target ":"

def injectionTarget (params : InjectAllAnnotationsParams) : Except String String :=
  match params.function, params.sandboxName with
  | some function, some sandboxName =>
      if isSandbox function && function != sandboxName then
        .error "function and sandbox_name must match when function is sandbox-prefixed"
      else .ok function
  | some function, none => .ok function
  | none, some sandboxName => .ok sandboxName
  | none, none => .error "function or sandbox_name is required"

def isNonempty (clauses : Option (List Json)) : Bool := clauses.any fun list => !list.isEmpty

/-- A call with a contract for the main project is refused before anything is written. -/
def admitCall [UnicodeTables] (params : InjectAllAnnotationsParams) :
    Except String (String × Expansion) := do
  let target ← injectionTarget params
  let expanded ← expandTaggedAnnotations params
  let carriesContract := isNonempty expanded.params.proposedRequires ||
    isNonempty expanded.params.proposedEnsures
  if !isSandbox target && carriesContract then
    .error ("requires and ensures cannot be injected into the main project: a function " ++
      "contract is a reviewed, version-controlled asset. Try the clause in a " ++
      "sandbox with create_sandbox, and have a human write the one that works " ++
      "into the C source. Invariants, asserts, assigns, ghost code and lemmas " ++
      "are unaffected.")
  else .ok (target, expanded)

/-- The statements of the loops are found again on the main project before the plan is built. -/
def injectAllPlan (remapLoopSids : List Json → List Json) (target : String)
    (params : InjectAllAnnotationsParams) : Plan :=
  buildInjectionPlan (if isSandbox target then params
    else { params with proposedLoopAnnots := params.proposedLoopAnnots.map remapLoopSids })

/-- Each entry of this kind is a clause entry, or it declares a behavior. -/
inductive AnnotationKind where
  | global | behavior | requires | ensures | assigns | assert | loop
  | terminates | exits | decreases | completeBehaviors | disjointBehaviors
  deriving DecidableEq, Repr

namespace AnnotationKind

def all : List AnnotationKind :=
  [.global, .behavior, .requires, .ensures, .assigns, .assert, .loop, .terminates, .exits,
    .decreases, .completeBehaviors, .disjointBehaviors]

def tag : AnnotationKind → String
  | .global => "global"
  | .behavior => "behavior"
  | .requires => "requires"
  | .ensures => "ensures"
  | .assigns => "assigns"
  | .assert => "assert"
  | .loop => "loop"
  | .terminates => "terminates"
  | .exits => "exits"
  | .decreases => "decreases"
  | .completeBehaviors => "complete_behaviors"
  | .disjointBehaviors => "disjoint_behaviors"

def field : AnnotationKind → String
  | .global => "proposed_globals"
  | .behavior => "proposed_behaviors"
  | .requires => "proposed_requires"
  | .ensures => "proposed_ensures"
  | .assigns => "proposed_assigns"
  | .assert => "proposed_asserts"
  | .loop => "proposed_loop_annots"
  | .terminates => "proposed_terminates"
  | .exits => "proposed_exits"
  | .decreases => "proposed_decreases"
  | .completeBehaviors => "proposed_complete_behaviors"
  | .disjointBehaviors => "proposed_disjoint_behaviors"

/-- Some clauses have one slot. -/
def isSingle : AnnotationKind → Bool
  | .terminates | .exits | .decreases => true
  | _ => false

/-- These are the values in the field of the kind. -/
def values (params : InjectAllAnnotationsParams) : AnnotationKind → List Json
  | .global => params.proposedGlobals.getD []
  | .behavior => params.proposedBehaviors.getD []
  | .requires => params.proposedRequires.getD []
  | .ensures => params.proposedEnsures.getD []
  | .assigns => params.proposedAssigns.getD []
  | .assert => params.proposedAsserts.getD []
  | .loop => params.proposedLoopAnnots.getD []
  | .terminates => params.proposedTerminates.toList
  | .exits => params.proposedExits.toList
  | .decreases => params.proposedDecreases.toList
  | .completeBehaviors => params.proposedCompleteBehaviors.getD []
  | .disjointBehaviors => params.proposedDisjointBehaviors.getD []

/-- A slot needs no position. -/
def path (kind : AnnotationKind) (position : Nat) : String :=
  if kind.isSingle then kind.field else indexed kind.field position

def ofTag (tag : String) : Option AnnotationKind := all.find? fun kind => kind.tag == tag

end AnnotationKind

def kindOf (entry : Json) : Option String :=
  (entry.asObject.bind fun fields => fields.lookup "kind").bind Json.asStr

/-- A ghost entry goes to no field. -/
def clauseKind (entry : Json) : Option AnnotationKind :=
  (kindOf entry).bind fun tag => if ghostKinds.contains tag then none else AnnotationKind.ofTag tag

/-- The path of the value that the entry adds is recorded with the entry. -/
def traceEntry [UnicodeTables] (state : Expansion × HashMap Nat) (entry : Json × Nat) :
    Except String (Expansion × HashMap Nat) := do
  let expanded ← expandEntry state.1 entry
  .ok (expanded, match clauseKind entry.1 with
    | some kind => state.2.insert (kind.path (kind.values state.1.params).length) entry.2
    | none => state.2)

/-- The call is expanded with the origin of each value. -/
def expandWithOrigin [UnicodeTables] (params : InjectAllAnnotationsParams) :
    Except String (Expansion × HashMap Nat) :=
  ((params.annotations.getD []).zipIdx).foldlM traceEntry
    (⟨{ params with annotations := none }, []⟩, ∅)

/-- The path splits at its first full stop. -/
def splitPath (path : String) : Option (String × String) :=
  let letters := path.toList
  if letters.contains '.' then
    some (String.ofList (letters.takeWhile (· != '.')),
      String.ofList (letters.dropWhile (· != '.')).tail)
  else none

/-- A path below an entry keeps what follows the full stop. -/
def relabelPath (path : String) (origin : HashMap Nat) : Option (String × Nat) :=
  match origin.lookup path with
  | some index => some (entryPath index, index)
  | none =>
      (splitPath path).bind fun split =>
        (origin.lookup split.1).map fun index => (entryPath index ++ "." ++ split.2, index)

end FramaCMcp.Annotations
