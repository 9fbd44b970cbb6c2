/-
This file turns proposed clauses into the annotation texts of an injection plan and finds the loops
of their function.
-/

import FramaCMcp.Foundation.HashMap
import FramaCMcp.Foundation.Json
import FramaCMcp.Foundation.Lines

namespace FramaCMcp.Annotations

def trim (text : String) : String := String.ofList (Line.trim text.toList)

def trimEndMatches (letters : List Char) (text : String) : String :=
  String.ofList (text.toList.reverse.dropWhile letters.contains).reverse

def isBlank (text : String) : Bool := Line.isBlank text.toList

/-- Exactly one semicolon ends the text. -/
def normalizeAcsl (text : String) : String := trim (trimEndMatches [';'] (trim text)) ++ ";"

/-- The keyword ends where the name of the declaration begins. -/
def opensBlock (body keyword : String) : Bool :=
  Text.startsWith body keyword &&
    ((body.toList.drop keyword.length).head?.any
      fun letter => [' ', '\t', '\n', '\r', '\x7b'].contains letter)

/-- A braced block is complete without a semicolon. -/
def normalizeGlobalAcsl (text : String) : String :=
  let body := trimEndMatches [';', ' ', '\t', '\n', '\r'] (trim text)
  if Text.endsWith body "\x7d" && ["axiomatic", "module", "inductive"].any (opensBlock body) then
    body
  else normalizeAcsl text

/-- The keyword goes where it stands alone or before white space. -/
def stripLeadingKeyword (body keyword : String) : String :=
  let text := trim body
  let rest := text.toList.drop keyword.length
  if Text.startsWith text keyword && rest.head?.all Text.isWhitespace then
    trim (String.ofList rest)
  else text

/-- The name of each behavior leads to its assumes clauses. -/
abbrev Behaviors := HashMap (List String)

def undeclaredBehavior (name proposedPath : String) : String :=
  "behavior '" ++ name ++ "' referenced at " ++ proposedPath ++
    " but not declared in proposed_behaviors"

/-- These are the characters of a clause without its ends and its own keyword. -/
def clauseBody (keyword body : String) : String :=
  trim (trimEndMatches [';'] (stripLeadingKeyword (trim (trimEndMatches [';'] (trim body))) keyword))

def assumesClause (assumes : String) : String :=
  " assumes " ++ trim (trimEndMatches [';'] (trim assumes)) ++ ";"

/-- A clause of a behavior repeats what the behavior assumes. -/
def wrapFunspecClause (keyword body : String) (behavior : Option String) (behaviors : Behaviors)
    (proposedPath : String) : Except String String :=
  match behavior with
  | none => .ok (keyword ++ " " ++ clauseBody keyword body ++ ";")
  | some name =>
      match behaviors.lookup name with
      | none => .error (undeclaredBehavior name proposedPath)
      | some assumes => .ok ("behavior " ++ name ++ ":" ++
          String.join (assumes.map assumesClause) ++
          " " ++ keyword ++ " " ++ clauseBody keyword body ++ ";")

/-- A clause of a loop names its behavior alone. -/
def wrapLoopClause (keyword body : String) (behavior : Option String) (behaviors : Behaviors)
    (proposedPath : String) : Except String String :=
  match behavior with
  | none => .ok (keyword ++ " " ++ clauseBody keyword body ++ ";")
  | some name =>
      if (behaviors.lookup name).isNone then .error (undeclaredBehavior name proposedPath)
      else .ok ("for " ++ name ++ ": " ++ keyword ++ " " ++ clauseBody keyword body ++ ";")

def wrapAssertClause (acsl : String) : String :=
  normalizeAcsl ("assert " ++ trim (stripLeadingKeyword acsl "assert"))

structure InjectionPlanEntry where
  acslText : String
  kind : String
  derivedFrom : String
  stmtId : Option Int := none
  purpose : String
  userLabel : Option String := none
  deriving DecidableEq, Repr

/-- The type of a failure is read off its message. -/
structure InjectionFailure where
  proposedPath : String
  acslText : String
  framaCError : String
  deriving DecidableEq, Repr

/-- A plan collects the clauses that wrap and the failures of those that do not. -/
structure Plan where
  entries : List InjectionPlanEntry := []
  failures : List InjectionFailure := []
  deriving DecidableEq, Repr

def Plan.push (plan : Plan) (entry : InjectionPlanEntry) : Plan :=
  { plan with entries := plan.entries ++ [entry] }

def Plan.fail (plan : Plan) (failure : InjectionFailure) : Plan :=
  { plan with failures := plan.failures ++ [failure] }

def text (value : Json) (key : String) : Option String := (value.get key).bind Json.asStr

def textOr (value : Json) (key default : String) : String := (text value key).getD default

def indexed (path : String) (index : Nat) : String := path ++ "[" ++ toString index ++ "]"

/-- The text stands in a field or is the whole value. -/
def clauseText (value : Json) : String := ((text value "acsl") <|> value.asStr).getD ""

/-- A wrapped clause is planned, and any other one is a failure at its path. -/
def planWrapped (plan : Plan) (path acsl : String) (wrapped : Except String String)
    (entry : String → InjectionPlanEntry) : Plan :=
  match wrapped with
  | .ok acslText => plan.push (entry acslText)
  | .error message => plan.fail ⟨path, acsl, message⟩

def pushSingleFunspecClause (plan : Plan) (keyword path purpose : String) (value : Option Json)
    (behaviors : Behaviors) : Plan :=
  match value with
  | none => plan
  | some value =>
      if isBlank (clauseText value) then plan
      else planWrapped plan path (clauseText value)
        (wrapFunspecClause keyword (clauseText value) none behaviors path) fun acslText => {
          acslText
          kind := "spec"
          derivedFrom := path
          purpose := textOr value "purpose" purpose
          userLabel := some keyword }

/-- The names of a group that are no strings are passed over. -/
def groupNames (value : Json) : List String := (value.asArray.getD []).filterMap Json.asStr

def behaviorGroupText (keyword : String) (names : List String) : String :=
  if names = [] then keyword ++ " behaviors;"
  else keyword ++ " behaviors " ++ Text.join names ", " ++ ";"

def pushBehaviorGroup (keyword path : String) (behaviors : Behaviors) (plan : Plan)
    (group : Json × Nat) : Plan :=
  match (groupNames group.1).find? fun name => (behaviors.lookup name).isNone with
  | some missing => plan.fail ⟨indexed path group.2, "", undeclaredBehavior missing path⟩
  | none => plan.push {
      acslText := behaviorGroupText keyword (groupNames group.1)
      kind := "spec"
      derivedFrom := indexed path group.2
      purpose := keyword ++ " behavior group"
      userLabel := some (keyword ++ "_behaviors") }

def pushBehaviorGroupClauses (plan : Plan) (keyword path : String) (groups : Option (List Json))
    (behaviors : Behaviors) : Plan :=
  ((groups.getD []).zipIdx).foldl (pushBehaviorGroup keyword path behaviors) plan

def planGlobal (plan : Plan) (value : Json × Nat) : Plan :=
  if isBlank (clauseText value.1) then plan
  else plan.push {
    acslText := normalizeGlobalAcsl (clauseText value.1)
    kind := "global"
    derivedFrom := indexed "proposed_globals" value.2
    purpose := textOr value.1 "purpose" "global_acsl" }

def planGlobals (plan : Plan) (globals : Option (List Json)) : Plan :=
  ((globals.getD []).zipIdx).foldl planGlobal plan

/-- A label of its own comes before the one of its behavior. -/
def userLabel (value : Json) (behaviorLabel : String → String) (default : String) : String :=
  ((text value "user_label") <|> (text value "behavior").map behaviorLabel).getD default

def planRequire (behaviors : Behaviors) (plan : Plan) (value : Json × Nat) : Plan :=
  let acsl := textOr value.1 "acsl" ""
  let path := indexed "proposed_requires" value.2
  planWrapped plan path acsl
    (wrapFunspecClause "requires" acsl (text value.1 "behavior") behaviors path) fun acslText => {
      acslText
      kind := "spec"
      derivedFrom := path
      purpose := textOr value.1 "necessity" ""
      userLabel := some (userLabel value.1 ("beh_" ++ ·) ("Req" ++ toString value.2)) }

def planRequires (plan : Plan) (requires : Option (List Json)) (behaviors : Behaviors) : Plan :=
  ((requires.getD []).zipIdx).foldl (planRequire behaviors) plan

def planEnsure (behaviors : Behaviors) (plan : Plan) (value : Json × Nat) : Plan :=
  let acsl := textOr value.1 "acsl" ""
  let origin := textOr value.1 "from" ""
  let path := indexed "proposed_ensures" value.2
  planWrapped plan path acsl
    (wrapFunspecClause "ensures" acsl (text value.1 "behavior") behaviors path) fun acslText => {
      acslText
      kind := "spec"
      derivedFrom := path
      purpose := if origin = "" then String.ofList (acsl.toList.take 80) else origin
      userLabel := some (userLabel value.1 ("beh_" ++ ·) ("Ens" ++ toString value.2)) }

def planEnsures (plan : Plan) (ensures : Option (List Json)) (behaviors : Behaviors) : Plan :=
  ((ensures.getD []).zipIdx).foldl (planEnsure behaviors) plan

def planAssign (behaviors : Behaviors) (plan : Plan) (value : Json × Nat) : Plan :=
  let acsl := textOr value.1 "acsl" ""
  let path := indexed "proposed_assigns" value.2
  if isBlank acsl then plan
  else planWrapped plan path acsl
    (wrapFunspecClause "assigns" acsl (text value.1 "behavior") behaviors path) fun acslText => {
      acslText := normalizeAcsl acslText
      kind := "spec"
      derivedFrom := path
      purpose := "Function-level modifies clause"
      userLabel := some (userLabel value.1 (fun name => "beh_" ++ name ++ "_assigns")
        ("assigns_" ++ toString value.2)) }

def planAssigns (plan : Plan) (assigns : Option (List Json)) (behaviors : Behaviors) : Plan :=
  ((assigns.getD []).zipIdx).foldl (planAssign behaviors) plan

/-- An assertion without a statement has nowhere to go. -/
def planAssert (plan : Plan) (value : Json × Nat) : Plan :=
  let acsl := textOr value.1 "acsl" ""
  let path := indexed "proposed_asserts" value.2
  if isBlank acsl then plan
  else match (value.1.get "stmt_id").bind Json.asI64 with
    | none => plan.fail ⟨path, acsl, "proposed_asserts entry requires integer stmt_id"⟩
    | some stmtId => plan.push {
        acslText := wrapAssertClause acsl
        kind := "annot"
        derivedFrom := path
        stmtId := some stmtId
        purpose := textOr value.1 "purpose" "statement assertion"
        userLabel := some (textOr value.1 "user_label" ("Assert" ++ toString value.2)) }

def planAsserts (plan : Plan) (asserts : Option (List Json)) : Plan :=
  ((asserts.getD []).zipIdx).foldl planAssert plan

/-- Only a node of this kind has its statement read. -/
def ownLoopSid (fields : List (String × Json)) : List Int :=
  if (fields.lookup "kind").bind Json.asStr = some "loop" then
    ((fields.lookup "sid").bind Json.asI64).toList
  else []

/-- The children of a branch are read in the order of the source. -/
def branchKeys : List String := ["cond", "then_body", "else_body"]

/-- A branch puts its named children first, and any other node keeps its order. -/
def childSids (children : List (String × List Int)) : List Int :=
  if (children.lookup "then_body").isSome && (children.lookup "else_body").isSome then
    (branchKeys.flatMap fun key => (children.lookup key).getD []) ++
      ((children.filter fun child => !branchKeys.contains child.1).flatMap Prod.snd)
  else children.flatMap Prod.snd

mutual

/-- The loops of a printed function stand in the order of the source. -/
def collectLoopSids : Json → List Int
  | .obj fields => ownLoopSid fields ++ childSids (collectFields fields)
  | .arr items => collectItems items
  | _ => []

def collectItems : List Json → List Int
  | [] => []
  | item :: rest => collectLoopSids item ++ collectItems rest

def collectFields : List (String × Json) → List (String × List Int)
  | [] => []
  | (key, value) :: rest => (key, collectLoopSids value) :: collectFields rest

end

def stmtId (annot : Json) : Option Int := (annot.get "stmt_id").bind Json.asI64

/-- Ids that all name loops of the main function are kept, and other ones give way to the loops of
the main function by their places in the list. -/
def assignLoopSids (function : String) (sids : List Int) (loops : List Json) :
    Except String (List Json) :=
  if loops.all fun annot => (stmtId annot).any sids.contains then .ok loops
  else if sids.length ≠ loops.length then
    .error ("main function '" ++ function ++ "' has " ++ toString sids.length ++
      " loop(s) but proposed_loop_annots has " ++ toString loops.length ++
      "; cannot map loop sids (O3)")
  else .ok (List.zipWith (fun annot sid => annot.insert "stmt_id" (.num sid)) loops sids)

/-- Without an annotation the function is not fetched. -/
def remapLoopSidsToMain (function : String) (functionAst : Except String Json)
    (loops : Option (List Json)) : Except String (Option (List Json)) :=
  match loops with
  | none => .ok none
  | some [] => .ok (some [])
  | some (first :: rest) => functionAst.bind fun ast =>
      (assignLoopSids function (collectLoopSids ast) (first :: rest)).map some

end FramaCMcp.Annotations
