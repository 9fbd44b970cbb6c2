/-
This file sends an injection plan to the plug-in and passes over the clauses that are there already.
-/

import FramaCMcp.Construction.InjectionPlan
import FramaCMcp.Construction.WpClass

namespace FramaCMcp.Annotations

/-- The clauses of a loop and the assertions stand at a statement. -/
def statementKeywords : List String := ["loop invariant", "loop assigns", "loop variant", "assert"]

def acslKindToAstKind [CaseTables] (acsl : String) : String :=
  if statementKeywords.any (Text.startsWith (Text.toLowercase (trim acsl))) then "annot" else "spec"

/-- Eight digits are drawn for each label. -/
structure RandomHex where
  digits : List Char
  eight : digits.length = 8
  hex : digits.all WpClass.isLowerHex = true

def labelPrefixOf (kind : String) : String :=
  match kind with
  | "requires" => "re"
  | "ensures" => "en"
  | "assigns" => "as"
  | "loop_invariant" => "li"
  | "loop_assigns" => "la"
  | "loop_variant" => "lv"
  | "assert" => "at"
  | _ => "an"

def generateHashLabel (kind : String) (drawn : RandomHex) : String :=
  labelPrefixOf kind ++ "_" ++ String.ofList drawn.digits

def fullLabel (hashLabel : String) (userLabel : Option String) : String :=
  match userLabel with
  | some userLabel => hashLabel ++ "_" ++ userLabel
  | none => hashLabel

/-- These prefixes are taken off before two texts are compared. -/
def comparedPrefixes : List (List Char) :=
  [['r', 'e'], ['e', 'n'], ['l', 'i'], ['l', 'a'], ['l', 'v'], ['a', 't'], ['a', 'n']]

/-- This is the group `(?:,[^,]*)?` of the pattern. -/
def itemLength : List Char → Nat
  | ',' :: item => 1 + (item.takeWhile (· != ',')).length
  | _ => 0

/-- This is the pattern `,\s*(?:re|en|li|la|lv|at|an)_[0-9a-f]{8}(?:,[^,]*)?`. -/
def labelMatchLength (_ : Option Char) : List Char → Nat
  | ',' :: rest =>
      let blanks := (rest.takeWhile Text.isWhitespace).length
      let label := rest.drop blanks
      let digits := (label.drop 3).take 8
      if comparedPrefixes.contains (label.take 2) && (label.drop 2).head? == some '_' &&
          digits.length == 8 && digits.all WpClass.isLowerHex then
        1 + blanks + 11 + itemLength (label.drop 11)
      else 0
  | _ => 0

/-- What stands before the first semicolon is compared. -/
def normalizeForComparison (acsl : String) : String :=
  trim (String.ofList
    ((Replacement.erase labelMatchLength acsl.toList).takeWhile (· != ';')))

/-- These are the annotations of the target. A failed fetch gives none. -/
def existingAnnotationTexts (props : Except String Json) : List String :=
  match props with
  | .error _ => []
  | .ok props => ((props.asArray.getD []).filterMap fun row => text row "acsl").map
      normalizeForComparison

inductive FailureType where
  | syntaxError | proposedSelfReferential | proposedLocalVarInFunspec | proposedError
  deriving DecidableEq, Repr

/-- The more specific patterns come first. -/
def classifyFailure [CaseTables] (error : String) : FailureType :=
  let lower := Text.toLowercase error
  if Text.contains lower "function local" then .proposedLocalVarInFunspec
  else if ["unbound", "no such", "not found", "unknown identifier", "undeclared type",
      "reference to unknown", "cannot find"].any (Text.contains lower) then
    .proposedSelfReferential
  else if ["syntax error", "parse error", "unexpected", "lexeme"].any (Text.contains lower) then
    .syntaxError
  else .proposedError

structure TypedFailure extends InjectionFailure where
  failureType : FailureType
  deriving DecidableEq, Repr

structure InjectedAnnotationEntry where
  hashLabel : String
  userLabel : Option String
  kind : String
  acsl : String
  stmtId : Option Int
  derivedFrom : String
  source : String
  purpose : String
  deriving DecidableEq, Repr

structure AddAnnotationParams where
  function : String
  kind : String
  acsl : String
  stmt : Option Int
  userLabel : Option String
  deriving DecidableEq, Repr

inductive PluginRequest where
  | addGlobalAcsl (acsl : String)
  | addAnnot (function kind acsl label : String) (stmt : Option Int)
  deriving DecidableEq, Repr

/-- These are the answers that the entry at each place of the plan meets. -/
structure Environment where
  resolveClient : Nat → Except String String
  randomHex : Nat → RandomHex
  exec : Nat → Except String Json

structure InjectionRun where
  successful : List InjectedAnnotationEntry := []
  failures : List TypedFailure := []
  requests : List PluginRequest := []

/-- This is what a run reports about an entry that is in place. -/
def InjectionPlanEntry.report (entry : InjectionPlanEntry) (hashLabel : String) :
    InjectedAnnotationEntry where
  hashLabel
  userLabel := entry.userLabel
  kind := entry.kind
  acsl := entry.acslText
  stmtId := entry.stmtId
  derivedFrom := entry.derivedFrom
  source := "generated"
  purpose := entry.purpose

def InjectionRun.succeed (run : InjectionRun) (entry : InjectionPlanEntry) (hashLabel : String) :
    InjectionRun :=
  { run with successful := run.successful ++ [entry.report hashLabel] }

def InjectionRun.fail (run : InjectionRun) (entry : InjectionPlanEntry) (failureType : FailureType)
    (framaCError : String) : InjectionRun :=
  { run with failures := run.failures ++ [{
      failureType
      proposedPath := entry.derivedFrom
      acslText := entry.acslText
      framaCError }] }

def InjectionRun.request (run : InjectionRun) (request : PluginRequest) : InjectionRun :=
  { run with requests := run.requests ++ [request] }

def pluginResult (reply : Json) (key : String) : Option Json :=
  (reply.get "result").bind fun result => result.get key

def parsePluginSuccess (reply : Json) : Bool :=
  ((pluginResult reply "success").bind Json.asBool).getD false

def parsePluginError (reply : Json) : Option String := (pluginResult reply "error").bind Json.asStr

section

variable [CaseTables]

/-- The clause is in place only where the reply says so. -/
def InjectionRun.receive (run : InjectionRun) (entry : InjectionPlanEntry) (usedHash : String)
    (reply : Except String Json) : InjectionRun :=
  match reply with
  | .error message => run.fail entry .proposedError message
  | .ok reply =>
      if parsePluginSuccess reply then run.succeed entry usedHash
      else
        let errorMsg := (parsePluginError reply).getD "unknown error"
        run.fail entry (classifyFailure errorMsg) errorMsg

def addParams (targetFunction : String) (entry : InjectionPlanEntry) : AddAnnotationParams where
  function := targetFunction
  kind := acslKindToAstKind entry.acslText
  acsl := entry.acslText
  stmt := entry.stmtId
  userLabel := entry.userLabel

def annotationRequest (function : String) (params : AddAnnotationParams) (hashLabel : String) :
    PluginRequest :=
  .addAnnot function params.kind params.acsl (fullLabel hashLabel params.userLabel) params.stmt

/-- An entry whose compared text exists is passed over. -/
def injectEntry (environment : Environment) (targetFunction : String) (existing : List String)
    (run : InjectionRun) (planned : InjectionPlanEntry × Nat) : InjectionRun :=
  let (entry, index) := planned
  if existing.contains (normalizeForComparison entry.acslText) then run.succeed entry "existing"
  else if entry.kind = "global" then
    (run.request (.addGlobalAcsl entry.acslText)).receive entry "global" (environment.exec index)
  else
    let params := addParams targetFunction entry
    match environment.resolveClient index with
    | .error message => run.fail entry .proposedError message
    | .ok function =>
        let hashLabel := generateHashLabel params.kind (environment.randomHex index)
        (run.request (annotationRequest function params hashLabel)).receive entry hashLabel
          (environment.exec index)

def executeInjectionPlan (environment : Environment) (targetFunction : String)
    (plan : List InjectionPlanEntry) (existing : List String) (earlyFailures : List TypedFailure) :
    InjectionRun :=
  plan.zipIdx.foldl (injectEntry environment targetFunction existing) { failures := earlyFailures }

end

end FramaCMcp.Annotations
