/-
This file gives the kind of a goal and the id that survives a reload, and compares the annotations
of a sandbox function with those of the main project.
-/

import FramaCMcp.Construction.Goals

namespace FramaCMcp.WpClass

open Goals

/-- The name of a generated runtime-error obligation contains one of these keywords. -/
def rteKinds : List (String × List String) :=
  [("rte_overflow", ["signed_overflow", "unsigned_overflow", "integer_overflow", "downcast"]),
    ("rte_bound", ["index_in_bound", "index_bound", "array_bound"]),
    ("rte_division", ["division_by_zero", "div_by_zero", "modulo"]),
    ("rte_pointer", ["mem_access", "initialization", "dangling", "pointer_validity"]),
    ("rte_shift", ["shift"])]

def labelPrefixes : List (List Char) :=
  [['r', 'e'], ['e', 'n'], ['a', 's'], ['l', 'i'], ['l', 'a'], ['l', 'v'], ['a', 't'], ['a', 'n']]

def isLowerHex (letter : Char) : Bool :=
  letter.isDigit || (decide ('a' ≤ letter) && decide (letter ≤ 'f'))

/-- A label ends at a word boundary or at an underscore. -/
def labelAt [UnicodeTables] (letters : List Char) : Option String :=
  if labelPrefixes.contains (letters.take 2) && (letters.drop 2).head? == some '_' &&
      ((letters.drop 3).take 8).length == 8 && ((letters.drop 3).take 8).all isLowerHex &&
      (letters.drop 11).head?.all (fun next => !UnicodeTables.wordChar next || next == '_') then
    some (String.ofList (letters.take 11))
  else none

/-- A label starts at a word boundary. -/
def findLabel [UnicodeTables] (previous : Option Char) : List Char → Option String
  | [] => none
  | head :: rest =>
      (if previous.all (fun letter => !UnicodeTables.wordChar letter) then labelAt (head :: rest)
      else none) <|> findLabel (some head) rest

/-- The order of the tests decides between two kinds. -/
def classifyWpGoal [UnicodeTables] (goal : Json) : String × Option String :=
  let name := ((goal.get "name").bind Json.asStr).getD ""
  let lower := Text.toAsciiLowercase name
  if (goalIdAfterOwner goal).any isTerminatesGoal then ("terminates", none)
  else match rteKinds.find? fun kind => kind.2.any (Text.contains lower) with
    | some kind => (kind.1, none)
    | none =>
        match findLabel none name.toList with
        | some label => ("spec", some label)
        | none =>
            if Text.contains lower "assertion" || Text.contains lower "user assert" then
              ("user_assert", none)
            else ("spec", none)

def normalizeStableGoalText : Option Json → String
  | some (.str text) => Text.join (Text.splitWhitespace text) " "
  | some value => value.render
  | none => ""

/-- A missing number is the empty text. -/
def numberText (value : Option Json) : String := ((value.bind Json.asU64).map toString).getD ""

def stableGoalSourceKey (goal : Json) : String :=
  let location := goal.get "source_location" <|> goal.get "source" <|> goal.get "loc"
  let file := (location.bind fun place => place.get "file" <|> place.get "base").bind Json.asStr
  Text.join [file.getD "", numberText (location.bind fun place => place.get "line"),
    numberText (location.bind fun place => place.get "col")] ":"

/-- Only the tail of a split obligation is kept. -/
def stableGoalPartKey (goal : Json) : String :=
  match Text.rsplitOnce ((wpGoalIdentity goal).getD "") "_part" with
  | some (_, digits) => if digits ≠ "" ∧ digits.toList.all Char.isDigit then "_part" ++ digits else ""
  | none => ""

def stableGoalNameKey (goal : Json) : String := normalizeStableGoalText (goal.get "name")

def stableGoalPredicateKey (goal : Json) : String :=
  normalizeStableGoalText
    (goal.get "predicate" <|> goal.get "descr" <|> goal.get "goal" <|> goal.get "name")

def stableGoalIdFor [Sha256] (goal : Json) (goalKind : String) (stableScope : Option String) :
    String :=
  match (goal.get "hash_label").bind Json.asStr with
  | some label => label
  | none =>
      "sg_" ++ String.ofList ((Sha256.hexJson (.obj [
        ("scope", .str (stableScope.getD (goalScopeKey goal))),
        ("goal_kind", .str goalKind),
        ("source_location", .str (stableGoalSourceKey goal)),
        ("predicate", .str (stableGoalPredicateKey goal)),
        ("name", .str (stableGoalNameKey goal)),
        ("part", .str (stableGoalPartKey goal))])).toList.take 16)

/-- Nothing is said where the plug-in did not answer. -/
def goalIsFromCache (goal : Json) : Option Bool := (goal.get "from_cache").bind Json.asBool

def enrichGoalStableId [Sha256] (goal : Json) (goalKind : String) (stableScope : Option String) :
    Json :=
  insertAbsent?
    (goal.insertAbsent "stable_goal_id" (.str (stableGoalIdFor goal goalKind stableScope)))
    "frama_c_goal_name" (goal.get "name")

end FramaCMcp.WpClass

namespace FramaCMcp.AnnotationEquivalence

/-- The underscore after a label is a part of it. -/
def labelLength (letters : List Char) : Option Nat :=
  if WpClass.labelPrefixes.contains (letters.take 2) && (letters.drop 2).head? == some '_' &&
      ((letters.drop 3).take 8).length == 8 && ((letters.drop 3).take 8).all WpClass.isLowerHex then
    some (if (letters.drop 11).head? = some '_' then 12 else 11)
  else none

/-- A label starts at a word boundary. The rest of a found one is skipped. -/
def stripFrom [UnicodeTables] (previous : Option Char) (skip : Nat) : List Char → List Char
  | [] => []
  | letter :: rest =>
      match skip with
      | skip + 1 => stripFrom (some letter) skip rest
      | 0 =>
          match (if previous.all (fun previous => !UnicodeTables.wordChar previous) then
              labelLength (letter :: rest) else none) with
          | some length => stripFrom (some letter) (length - 1) rest
          | none => letter :: stripFrom (some letter) 0 rest

def stripLabels [UnicodeTables] (letters : List Char) : List Char := stripFrom none 0 letters

def acslUnicodeOperators : List (Char × String) :=
  [('≤', "<="), ('≥', ">="), ('≡', "=="), ('≢', "!="), ('≠', "!="), ('⇔', "<==>"), ('⇒', "==>"),
    ('∧', "&&"), ('∨', "||"), ('⊕', "^^"), ('¬', "!"), ('∀', "\\forall"), ('∃', "\\exists"),
    ('ℤ', "integer"), ('ℝ', "real")]

def asciiAcslOperators (letters : List Char) : List Char :=
  letters.flatMap fun letter => ((acslUnicodeOperators.lookup letter).map String.toList).getD [letter]

/-- These are the words of an annotation without its labels, in the ASCII spelling. -/
def annotationWords [UnicodeTables] (acsl : String) : List String :=
  Text.splitWhitespace (String.ofList (asciiAcslOperators (stripLabels acsl.toList)))

def normalizeAnnotationEquivalence [UnicodeTables] (acsl : String) : String :=
  Text.join (annotationWords acsl) " "

/-- A contract has the statement number minus one. -/
def kindOf (item : Json) : String :=
  match (item.get "sid").bind Json.asI64 with
  | some (-1) => "spec"
  | some _ => "annot"
  | none => "unknown"

def acslOf (row : Json) : Option String := (row.get "acsl").bind Json.asStr

def rowsOf (value : Json) (key : String) : List Json :=
  ((((value.get "result").getD value).get key).bind Json.asArray).getD []

def canonicalExtractedAnnotations [UnicodeTables] (value : Json) : List String :=
  let globals := (rowsOf value "globals").filterMap fun global =>
    (acslOf global).map fun acsl => "global:" ++ normalizeAnnotationEquivalence acsl
  let items := (rowsOf value "annotations").filterMap fun item =>
    (acslOf item).map fun acsl => kindOf item ++ ":" ++ normalizeAnnotationEquivalence acsl
  StableSort.sortByKey id (globals ++ items)

end FramaCMcp.AnnotationEquivalence
