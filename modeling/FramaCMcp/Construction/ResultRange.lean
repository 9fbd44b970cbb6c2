/-
This file reads the range of a result off the postconditions of a contract.
-/

import FramaCMcp.Construction.WpClass
import FramaCMcp.Foundation.OrderedMap
import FramaCMcp.Foundation.Utf8

namespace FramaCMcp.ResultRange

/-- A bound leaves 64 bits, a slice cuts a letter, or a loop does not end. -/
inductive Fault where
  | overflow
  | slice
  | endless
  deriving DecidableEq, Repr

def sliced (part : Option Line) : Except Fault Line :=
  match part with
  | some part => .ok part
  | none => .error .slice

section Literals

/-- A number has decimal digits after at most one sign. -/
def parseI64 (text : Line) : Option Int :=
  let digits := if text.head? = some '-' ∨ text.head? = some '+' then text.drop 1 else text
  let number : Int := digits.foldl (fun number digit => 10 * number + (digit.toNat - 48)) 0
  let value := if text.head? = some '-' then -number else number
  if digits ≠ [] ∧ digits.all Char.isDigit ∧ -2 ^ 63 ≤ value ∧ value < 2 ^ 63 then some value
  else none

/-- The letter before a literal belongs to no operand that the literal continues. -/
def endsOperand (letter : Char) : Bool :=
  letter.isAlphanum || letter == '_' || letter == ')' || letter == ']' ||
    ['+', '-', '*', '/', '%'].contains letter

def literalStandsAlone (head : Line) (start : Nat) : Except Fault Bool := do
  let before := Line.trimEnd (← sliced (Utf8.takeTo head start))
  return before.getLast?.all fun letter => !endsOperand letter

/-- This is the offset of the last letter that is no digit. -/
def rfindOther (head : Line) : Option Nat :=
  let digits := head.reverse.takeWhile Char.isDigit
  if digits.length = head.length then none
  else some (Utf8.size (head.take (head.length - digits.length - 1)))

/-- A minus right before the digits belongs to them, unless an operand stands before it. -/
def literalStart (head : Line) : Except Fault Nat :=
  match rfindOther head with
  | none => .ok 0
  | some offset => do
      let here ← sliced (Utf8.dropTo head offset)
      let lead ← sliced (Utf8.takeTo head offset)
      if here.head? = some '-' ∧
          (lead.getLast?.all fun letter => !letter.isAlphanum && letter != ')') = true then
        return offset
      else return offset + (here.head?.map Char.utf8Size).getD 1

def intLiteralBefore (text : Line) (offset : Nat) : Except Fault (Option Int) := do
  let head := Line.trimEnd (← sliced (Utf8.takeTo text offset))
  let start ← literalStart head
  if ← literalStandsAlone head start then
    return parseI64 (← sliced (Utf8.dropTo head start))
  else return none

/-- These are the digits at the start with at most one minus before them. -/
def leadingDigits : Line → Line
  | '-' :: rest => '-' :: rest.takeWhile Char.isDigit
  | tail => tail.takeWhile Char.isDigit

def intLiteralAfter (text : Line) (offset : Nat) : Except Fault (Option Int) := do
  let tail := Line.trimStart (← sliced (Utf8.dropTo text offset))
  return parseI64 (← sliced (Utf8.takeTo tail (Utf8.size (leadingDigits tail))))

end Literals

def resultWord : Line := "\\result".toList

/-- The body gets the offsets around each occurrence of the word. -/
def eachResult {State : Type} (text : Line) (body : Nat → Nat → State → Except Fault State) :
    Nat → Nat → State → Except Fault State
  | 0, _, _ => .error .endless
  | fuel + 1, start, state => do
      let rest ← sliced (Utf8.dropTo text start)
      match Utf8.find resultWord rest with
      | none => return state
      | some place =>
          let stop := start + place + Utf8.size resultWord
          eachResult text body fuel stop (← body (start + place) stop state)

section Range

/-- A literal on the left of the operator bounds the result from below, or from above. -/
structure Comparison where
  operator : Line
  strictBy : Int
  leftIsLow : Bool
  deriving DecidableEq

def comparisons : List Comparison :=
  [⟨['<', '='], 0, true⟩, ⟨['<'], 1, true⟩, ⟨['>', '='], 0, false⟩, ⟨['>'], 1, false⟩]

structure Bounds where
  low : Option Int := none
  high : Option Int := none
  deriving DecidableEq

def checked (value : Int) : Except Fault Int :=
  if -2 ^ 63 ≤ value ∧ value < 2 ^ 63 then .ok value else .error .overflow

/-- A lower bound only rises, and an upper bound only falls. -/
def tighten (bounds : Bounds) (literal strictBy : Int) (isLow : Bool) : Except Fault Bounds := do
  let value ← checked (if isLow then literal + strictBy else literal - strictBy)
  if isLow then return { bounds with low := some (bounds.low.elim value (max · value)) }
  else return { bounds with high := some (bounds.high.elim value (min · value)) }

def tightenAny (bounds : Bounds) (literal : Option Int) (strictBy : Int) (isLow : Bool) :
    Except Fault Bounds :=
  match literal with
  | some literal => tighten bounds literal strictBy isLow
  | none => .ok bounds

/-- A literal is read only next to its operator. -/
def readIf (found : Bool) (read : Except Fault (Option Int)) : Except Fault (Option Int) :=
  if found then read else .ok none

/-- Behind an operator of one letter the second byte is the second letter. -/
def compareAt (text : Line) (place stop : Nat) (bounds : Bounds) (comparison : Comparison) :
    Except Fault Bounds := do
  let lhs := Line.trimEnd (← sliced (Utf8.takeTo text place))
  let behind ← sliced (Utf8.dropTo text stop)
  let rhs := Line.trimStart behind
  let rhsAt := stop + (Utf8.size behind - Utf8.size rhs)
  let length := Utf8.size comparison.operator
  let left ← readIf (comparison.operator.isSuffixOf lhs)
    (intLiteralBefore text (Utf8.size lhs - length))
  let bounds ← tightenAny bounds left comparison.strictBy comparison.leftIsLow
  let strictPrefixOfLax := length == 1 && (rhs.drop 1).head? == some '='
  let right ← readIf (comparison.operator.isPrefixOf rhs && !strictPrefixOfLax)
    (intLiteralAfter text (rhsAt + length))
  tightenAny bounds right comparison.strictBy !comparison.leftIsLow

def scanRange (texts : List Line) : Except Fault Bounds :=
  texts.foldlM (fun bounds text =>
    eachResult text (fun place stop bounds => comparisons.foldlM (compareAt text place stop) bounds)
      (text.length + 1) 0 bounds) {}

def resultRange (texts : List Line) : Except Fault (Option (Int × Int)) := do
  let bounds ← scanRange texts
  match bounds.low, bounds.high with
  | some low, some high => return if low ≤ high then some (low, high) else none
  | _, _ => return none

end Range

section Determined

def equalAt (text : Line) (place stop : Nat) (values : OrderedSet Int) :
    Except Fault (OrderedSet Int) := do
  let behind ← sliced (Utf8.dropTo text stop)
  let rhs := Line.trimStart behind
  let right ← readIf (['=', '='].isPrefixOf rhs && (rhs.drop 2).head? != some '>')
    (intLiteralAfter text (stop + (Utf8.size behind - Utf8.size rhs) + 2))
  let lhs := Line.trimEnd (← sliced (Utf8.takeTo text place))
  let left ← readIf (['=', '='].isSuffixOf lhs) (intLiteralBefore text (Utf8.size lhs - 2))
  return (values.addAll right.toList).addAll left.toList

/-- Only a text with an equivalence counts. -/
def resultValuesDetermined (texts : List Line) : Except Fault (OrderedSet Int) :=
  texts.foldlM (fun values text =>
    if (Utf8.find "<==>".toList text).isSome then
      eachResult text (equalAt text) (text.length + 1) 0 values
    else .ok values) OrderedMap.empty

end Determined

section Contracts

def isLabelLetter (letter : Char) : Bool := letter.isAlphanum || letter == '_'

def asciiLetter (letter : Char) : Line :=
  match AnnotationEquivalence.acslUnicodeOperators.lookup letter with
  | some ascii => ' ' :: ascii.toList ++ [' ']
  | none => if Text.isWhitespace letter then [' '] else [letter]

/-- A label is an identifier before the first colon. -/
def acslNormalize (text : Line) : Except Fault Line := do
  let body ←
    match Utf8.find [':'] text with
    | some offset => do
        let label ← sliced (Utf8.takeTo text offset)
        if label.all isLabelLetter ∧ label ≠ [] then sliced (Utf8.dropTo text (offset + 1))
        else .ok text
    | none => .ok text
  return [' '].intercalate (Line.words (body.flatMap asciiLetter))

/-- The clauses of a behavior and the other kinds of exits are conditional. -/
def unconditionalPostcondition (entry : Json) : Bool :=
  (((entry.get "kind").bind Json.asStr).all fun kind => kind == "ensures") &&
    ((entry.get "behavior").bind Json.asStr).all fun behavior => behavior == "default!"

def predicateText (entry : Json) : Option String :=
  ((entry.get "predicate").bind fun predicate => predicate.get "text").bind Json.asStr

/-- A context without a filled contract has no texts. -/
def ensuresTexts (context : Json) : Except Fault (List Line) :=
  match (context.get "function").bind fun function => function.get "contract" with
  | none => .ok []
  | some contract =>
      if (contract.get "empty").bind Json.asBool = some true then .ok []
      else
        let entries := ((contract.get "ensures").bind Json.asArray).getD []
        ((entries.filter unconditionalPostcondition).filterMap predicateText).mapM fun text =>
          acslNormalize text.toList

end Contracts

section Findings

def maxEnumerable : Int := 8

def commaList (values : List Int) : String := Text.join (values.map fun value => toString value) ", "

def finding (function : String) (low high : Int) (undetermined determined : List Int) : Json :=
  .obj [("id", .str ("result-unconstrained:" ++ function)), ("severity", .str "medium"),
    ("category", .str "result_unconstrained"), ("function", .str function),
    ("result_range", .str (toString low ++ ".." ++ toString high)),
    ("undetermined_results", .str (commaList undetermined)),
    ("message", .str (function ++ " bounds its result to " ++ toString low ++ ".." ++
      toString high ++ " but never says which input yields " ++ commaList undetermined ++
      ", so proving it does not pin down what it returns.")),
    ("suggested_fix", .str ("Characterize the remaining results, one ensures per value in the " ++
      "form \\result == V <==> <condition on the parameters>.")),
    ("evidence", .arr [.obj [("field", .str "result_values_determined"),
      ("value", .str (commaList determined))]])]

/-- The answer comes with the values that were enumerated for it. -/
structure Lint where
  findings : List Json := []
  enumerated : List Int := []

def enumerate (low high : Int) : List Int :=
  (List.range (high - low + 1).toNat).map fun step : Nat => low + (step : Int)

/-- The width of the range takes two checked operations. -/
def width (low high : Int) : Except Fault Int := do
  checked ((← checked (high - low)) + 1)

def resultUnconstrainedLint (function : String) (context : Json) : Except Fault Lint := do
  let texts ← ensuresTexts context
  if texts.isEmpty then return {}
  match ← resultRange texts with
  | none => return {}
  | some (low, high) =>
      if maxEnumerable < (← width low high) then return {}
      let determined ← resultValuesDetermined texts
      let undetermined := (enumerate low high).filter fun value => !determined.contains value
      if undetermined.length < 2 then return { enumerated := enumerate low high }
      return { findings := [finding function low high undetermined determined.keys]
               enumerated := enumerate low high }

end Findings

end FramaCMcp.ResultRange
