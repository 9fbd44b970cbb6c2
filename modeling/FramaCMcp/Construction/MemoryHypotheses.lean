/-
This file reads the memory-model hypotheses of a prover log and merges the readings of attempts.
-/

import FramaCMcp.Foundation.Json
import FramaCMcp.Foundation.StableSort
import FramaCMcp.Foundation.Lines

/-- This table holds the letters and digits of Unicode. Only its ASCII part is fixed. -/
class AlphanumericTable where
  isAlphanumeric : Char → Bool
  isAlphanumericAscii : ∀ letter : Char, letter.toNat < 128 →
    isAlphanumeric letter = letter.isAlphanum

/-- This table knows the ASCII characters only. -/
abbrev AlphanumericTable.ascii : AlphanumericTable where
  isAlphanumeric := Char.isAlphanum
  isAlphanumericAscii _ _ := rfl

namespace FramaCMcp.MemoryModel

/-- This is the name between the first pair of single quotes. -/
def quotedName (text : Line) : Option String :=
  (Text.findChars ['\''] text).bind fun opening =>
    (Text.findChars ['\''] (text.drop (opening + 1))).bind fun close =>
      if close = 0 then none
      else some (String.ofList ((text.drop (opening + 1)).take close))

/-- A block ends at the comment's closing token, at the next marker or with the text. -/
def blockStop (marker after : Line) : Nat :=
  match Text.findChars ['*', '/'] after, Text.findChars marker after with
  | some close, some next => min close next
  | some close, none => close
  | none, some next => next
  | none, none => after.length

/-- The scan goes on behind the marker where no name is found, and else behind the block. -/
def hypothesisBlocksFrom (marker : Line) : Nat → Line → List (String × Line)
  | 0, _ => []
  | steps + 1, rest =>
      match Text.findChars marker rest with
      | none => []
      | some start =>
          let after := rest.drop (start + marker.length)
          match quotedName after with
          | none => hypothesisBlocksFrom marker steps after
          | some function =>
              (function, after.take (blockStop marker after)) ::
                hypothesisBlocksFrom marker steps (after.drop (blockStop marker after))

/-- Each step of the scan uses at least one character. -/
def hypothesisBlocks (text marker : Line) : List (String × Line) :=
  hypothesisBlocksFrom marker (text.length + 1) text

def hypothesisMarker : Line := "Memory model hypotheses for function".toList

section Clauses

variable [AlphanumericTable]

/-- A keyword starts the text or stands behind a character of no identifier. -/
def keywordBoundary (text : Line) (start : Nat) : Bool :=
  start == 0 || (text.take start).getLast?.any fun previous =>
    !AlphanumericTable.isAlphanumeric previous && previous != '_'

def clauseKeywordFrom (text keyword : Line) : Nat → Nat → Option Nat
  | 0, _ => none
  | steps + 1, start =>
      (Text.findChars keyword (text.drop start)).bind fun offset =>
        if keywordBoundary text (start + offset) then some (start + offset)
        else clauseKeywordFrom text keyword steps (start + offset + keyword.length)

def clauseKeywordAt (text keyword : Line) : Option Nat :=
  clauseKeywordFrom text keyword (text.length + 1) 0

/-- White space is collapsed, and the clause starts at the first keyword. -/
def clauseOf (statement : Line) : Option String :=
  let collapsed := [' '].intercalate (Line.words statement)
  (["requires ", "ensures ", "assigns "].filterMap fun keyword =>
    clauseKeywordAt collapsed keyword.toList).min?.map fun start =>
      String.ofList (collapsed.drop start) ++ ";"

def clauseSample : Nat := 16

structure ClauseScan where
  clauses : List String := []
  seen : List String := []
  total : Nat := 0

/-- A clause counts once, and only the first ones are kept. -/
def ClauseScan.add (scan : ClauseScan) (clause : String) : ClauseScan :=
  if clause ∈ scan.seen then scan
  else
    { clauses := if scan.clauses.length < clauseSample then scan.clauses ++ [clause]
        else scan.clauses
      seen := clause :: scan.seen
      total := scan.total + 1 }

def hypothesisClauses (block : Line) : List String × Nat :=
  let scan := ((block.splitOn ';').filterMap clauseOf).foldl ClauseScan.add {}
  (scan.clauses, scan.total)

end Clauses

/-- An entry names a function, or it counts the warnings that could not be read. -/
structure MemoryHypothesis where
  function : Option String
  hypotheses : List String
  hypothesisCount : Nat
  hypothesesTruncated : Bool
  unparsedWarningCount : Option Nat
  sourceLocation : Json
  matchedBy : String

def unreadEntry (unparsed : Nat) (sourceLocation : Json) (matchedBy : String) :
    MemoryHypothesis where
  function := none
  hypotheses := []
  hypothesisCount := 0
  hypothesesTruncated := false
  unparsedWarningCount := some unparsed
  sourceLocation := sourceLocation
  matchedBy := matchedBy

def hypothesisFunctionName (entry : MemoryHypothesis) : String := entry.function.getD ""

section Collector

variable [AlphanumericTable]

def blockEntry (sourceLocation : Json) (matchedBy function : String) (block : Line) :
    MemoryHypothesis :=
  let clauses := hypothesisClauses block
  { function := some function
    hypotheses := clauses.1
    hypothesisCount := clauses.2
    hypothesesTruncated := decide (clauses.1.length < clauses.2)
    unparsedWarningCount := none
    sourceLocation := sourceLocation
    matchedBy := matchedBy }

/-- Only the first block of a function gives an entry. -/
def addBlock (sourceLocation : Json) (matchedBy : String) (found : List MemoryHypothesis)
    (block : String × Line) : List MemoryHypothesis :=
  if found.any fun entry => entry.function == some block.1 then found
  else found ++ [blockEntry sourceLocation matchedBy block.1 block.2]

structure Collection where
  found : List MemoryHypothesis := []
  unparsed : Nat := 0
  unparsedSource : Json := .null
  unparsedMatchedBy : String := "log_category"

/-- A record of the prover is read by its category or by its text. -/
def collectMessage (collection : Collection) (message : Json) : Collection :=
  if (message.get "plugin").bind Json.asStr ≠ some "wp" then collection
  else
    let text := (((message.get "message").bind Json.asStr).getD "").toList
    let byCategory := (message.get "category").bind Json.asStr == some "hypothesis"
    let blocks := hypothesisBlocks text hypothesisMarker
    if !byCategory && blocks.isEmpty then collection
    else
      let matchedBy := if byCategory then "log_category" else "message_text"
      if blocks.isEmpty then
        { collection with
          unparsed := collection.unparsed + 1
          unparsedSource := if collection.unparsed = 0 then message.index "source"
            else collection.unparsedSource
          unparsedMatchedBy := if collection.unparsed = 0 then matchedBy
            else collection.unparsedMatchedBy }
      else
        { collection with
          found := blocks.foldl (addBlock (message.index "source") matchedBy) collection.found }

def collectMemoryModelHypotheses (messages : List Json) : List MemoryHypothesis :=
  let collection := messages.foldl collectMessage {}
  let found := StableSort.sortByKey hypothesisFunctionName collection.found
  if 0 < collection.unparsed then
    found ++ [unreadEntry collection.unparsed collection.unparsedSource
      collection.unparsedMatchedBy]
  else found

def wpMemoryModelHypothesesInText (text : String) : List MemoryHypothesis :=
  collectMemoryModelHypotheses
    [.obj [("kind", .str "WARNING"), ("plugin", .str "wp"), ("message", .str text)]]

end Collector

section Merge

def unparsedOf (entries : List MemoryHypothesis) : Nat :=
  (entries.filterMap MemoryHypothesis.unparsedWarningCount).sum

def named (entry : MemoryHypothesis) : Bool := entry.function.isSome

/-- The longer entry of a function stays as a whole, and of two equal ones the earlier. -/
def placeEntry : MemoryHypothesis → List MemoryHypothesis → List MemoryHypothesis :=
  LargestRows.place MemoryHypothesis.function MemoryHypothesis.hypothesisCount

def mergeMemoryModelHypotheses (into reading : List MemoryHypothesis) : List MemoryHypothesis :=
  let unparsed := max (unparsedOf into) (unparsedOf reading)
  let merged := (reading.filter named).foldl (fun kept entry => placeEntry entry kept)
    (into.filter named)
  let sorted := StableSort.sortByKey hypothesisFunctionName merged
  if 0 < unparsed then sorted ++ [unreadEntry unparsed .null "log_category"] else sorted

def mergeAttempts (readings : List (List MemoryHypothesis)) : List MemoryHypothesis :=
  readings.foldl mergeMemoryModelHypotheses []

end Merge

end FramaCMcp.MemoryModel
