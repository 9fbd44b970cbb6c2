/-
This file splits the report that the prover prints into its goals.
-/

import FramaCMcp.Foundation.Json
import FramaCMcp.Foundation.Lines

namespace FramaCMcp.WpPrint

/-- A carriage return before the end of a line belongs to the end. -/
def stripReturn (line : Line) : Line := if line.getLast? = some '\r' then line.dropLast else line

/-- The text behind the last line feed is a line only where it is not empty. -/
def linesFrom (current : Line) : Line → List Line
  | [] => if current = [] then [] else [current]
  | letter :: rest =>
      if letter = '\n' then stripReturn current :: linesFrom [] rest
      else linesFrom (current ++ [letter]) rest

def lines (text : String) : List Line := linesFrom [] text.toList

def stripLead (line : Line) (lead : String) : Option Line :=
  if Line.startsWith line lead then some (line.drop lead.toList.length) else none

def trimColons (line : Line) : Line := (line.reverse.dropWhile (· == ':')).reverse

/-- This is the part before the first occurrence. -/
def beforeText (line : Line) (needle : String) : Line :=
  match Line.find line needle with
  | some offset => line.take offset
  | none => line

/-- A block has its function, its title and the lines of its body. -/
structure Block where
  function : Line
  title : Line
  body : List Line

/-- A title is pending until its colon comes. -/
structure Scan where
  blocks : List Block := []
  function : Line := []
  current : Option Block := none
  pending : Option (Line × Line) := none

/-- A pending title opens a block, and the open block is done. -/
def Scan.flush (scan : Scan) : Scan :=
  let current : Option Block := match scan.pending with
    | some (function, title) => some { function := function, title := title, body := [] }
    | none => scan.current
  { scan with
    blocks := scan.blocks ++ current.toList
    current := none
    pending := none }

/-- The title ends at a colon, and an empty line adds nothing to it. -/
def extendTitle (title trimmed : Line) : Line × Bool :=
  if trimmed = [':'] then (title, true)
  else if trimmed = [] then (title, false)
  else (title ++ [' '] ++ Line.trim (trimColons trimmed), trimmed.getLast? == some ':')

/-- A colon alone and a rule of dashes separate. The test holds of an empty line too. -/
def isSeparator (trimmed : Line) : Bool := trimmed == [':'] || trimmed.all (· == '-')

def Scan.step (scan : Scan) (line : Line) : Scan :=
  let trimmed := Line.trim line
  match stripLead trimmed "Function " with
  | some rest =>
      { scan.flush with function := Line.trim (beforeText rest " with behavior ") }
  | none =>
      match stripLead trimmed "Goal " with
      | some rest =>
          let title := Line.trim (trimColons rest)
          if trimmed.getLast? = some ':' then
            { scan.flush with
              current := some { function := scan.function, title := title, body := [] } }
          else { scan.flush with pending := some (scan.function, title) }
      | none =>
          match scan.pending with
          | some (function, title) =>
              let extended := extendTitle title trimmed
              if extended.2 then
                { scan with
                  pending := none
                  current := some { function := function, title := extended.1, body := [] } }
              else { scan with pending := some (function, extended.1) }
          | none =>
              if isSeparator trimmed then scan
              else
                { scan with
                  current := scan.current.map fun block =>
                    { block with body := block.body ++ [line] } }

/-- A title that is pending at the end takes the body that is open. -/
def Scan.finish (scan : Scan) : List Block :=
  let current : Option Block := match scan.pending with
    | some (function, title) =>
        some
          { function := function
            title := title
            body := (scan.current.map Block.body).getD [] }
    | none => scan.current
  scan.blocks ++ current.toList

/-- The kind is read from the first of these words. -/
def wpPrintKind (title : Line) : String :=
  let text := String.ofList (title.map Char.toLower)
  if Text.contains text "pre-condition" then "requires"
  else if Text.contains text "post-condition" then "ensures"
  else if Text.contains text "assertion" then "assert"
  else if Text.contains text "loop assigns" then "loop_assigns"
  else if Text.contains text "assigns" then "assigns"
  else if Text.contains text "invariant" then "loop_invariant"
  else if Text.contains text "variant" then "loop_variant"
  else if Text.contains text "complete behaviors" || Text.contains text "disjoint behaviors" then
    "behavior"
  else if Text.contains text "termination-condition" then "termination"
  else if Text.contains text "exit-condition" then "exit"
  else "unknown"

/-- A number of the unsigned 64-bit range is read. -/
def parseDigits (digits : Line) : Option Nat :=
  let value := digits.foldl (fun value digit => 10 * value + (digit.toNat - '0'.toNat)) 0
  if digits ≠ [] ∧ value < 2 ^ 64 then some value else none

/-- Each pass goes on behind what it has found. -/
def collectAfter (needle : String) : Nat → Line → List Nat → List Nat × Line
  | 0, rest, found => (found, rest)
  | steps + 1, rest, found =>
      match Line.find rest needle with
      | none => (found, rest)
      | some start =>
          let after := rest.drop (start + needle.toList.length)
          collectAfter needle steps after (found ++ (parseDigits (after.takeWhile Char.isDigit)).toList)

def wpPrintMatchLine (title : Line) : Option Nat :=
  let first := collectAfter "line " (title.length + 1) title []
  (collectAfter "lines " (title.length + 1) first.2 first.1).1.getLast?

def sectionLabels : List String :=
  ["Heap", "Pre-condition", "Invariant", "Then", "Else", "Residual"]

def wpPrintSection (line : Line) : Option Json :=
  let trimmed := Line.trim line
  sectionLabels.findSome? fun label =>
    if trimmed = ("(* " ++ label ++ " *)").toList ∨ trimmed = (label ++ " \x7b").toList then
      some (.obj [("label", .str label), ("text", .str "")])
    else (stripLead trimmed (label ++ ":")).map fun text =>
      .obj [("label", .str label), ("text", .str (String.ofList (Line.trim text)))]

/-- The body is read up to the verdict of a prover. -/
def reportLines (body : List Line) : List Line :=
  body.takeWhile fun line =>
    !(Line.startsWith (Line.trim line) "Prover " || Line.startsWith (Line.trim line) "[wp")

/-- The lines before the conclusion are hypotheses. -/
structure Report where
  hypotheses : List Line := []
  conclusion : List Line := []
  inConclusion : Bool := false

def Report.step (report : Report) (line : Line) : Report :=
  let trimmed := Line.trim line
  match stripLead trimmed "Prove:" with
  | some rest =>
      { report with conclusion := report.conclusion ++ [Line.trim rest], inConclusion := true }
  | none =>
      if trimmed = [] then report
      else if report.inConclusion then { report with conclusion := report.conclusion ++ [trimmed] }
      else { report with hypotheses := report.hypotheses ++ [line] }

def wpPrintBlockJson (block : Block) : Json :=
  let report := (reportLines block.body).foldl Report.step {}
  .obj [("function", .str (String.ofList block.function)),
    ("title", .str (String.ofList block.title)),
    ("kind", .str (wpPrintKind block.title)),
    ("source_line", ((wpPrintMatchLine block.title).map fun line => Json.num line).getD .null),
    ("hypotheses", .arr (report.hypotheses.map fun line => .str (String.ofList line))),
    ("sections", .arr (report.hypotheses.filterMap wpPrintSection)),
    ("conclusion", .str (String.ofList (Line.trim (['\n'].intercalate report.conclusion))))]

def printBlocks (text : String) : List Block := ((lines text).foldl Scan.step {}).finish

def parseWpPrintBlocks (text : String) : List Json := (printBlocks text).map wpPrintBlockJson

end FramaCMcp.WpPrint
