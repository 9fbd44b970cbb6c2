/-
This file counts the warnings in the log of the front end and reads the warnings and errors off the
output of a batch run.
-/

import FramaCMcp.Construction.WpPrint
import FramaCMcp.Foundation.OrderedMap
import FramaCMcp.Foundation.FileTree
import FramaCMcp.Foundation.Accumulation
import FramaCMcp.Foundation.Utf8

namespace FramaCMcp.ParseDiagnostics

def astDiagnosticSample : Nat := 20

def asmClobber : String := "kernel:asm:clobber"

def attrsUnknown : String := "kernel:attrs:unknown"

def attributePrefix : Line := "Ignoring unknown attribute:".toList

def astSoundnessCategories : List String := [asmClobber, attrsUnknown]

section Locations

/-- A path of the system may be no text. -/
inductive OsPath where
  | text (path : String)
  | bytes (path : List UInt8) (noText : ∀ text : String, text.toUTF8.data.toList ≠ path)

/-- A number has decimal digits after at most one plus sign. -/
def parseU64 (text : Line) : Option Nat :=
  let digits := if text.head? = some '+' then text.drop 1 else text
  let number := digits.foldl (fun number digit => 10 * number + (digit.toNat - 48)) 0
  if digits ≠ [] ∧ digits.all Char.isDigit ∧ number < 2 ^ 64 then some number else none

/-- The number stands behind the last colon. -/
def trailingNumber (source : Line) : Option (Line × Nat) :=
  (Text.findChars [':'] source.reverse).bind fun start =>
    (parseU64 (source.reverse.take start).reverse).map fun number =>
      ((source.reverse.drop (start + 1)).reverse, number)

def trimSource (source : Line) : Line := Line.trim (WpPrint.trimColons (Line.trim source))

def splitLocation (source : Line) : Line × Option Nat × Option Nat :=
  match trailingNumber source with
  | none => (source, none, none)
  | some (head, last) =>
      match trailingNumber head with
      | some (head, line) => (head, some line, some last)
      | none => (head, some last, none)

/-- A path that is no text cannot be written into the answer. -/
def joinCwd (cwd : OsPath) (path : String) : Option String :=
  if Path.isAbsolute path then some path
  else match cwd with
    | .text directory => some (Path.join directory path)
    | .bytes _ _ => none

def numberOrNull : Option Nat → Json
  | some number => .num number
  | none => .null

def logLocation (source : Line) (cwd : OsPath) : Option Json :=
  let source := trimSource source
  if source = [] then some (.obj [("unresolved", .bool true)])
  else
    let parts := splitLocation source
    (joinCwd cwd (String.ofList parts.1)).map fun path =>
      .obj [("file", .str path), ("line", numberOrNull parts.2.1),
        ("column", numberOrNull parts.2.2)]

end Locations

section Tags

def endsWithSpace (text : Line) : Bool := text.getLast?.any Text.isWhitespace

def startsWithSpace (text : Line) : Bool := text.head?.any Text.isWhitespace

/-- A cut inside a letter gives no result. The scan goes on behind the bracket that opens no tag. -/
def tagBoundsFrom (head : Line) : Nat → Nat → Option (Option (Nat × Nat))
  | 0, _ => none
  | steps + 1, start => do
      match Utf8.find ['['] (← Utf8.dropTo head start) with
      | none => some none
      | some found =>
          let opening := start + found
          match Utf8.find [']'] (← Utf8.dropTo head opening) with
          | none => some none
          | some found =>
              let close := opening + found
              let candidate ← Utf8.slice head (opening + 1) close
              let tail ← Utf8.dropTo head (close + 1)
              let before ← Utf8.takeTo head opening
              if (opening == 0 || endsWithSpace before) && (tail.isEmpty || startsWithSpace tail) &&
                  candidate.contains ':' && !candidate.any Text.isWhitespace then
                some (some (opening, close))
              else tagBoundsFrom head steps (opening + 1)

/-- These are the offsets of the brackets around the first tag. -/
def tagBounds (head : Line) : Option (Option (Nat × Nat)) := tagBoundsFrom head (head.length + 1) 0

def warningMarker : Line := "Warning:".toList

/-- The scan goes on behind a marker that has no tag before it. -/
def warningLineFieldsFrom (line : Line) : Nat → Nat → Option (Option (Line × Line))
  | 0, _ => none
  | steps + 1, start => do
      match Utf8.find warningMarker (← Utf8.dropTo line start) with
      | none => some none
      | some found =>
          let stop := start + found
          let head ← Utf8.takeTo line stop
          match ← tagBounds head with
          | none => warningLineFieldsFrom line steps (stop + 1)
          | some (opening, close) =>
              let before := trimSource (← Utf8.takeTo head opening)
              let after := trimSource (← Utf8.dropTo head (close + 1))
              let category ← Utf8.slice head (opening + 1) close
              some (some (category, if before = [] then after else before))

/-- These are the category and the location of a warning. -/
def warningLineFields (line : Line) : Option (Option (Line × Line)) :=
  warningLineFieldsFrom line (line.length + 1) 0

end Tags

section Scan

/-- Each category has its sites, and each attribute name has its first location. -/
structure Scan where
  categories : OrderedMap String (Sample Json) := .empty
  attributes : OrderedMap String Line := .empty
  pendingAttribute : Option Line := none

/-- An absent category starts with no sites. -/
def record (categories : OrderedMap String (Sample Json)) (category : String)
    (site : Option Json) : Option (OrderedMap String (Sample Json)) :=
  (((categories.lookup category).getD {}).add astDiagnosticSample site).map fun entry =>
    categories.insert category entry

/-- The first location of a name stays. -/
def Scan.nameAttribute (scan : Scan) (name source : Line) : Scan :=
  let name := String.ofList (Line.trim name)
  { scan with
    attributes := if (scan.attributes.lookup name).isSome then scan.attributes
      else scan.attributes.insert name source
    pendingAttribute := none }

def readLine (cwd : OsPath) (scan : Scan) (line : Line) : Option Scan := do
  match ← warningLineFields line with
  | some (category, source) =>
      if String.ofList category = attrsUnknown then
        match Utf8.splitOnce attributePrefix line with
        | some (_, name) => some (scan.nameAttribute name source)
        | none => some { scan with pendingAttribute := some source }
      else
        let categories ← record scan.categories (String.ofList category) (logLocation source cwd)
        some { scan with categories := categories, pendingAttribute := none }
  | none =>
      match Utf8.splitOnce attributePrefix line with
      | some (_, name) => some (scan.nameAttribute name (scan.pendingAttribute.getD []))
      | none => some scan

def attributeSite (cwd : OsPath) (entry : String × Line) : Option Json :=
  (logLocation entry.2 cwd).map fun location =>
    .obj [("attribute", .str entry.1), ("location", location)]

/-- A category that is not there gets a count of zero. -/
def orDefault (categories : OrderedMap String (Sample Json)) (category : String) :
    OrderedMap String (Sample Json) :=
  categories.modify category {} id

/-- The subtraction panics where more sites are kept than counted. -/
def categoryReport (entry : String × Sample Json) : Option (String × Json) :=
  if entry.2.kept.length ≤ entry.2.count then
    some (entry.1, .obj [("count", .num entry.2.count),
      ("count_unit", .str (if entry.1 = attrsUnknown then "distinct_attribute_names" else "sites")),
      ("locations_omitted", .num ((entry.2.count - entry.2.kept.length : Nat) : Int)),
      ("locations", .arr entry.2.kept)])
  else none

def astParseDiagnostics (log : List UInt8) (stop : Nat) (cwd : OsPath) : Option Json := do
  let text := Utf8.lossy (log.take (min stop log.length))
  let scan ← (WpPrint.linesFrom [] text).foldlM (readLine cwd) {}
  let categories ← scan.attributes.entries.foldlM (fun categories entry =>
    record categories attrsUnknown (attributeSite cwd entry)) scan.categories
  let reports ← (astSoundnessCategories.foldl orDefault categories).entries.mapM categoryReport
  some (.obj [("categories", .obj reports)])

end Scan

end FramaCMcp.ParseDiagnostics

namespace FramaCMcp.BatchMessages

open ParseDiagnostics

section Headers

def errorMarker : Line := "Error:".toList

/-- The tag stands in brackets at the start of the line. -/
def splitTag (line : Line) : Option (Line × Line) :=
  (WpPrint.stripLead line "[").bind (Utf8.splitOnce [']'])

def splitCategory (tag : Line) : Line × Option Line :=
  match Utf8.splitOnce [':'] tag with
  | some (plugin, category) => (plugin, some category)
  | none => (tag, none)

/-- The text is cut before the first marker. -/
def cutAt (marker rest : Line) : Option (Line × Line) :=
  (Utf8.splitOnce marker rest).map fun parts => (parts.1, marker ++ parts.2)

/-- A warning is looked for before an error. -/
def cutAtKind (rest : Line) : Option (Line × Line) :=
  (cutAt warningMarker rest).or (cutAt errorMarker rest)

/-- The marker is taken off as often as it stands there. -/
def trimStartMatches (marker : Line) : Nat → Line → Line
  | 0, text => text
  | steps + 1, text =>
      if marker.isPrefixOf text then trimStartMatches marker steps (text.drop marker.length)
      else text

def kindAndHead (marked : Line) : String × Line :=
  match WpPrint.stripLead marked "Warning:" with
  | some head => ("WARNING", head)
  | none => ("ERROR", trimStartMatches errorMarker marked.length marked)

structure Header where
  tag : Line
  location : Line
  kind : String
  head : Line

def readHeader (line : Line) : Option Header :=
  (splitTag line).bind fun tagged =>
    (cutAtKind (Line.trimStart tagged.2)).map fun parts =>
      { tag := tagged.1
        location := WpPrint.trimColons (Line.trim parts.1)
        kind := (kindAndHead parts.2).1
        head := (kindAndHead parts.2).2 }

end Headers

section Messages

structure Message where
  plugin : Line
  kind : String
  message : Line
  category : Option Line
  source : Option (Line × Nat)

/-- The line is indented and opens no tag. -/
def continues (line : Line) : Bool :=
  Line.startsWith line " " && !Line.startsWith (Line.trimStart line) "["

def extendBody (body next : Line) : Line :=
  (if body = [] then body else body ++ [' ']) ++ Line.trim next

def bodyOf (head : Line) (wrapped : List Line) : Line := wrapped.foldl extendBody (Line.trim head)

/-- A header without a text gives no message. -/
def Header.message (header : Header) (wrapped : List Line) : Option Message :=
  let body := bodyOf header.head wrapped
  if body = [] then none
  else
    let parts := splitCategory header.tag
    some
      { plugin := parts.1
        kind := header.kind
        message := body
        category := parts.2
        source := trailingNumber header.location }

/-- Each message has the number of its header. The lines of its body are passed over. -/
def messagesFrom (index : Nat) : List Line → List (Nat × Message)
  | [] => []
  | line :: rest =>
      match readHeader line with
      | none => messagesFrom (index + 1) rest
      | some header =>
          let wrapped := rest.takeWhile continues
          ((header.message wrapped).map fun message => (index, message)).toList ++
            messagesFrom (index + 1 + wrapped.length) (rest.dropWhile continues)
termination_by lines => lines.length
decreasing_by
  · exact Nat.lt_succ_self _
  · exact Nat.lt_succ_of_le (List.dropWhile_suffix _).length_le

def numberedMessages (text : String) : List (Nat × Message) := messagesFrom 0 (WpPrint.lines text)

end Messages

end FramaCMcp.BatchMessages
