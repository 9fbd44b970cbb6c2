/-
This file runs the instrumented program and reads what its assertions reported.
-/

import FramaCMcp.Construction.ParseDiagnostics

/-- The digits of other scripts are a table. -/
class DigitTables where
  decimal : Char → Bool
  decimalAscii : ∀ letter : Char, letter.toNat < 128 → decimal letter = letter.isDigit

/-- This table knows the ASCII digits only. -/
abbrev DigitTables.ascii : DigitTables where
  decimal := Char.isDigit
  decimalAscii _ _ := rfl

namespace FramaCMcp.RuntimeCheck

def maxEAcslOutputBytes : Nat := 256 * 1024

section Violation

/-- This is the part `:(\d+): Error: (.+) failed:$` of the pattern. -/
def locationTail [DigitTables] : Line → Option (Line × Line)
  | ':' :: rest =>
      let digits := rest.takeWhile DigitTables.decimal
      let after := rest.dropWhile DigitTables.decimal
      let body := after.drop 9
      if digits ≠ [] ∧ Line.startsWith after ": Error: " ∧ Line.endsWith body " failed:" ∧
          8 < body.length then
        some (digits, body.take (body.length - 8))
      else none
  | _ => none

/-- The path takes as many letters as it can. -/
def locationCaptures [DigitTables] (line : Line) : Option (Line × Line × Line) :=
  ((List.range line.length).reverse.filter (0 < ·)).findSome? fun start =>
    (locationTail (line.drop start)).map fun parts => (line.take start, parts)

structure Scan where
  function : Option Line := none
  file : Option Line := none
  line : Option Nat := none
  kind : Option Line := none
  predicateLines : List Line := []
  valueLines : List Line := []
  inPredicate : Bool := false
  inValues : Bool := false

def trimEndDots (line : Line) : Line := (line.reverse.dropWhile (· == '.')).reverse

/-- The mark of a value is taken off as often as it stands there. -/
def trimValueMarks : Line → Line
  | '-' :: ' ' :: rest => trimValueMarks rest
  | line => line

def readViolationLine [DigitTables] (scan : Scan) (rawLine : Line) : Scan :=
  let trimmed := Line.trim rawLine
  match Utf8.splitOnce ": In function '".toList trimmed with
  | some (path, rest) =>
      { scan with
        function := if rest.getLast? = some '\'' then some rest.dropLast else none
        file := some path }
  | none =>
      match locationCaptures trimmed with
      | some (path, digits, kind) =>
          { scan with
            file := some path
            line := ParseDiagnostics.parseU64 digits
            kind := some kind
            inPredicate := false
            inValues := false }
      | none =>
          if trimmed = "The failing predicate is:".toList then
            { scan with inPredicate := true, inValues := false }
          else if trimmed = "With values at failure point:".toList then
            { scan with inPredicate := false, inValues := true }
          else if scan.inPredicate then
            if trimmed = [] then scan
            else { scan with predicateLines := scan.predicateLines ++ [trimEndDots trimmed] }
          else if scan.inValues && Line.startsWith trimmed "- " then
            { scan with valueLines := scan.valueLines ++ [trimValueMarks trimmed] }
          else scan

def textOrNull (text : Option Line) : Json :=
  (text.map fun line => .str (String.ofList line)).getD .null

def parseEAcslViolation [DigitTables] (output : Line) : Json :=
  let scan := (WpPrint.linesFrom [] output).foldl readViolationLine {}
  .obj [("function", textOrNull scan.function), ("file", textOrNull scan.file),
    ("line", (scan.line.map fun line => .num line).getD .null), ("kind", textOrNull scan.kind),
    ("predicate", .str (Text.join (scan.predicateLines.map String.ofList) "\n")),
    ("values", .arr (scan.valueLines.map fun line => .str (String.ofList line)))]

end Violation

/-- A process ends by itself, or it does not start, or the time runs out. -/
inductive Ending where
  | exited (code : Option Int) (success : Bool)
  | failed (error : String)
  | timedOut

/-- A process prints two complete streams before it ends. -/
structure Process where
  stdout : List UInt8
  stderr : List UInt8
  ending : Ending

inductive Captured where
  | ran (code : Option Int) (success : Bool) (stdout stderr : Line) (truncated : Bool)
  | noOutput (payload : Json)

def cappedLossyString (bytes : List UInt8) (maxBytes : Nat) : Line × Bool :=
  (Utf8.lossy (bytes.take maxBytes), decide (maxBytes < bytes.length))

def commandJson (commandLine : List String) : Json := .arr (commandLine.map .str)

/-- Only the first part of each stream is kept. -/
def capture (process : Process) (commandLine : List String) (timeoutSeconds : Nat) : Captured :=
  match process.ending with
  | .exited code success =>
      let stdout := cappedLossyString process.stdout maxEAcslOutputBytes
      let stderr := cappedLossyString process.stderr maxEAcslOutputBytes
      .ran code success stdout.1 stderr.1 (stdout.2 || stderr.2)
  | .failed error =>
      .noOutput (.obj [("status", .str "error"), ("error", .str error),
        ("command", commandJson commandLine), ("raw_stdout", .null), ("raw_stderr", .null),
        ("truncated", .bool false)])
  | .timedOut =>
      .noOutput (.obj [("status", .str "timeout"), ("timeout_seconds", .num timeoutSeconds),
        ("command", commandJson commandLine), ("raw_stdout", .null), ("raw_stderr", .null),
        ("truncated", .bool false)])

def contains (text : Line) (needle : String) : Bool := (Line.find text needle).isSome

def cleanByOutput (stdout stderr : Line) : Bool :=
  !([stdout, stderr].any fun text => contains text "Error:" || contains text "Aborted")

/-- The verdict is read off the kept output. -/
def runStep [DigitTables] (process : Process) (instrumentedExec : String)
    (programArgs : List String) (timeoutSeconds : Nat) : Json :=
  match capture process (instrumentedExec :: programArgs) timeoutSeconds with
  | .ran code _ stdout stderr truncated =>
      let clean := cleanByOutput stdout stderr
      .obj [("status", .str (if clean then "clean" else "violation")),
        ("clean_by_output", .bool clean),
        ("success_criterion", .str
          "absence of Error: or Aborted in stdout/stderr; exit code is metadata only"),
        ("violation", if clean then .null
          else parseEAcslViolation (stdout ++ '\n' :: stderr)),
        ("code", (code.map .num).getD .null),
        ("command", commandJson (instrumentedExec :: programArgs)),
        ("raw_stdout", .str (String.ofList stdout)), ("raw_stderr", .str (String.ofList stderr)),
        ("truncated", .bool truncated)]
  | .noOutput payload => payload

end FramaCMcp.RuntimeCheck
