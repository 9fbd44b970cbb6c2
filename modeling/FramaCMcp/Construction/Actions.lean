/-
This file orders what happens on one cleaned line.
-/

import FramaCMcp.Construction.Tokens

namespace FramaCMcp.Concurrency

/-- This is where a call to a defined function sits on its line. -/
structure CallAt where
  name : String
  start : Nat
  opening : Nat
  closing : Nat
  deriving DecidableEq, Repr

/-- A call stands at its closing bracket and a return at the end of its statement. -/
inductive Action where
  | lock (entry : LockApi) (lock : String)
  | create (entry : String)
  | join
  | access (kind : EventKind) (zone : String)
  | openBlock
  | closeBlock
  | call (call : CallAt)
  | returns
  deriving DecidableEq, Repr

/-- The zone of a name, and whether that zone is an atomic object. -/
abbrev Zones := String → Option (String × Bool)

def matchingBracket (rest : Line) : Option Nat :=
  if rest.head? = some '[' then Line.closingFrom ['['] [']'] 0 0 rest else none

/-- One subscript or one field selector is stepped over. -/
def stepSuffix (rest : Line) : Line :=
  match matchingBracket rest with
  | some closing => Line.trimStart (rest.drop (closing + 1))
  | none =>
      let skipped := Line.trimStart (rest.dropWhile fun c => ['.', '-', '>'].contains c)
      let selected := skipped.takeWhile isTail
      if selected = [] then skipped else Line.trimStart (skipped.drop selected.length)

def opensSuffix (rest : Line) : Bool :=
  Line.startsWith rest "[" || Line.startsWith rest "." || Line.startsWith rest "->"

/-- A subscript that its line does not close is stepped over forever. -/
def stepSuffixes : Nat → Line → Option Line
  | 0, _ => none
  | fuel + 1, rest =>
      if opensSuffix rest then
        if (stepSuffix rest).length < rest.length then stepSuffixes fuel (stepSuffix rest) else none
      else some rest

/-- The text is written where it goes on with one of these operators. -/
def writtenBy (rest : Line) : Bool :=
  ["++", "--", "+=", "-=", "*=", "/=", "%=", "&=", "|=", "^=", "<<=", ">>="].any
      (Line.startsWith rest) ||
    (Line.startsWith rest "=" && !Line.startsWith rest "==")

/-- An operator before the identifier writes it. -/
def steppedBefore (line : Line) (start : Nat) : Bool :=
  Line.endsWith (Line.trimEnd (line.take start)) "++" ||
    Line.endsWith (Line.trimEnd (line.take start)) "--"

/-- The identifier between the two offsets is written by what stands around it. -/
def isWritten (line : Line) (start stop : Nat) : Option Bool :=
  if steppedBefore line start then some true
  else (stepSuffixes (line.length + 1) (Line.trimStart (line.drop stop))).map writtenBy

/-- This is the write test with so many rounds of its loop. -/
def isWrittenWithin (rounds : Nat) (line : Line) (start stop : Nat) : Option Bool :=
  if steppedBefore line start then some true
  else (Fixpoint.whileLoop opensSuffix stepSuffix rounds (Line.trimStart (line.drop stop))).map writtenBy

/-- No identifier within these ranges is a memory access. -/
def modelledRanges (found : List Call) : List (Nat × Nat) :=
  (found.filter fun call => isModelled call.name).map fun call => (call.start, call.closing)

def firstZone (tokens : List Token) (start stop : Nat) (zones : Zones) : Option Nat :=
  (tokens.find? fun token =>
    decide (start ≤ token.start ∧ token.start < stop) && (zones token.name).isSome).map Token.start

/-- A builtin accesses the first zone of its address argument, and an exchange also writes its
second argument. -/
def atomicTargetsOf (tokens : List Token) (zones : Zones) (call : Call) : List (Nat × EventKind) :=
  match atomicAccess call.name, call.args.head? with
  | some kind, some first =>
      let second := call.opening + 1 + first.length + 1
      let address := (firstZone tokens (call.opening + 1) (second - 1) zones).map fun start =>
        (start, kind)
      let expected := if writesExpected call.name then call.args[1]? else none
      let written := (expected.bind fun arg =>
        firstZone tokens second (second + arg.length) zones).map fun start => (start, .write)
      address.toList ++ written.toList
  | _, _ => []

def atomicTargets (tokens : List Token) (found : List Call) (zones : Zones)
    (defined : OrderedSet String) : OrderedMap Nat EventKind :=
  ((found.filter fun call => !OrderedMap.contains defined call.name).flatMap
    (atomicTargetsOf tokens zones)).foldl (fun targets entry => targets.insert entry.1 entry.2)
    OrderedMap.empty

def plainKind (line : Line) (token : Token) (atomicZone : Bool) : Option EventKind :=
  (isWritten line token.start (token.start + token.name.length)).map fun written =>
    if written then (if atomicZone then .atomicWrite else .write)
    else if atomicZone then .atomicRead else .read

/-- A statement ends at its semicolon at depth zero or at the end of its line. -/
def statementEndFrom : Int → Nat → Line → Nat
  | _, offset, [] => offset
  | depth, offset, c :: rest =>
      let next := Line.depthStep ['('] [')'] depth c
      if next ≤ 0 ∧ [';', '\x7d'].contains c then offset else statementEndFrom next (offset + 1) rest

def statementEnd (line : Line) (start : Nat) : Nat := statementEndFrom 0 start (line.drop start)

def callAction (call : Call) : Option (Nat × Action) :=
  if call.name = "pthread_join" then some (call.start, .join)
  else if call.name = "pthread_create" then
    (call.args[2]?.bind entryFunction).map fun entry => (call.start, .create entry)
  else
    (lockApi call.name).map fun entry =>
      (call.start, .lock entry
        (match entry.arg with
        | none => atomicSection
        | some place => (call.args[place]?.map lockExpression).getD "<unknown>"))

/-- A call to a defined function stands after the action of the call itself. -/
def callActions (defined : OrderedSet String) (call : Call) : List (Nat × Action) :=
  (callAction call).toList ++
    if OrderedMap.contains defined call.name && !isModelled call.name then
      [(call.closing, .call
        { name := call.name, start := call.start, opening := call.opening
          closing := call.closing })]
    else []

/-- A token is a return, an access to a zone or nothing. -/
def tokenAction (line : Line) (zones : Zones) (covered : List (Nat × Nat))
    (targets : OrderedMap Nat EventKind) (token : Token) : Option (List (Nat × Action)) :=
  if token.name = "return" then some [(statementEnd line token.start, .returns)]
  else if covered.any fun range => range.1 ≤ token.start && token.start ≤ range.2 then some []
  else
    match zones token.name with
    | none => some []
    | some (zone, atomicZone) =>
        ((targets.lookup token.start).map some |>.getD (plainKind line token atomicZone)).map
          fun kind => [(token.start, .access kind zone)]

def braceActions : Nat → Line → List (Nat × Action)
  | _, [] => []
  | offset, c :: rest =>
      if c = '\x7b' then (offset, .openBlock) :: braceActions (offset + 1) rest
      else if c = '\x7d' then (offset, .closeBlock) :: braceActions (offset + 1) rest
      else braceActions (offset + 1) rest

/-- The actions of a line stand in the order of their offsets. -/
def actionsOnLine (line : Line) (zones : Zones) (defined : OrderedSet String) :
    Option (List (Nat × Action)) :=
  let tokens := identifiers line
  let found := callsAmong line tokens
  (tokens.mapM
    (tokenAction line zones (modelledRanges found) (atomicTargets tokens found zones defined))).map
    fun accesses =>
      StableSort.sortByKey Prod.fst
        (found.flatMap (callActions defined) ++ accesses.flatten ++ braceActions 0 line)

end FramaCMcp.Concurrency
