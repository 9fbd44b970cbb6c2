/-
This file divides the cleaned lines of a file into functions, loops and declarations.
-/

import FramaCMcp.Construction.Emission

namespace FramaCMcp.Concurrency

def stripLead (lead : String) (line : Line) : Option Line :=
  if Line.startsWith line lead then some (line.drop lead.length) else none

/-- A declaration ends a statement and its declarator opens no call. -/
def isDeclaration (line : Line) : Bool :=
  Line.endsWith line ";" && !(declaredPart line).contains '(' && !Line.startsWith line "#" &&
    !line.isEmpty

/-- The parameter list opens at the last bracket of depth zero. -/
def parameterListFrom : Int → Nat → Option Nat → Line → Option Nat
  | _, _, found, [] => found
  | depth, offset, found, c :: rest =>
      parameterListFrom (Line.depthStep ['('] [')'] depth c) (offset + 1)
        (if c = '(' ∧ depth = 0 then some offset else found) rest

def parameterList (text : Line) : Option Nat := parameterListFrom 0 0 none text

/-- A function pointer is named inside its bracket, and a lone type names nothing. -/
def parameterName (part : Line) : String :=
  match Line.find part "(" with
  | some opening => (((identifiers (part.drop opening)).head?).map Token.name).getD ""
  | none =>
      let names := identifiers (declaratorHead part)
      if names.length ≤ 1 then "" else ((names.getLast?).map Token.name).getD ""

def headerFunction (header : Line) : Option String :=
  let text := Line.before header ['\x7b']
  ((parameterList text).bind fun opening => (identifiers (text.take opening)).getLast?).bind
    fun token => if keywords.contains token.name then none else some token.name

def headerParams (header : Line) : List String :=
  let text := Line.before header ['\x7b']
  match parameterList text with
  | none => []
  | some opening =>
      match Line.matching text opening with
      | none => []
      | some closing =>
          (Line.splitTopLevel (Line.slice text (opening + 1) closing)).map parameterName

/-- The bracket of an atomic specifier gives way to white space. -/
def unwrapAtomicFrom : Nat → Line → Nat → Line
  | 0, text, _ => text
  | fuel + 1, text, start =>
      match Line.find (text.drop start) "_Atomic" with
      | none => text
      | some found =>
          let after := start + found + "_Atomic".length
          let rest := text.drop after
          if Line.startsWith (Line.trimStart rest) "(" then
            let opening := after + (Line.find rest "(").getD 0
            match Line.matching text opening with
            | none => text
            | some closing =>
                unwrapAtomicFrom fuel
                  (text.take after ++ ' ' :: Line.slice text (opening + 1) closing ++
                    ' ' :: text.drop (closing + 1)) after
          else unwrapAtomicFrom fuel text after

def unwrapAtomicSpecifier (line : Line) : Line := unwrapAtomicFrom (line.length + 1) line 0

def stdatomicTypes : List String :=
  ["bool", "char", "schar", "uchar", "short", "ushort", "int", "uint", "long", "ulong", "llong",
    "ullong", "char8_t", "char16_t", "char32_t", "wchar_t", "intptr_t", "uintptr_t", "size_t",
    "ptrdiff_t", "intmax_t", "uintmax_t", "flag"]

def isStdatomicType (token : String) : Bool :=
  match stripLead "atomic_" token.toList with
  | none => false
  | some rest =>
      stdatomicTypes.contains (String.ofList rest) ||
        let signless := (stripLead "u" rest).getD rest
        ((stripLead "int_least" signless) <|> (stripLead "int_fast" signless)).any fun width =>
          ["8_t", "16_t", "32_t", "64_t"].contains (String.ofList width)

/-- The declared names and the tags are no types. -/
def declaresAtomic (line : Line) (names : List String) : Bool :=
  let tokens := (identifiers (declaredPart line)).map Token.name
  ((none :: tokens.map some).zip tokens).any fun pair =>
    let tag := pair.1.any ["struct", "union", "enum"].contains
    pair.2 == "_Atomic" || (isStdatomicType pair.2 && !tag && !names.contains pair.2)

/-- This is what the lines at file scope have given. The header is the text since the last
declaration, and the current function owns the lines of the open body. -/
structure Scope where
  functions : List Function
  globals : OrderedSet String
  atomics : OrderedSet String
  header : Line
  current : Option Nat

/-- A line at file scope declares data, belongs to the header of a function or opens a body. -/
def fileScopeLine (scope : Scope) (raw : Line) : Scope :=
  let line := unwrapAtomicSpecifier raw
  if isDeclaration line then
    let names := declarators line
    { scope with
      globals := scope.globals.addAll names
      atomics := if declaresAtomic line names then scope.atomics.addAll names else scope.atomics
      header := []
      current := none }
  else if !line.contains '\x7b' && (Line.endsWith line ";" || Line.startsWith line "#") then
    { scope with header := [], current := none }
  else
    let header := scope.header ++ ' ' :: line
    if !line.contains '\x7b' then { scope with header, current := none }
    else
      match headerFunction header with
      | none => { scope with header := [], current := none }
      | some name =>
          { scope with
            functions := scope.functions ++ [{ name, params := headerParams header }]
            header := []
            current := some scope.functions.length }

/-- Each open block has a mark that tells whether it is the body of a loop. -/
structure Blocks where
  depth : Nat
  loops : List Bool
  deriving DecidableEq, Repr

/-- The body of a loop may stand beside its head. -/
def carriesLoop (pending : Bool) (line : Line) : Bool :=
  pending || (opensLoop line && branchOn line == .sameLine)

/-- All blocks of a line are opened before any of them is closed. -/
def Blocks.advance (blocks : Blocks) (mark : Bool) (line : Line) : Blocks :=
  let opened := line.count '\x7b'
  let closed := line.count '\x7d'
  let depth := blocks.depth + opened - min closed (blocks.depth + opened)
  { depth, loops := (blocks.loops ++ List.replicate opened mark).take depth }

/-- A loop whose head ends its line marks the next line. -/
structure ScanState where
  scope : Scope
  owner : List (Option Nat)
  inLoop : List Bool
  blocks : Blocks
  pendingLoop : Bool

def ScanState.empty : ScanState where
  scope :=
    { functions := [], globals := OrderedMap.empty, atomics := OrderedMap.empty, header := []
      current := none }
  owner := []
  inLoop := []
  blocks := { depth := 0, loops := [] }
  pendingLoop := false

/-- A line gets its owner and its loop mark, and then moves the blocks. -/
def scanLine (state : ScanState) (raw : Line) : ScanState :=
  let line := Line.trim raw
  let scope := if state.blocks.depth = 0 then fileScopeLine state.scope line else state.scope
  let carried := carriesLoop state.pendingLoop line
  let blocks := state.blocks.advance (carried || opensLoop line) line
  { scope := { scope with current := if blocks.depth = 0 then none else scope.current }
    owner := state.owner ++ [scope.current]
    inLoop := state.inLoop ++ [carried || state.blocks.loops.any id]
    blocks
    pendingLoop := opensLoop line && branchOn line == .nextLine }

/-- Each line of a scanned file has a loop mark. -/
structure ScannedFile extends FileScan where
  inLoop : List Bool
  sameMarks : inLoop.length = lines.length

theorem length_scanLines (state : ScanState) (lines : List Line) :
    (lines.foldl scanLine state).owner.length = state.owner.length + lines.length ∧
      (lines.foldl scanLine state).inLoop.length = state.inLoop.length + lines.length := by
  induction lines generalizing state with
  | nil => exact ⟨rfl, rfl⟩
  | cons line rest ih =>
      obtain ⟨owners, marks⟩ := ih (scanLine state line)
      rw [List.foldl_cons, owners, marks]
      constructor
      · rw [scanLine, List.length_append, List.length_singleton, List.length_cons]
        omega
      · rw [scanLine, List.length_append, List.length_singleton, List.length_cons]
        omega

/-- An owner is the number of a function of the file. -/
def ownerAt (functions : List Function) (owner : Option Nat) : Option (Fin functions.length) :=
  owner.bind fun place => if bound : place < functions.length then some ⟨place, bound⟩ else none

/-- The lines of a file are scanned one after the other. -/
def structureOf (path : String) (lines : List Line) : ScannedFile where
  path
  lines
  functions := (lines.foldl scanLine .empty).scope.functions
  owner := (lines.foldl scanLine .empty).owner.map (ownerAt _)
  sameLength := by
    rw [List.length_map, (length_scanLines .empty lines).1]
    exact Nat.zero_add _
  globals := (lines.foldl scanLine .empty).scope.globals
  atomics := (lines.foldl scanLine .empty).scope.atomics
  inLoop := (lines.foldl scanLine .empty).inLoop
  sameMarks := by
    rw [(length_scanLines .empty lines).2]
    exact Nat.zero_add _

end FramaCMcp.Concurrency
