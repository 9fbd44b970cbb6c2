/-
This file blanks the comments and the literals of a source text and reads the identifiers and the
calls of one cleaned line.
-/

import FramaCMcp.Construction.Events
import FramaCMcp.Construction.WpPrint

namespace FramaCMcp.Concurrency

/-- A comment may go on in the next line, and a literal may not. -/
structure Noise where
  block : Bool := false
  string : Bool := false
  character : Bool := false
  escaped : Bool := false
  deriving DecidableEq, Repr

/-- A character is kept, so many characters are blanked or the rest of the line is cut off. -/
inductive NoiseStep where
  | keep
  | blank (width : Nat)
  | rest
  deriving DecidableEq, Repr

def stepLiteral (state : Noise) (c : Char) : Noise × NoiseStep :=
  if state.escaped then ({ state with escaped := false }, .blank 1)
  else if c = '\\' then ({ state with escaped := true }, .blank 1)
  else if (state.string && c == '"') || (state.character && c == '\'') then
    ({ state with string := false, character := false }, .keep)
  else (state, .blank 1)

/-- A comment is found with one character of lookahead. -/
def stepNoise (state : Noise) (c next : Char) : Noise × NoiseStep :=
  if state.block then
    let closing := c == '*' && next == '/'
    ({ state with block := !closing }, .blank (if closing then 2 else 1))
  else if state.string || state.character then stepLiteral state c
  else if c = '/' ∧ next = '*' then ({ state with block := true }, .blank 2)
  else if c = '/' ∧ next = '/' then (state, .rest)
  else ({ state with string := c == '"', character := c == '\'' }, .keep)

/-- A wide step skips the characters that it has blanked already. -/
def cleanLine : Nat → Noise → Line → Noise × Line
  | _, state, [] => (state, [])
  | skipped + 1, state, _ :: rest => cleanLine skipped state rest
  | 0, state, c :: rest =>
      match stepNoise state c (rest.headD ' ') with
      | (next, .keep) => ((cleanLine 0 next rest).1, c :: (cleanLine 0 next rest).2)
      | (next, .blank width) => ((cleanLine (width - 1) next rest).1,
          List.replicate width ' ' ++ (cleanLine (width - 1) next rest).2)
      | (next, .rest) => (next, [])

/-- Only a comment is still open behind the end of its line. -/
def Noise.endLine (state : Noise) : Noise := { block := state.block }

def cleanLines : Noise → List Line → List Line
  | _, [] => []
  | state, line :: rest =>
      (cleanLine 0 state line).2 :: cleanLines (cleanLine 0 state line).1.endLine rest

def byteOrderMark : Char := '\ufeff'

def afterMarks (text : Line) : Line := text.dropWhile (· == byteOrderMark)

def stripNoise (text : Line) : List Line := cleanLines {} (WpPrint.linesFrom [] (afterMarks text))

end FramaCMcp.Concurrency

namespace FramaCMcp.Concurrency

/-- These words open a construct and name no callee and no declarator. -/
def keywords : List String :=
  ["if", "for", "while", "switch", "return", "sizeof", "do", "else", "case", "goto", "break",
    "continue", "typedef", "struct", "union", "enum", "static", "const", "volatile", "extern",
    "unsigned", "signed", "register", "inline", "restrict"]

def isHead (c : Char) : Bool := c.isAlpha || c == '_'

def isTail (c : Char) : Bool := c.isAlphanum || c == '_'

/-- A token starts at its offset. -/
structure Token where
  start : Nat
  name : String
  deriving DecidableEq, Repr

/-- The scan carries the start and the characters of the identifier that it is in. -/
def identifiersFrom : Nat → Option (Nat × Line) → Line → List Token
  | _, none, [] => []
  | _, some (start, name), [] => [⟨start, String.ofList name⟩]
  | offset, none, c :: rest =>
      identifiersFrom (offset + 1) (if isHead c then some (offset, [c]) else none) rest
  | offset, some (start, name), c :: rest =>
      if isTail c then identifiersFrom (offset + 1) (some (start, name ++ [c])) rest
      else ⟨start, String.ofList name⟩ :: identifiersFrom (offset + 1) none rest

def identifiers (line : Line) : List Token := identifiersFrom 0 none line

def isIdentifier (token : Line) : Bool := token.head?.any isHead && token.all isTail

/-- Every bracket pairs with the nearest unclosed one before it. -/
def parenPairsFrom : Nat → List Nat → Line → List (Nat × Nat)
  | _, _, [] => []
  | offset, unclosed, c :: rest =>
      if c = '(' then parenPairsFrom (offset + 1) (offset :: unclosed) rest
      else if c = ')' then
        match unclosed with
        | [] => parenPairsFrom (offset + 1) [] rest
        | start :: others => (start, offset) :: parenPairsFrom (offset + 1) others rest
      else parenPairsFrom (offset + 1) unclosed rest

def parenPairs (line : Line) : List (Nat × Nat) := parenPairsFrom 0 [] line

/-- The brackets of the argument list stand at two offsets. -/
structure Call where
  name : String
  args : List Line
  start : Nat
  opening : Nat
  closing : Nat
  deriving DecidableEq, Repr

/-- A token followed by a bracket on its line is a call, unless it is a keyword. Only the arguments
of the modelled calls are split. -/
def callAt (line : Line) (token : Token) : Option Call :=
  let after := token.start + token.name.length
  if !Line.startsWith (Line.trimStart (line.drop after)) "(" || keywords.contains token.name then
    none
  else
    let opening := after + (Line.find (line.drop after) "(").getD 0
    ((parenPairs line).lookup opening).map fun closing =>
      { name := token.name
        args := if readsArguments token.name then
            Line.splitTopLevel (Line.slice line (opening + 1) closing)
          else []
        start := token.start
        opening
        closing }

def callsAmong (line : Line) (tokens : List Token) : List Call := tokens.filterMap (callAt line)

/-- A cast in front of the argument is stepped over, as often as there is one. -/
def dropCasts : Nat → Line → Line
  | 0, text => text
  | fuel + 1, text =>
      if Line.startsWith text "(" then
        match Line.matching text 0 with
        | none => text
        | some closing =>
            if text.length ≤ closing + 1 then text
            else dropCasts fuel (Line.trim (text.drop (closing + 1)))
      else text

/-- The name of a lock is its argument without casts, address operators and white space. -/
def lockExpression (arg : Line) : String :=
  let text := dropCasts arg.length (Line.trim arg)
  String.ofList ((text.dropWhile fun c => ['&', '*', ' '].contains c).filter fun c =>
    !Text.isWhitespace c)

/-- The argument names the function in which a thread starts. -/
def entryFunction (arg : Line) : Option String :=
  let text := (lockExpression arg).toList
  let name := (text.reverse.dropWhile fun c => ['(', ')'].contains c).reverse
  if isIdentifier name then some (String.ofList name) else none

/-- The line opens with the keyword and not with a longer identifier. -/
def startsWithWord (head : Line) (word : String) : Bool :=
  Line.startsWith head word && (head.drop word.length).head?.all fun c => !isTail c

/-- The text defines an aggregate, and the names in its brace are members. -/
def opensMemberList (statement : Line) : Bool :=
  match (identifiers statement).reverse.find? fun token =>
      ["struct", "union", "enum"].contains token.name with
  | none => false
  | some tag =>
      let after := statement.drop (tag.start + tag.name.length)
      match Line.find after "\x7b" with
      | none => false
      | some brace => (Line.words (after.take brace)).all isIdentifier

/-- This is the text before an initializer or a subscript, with the stars spaced out. -/
def declaratorHead (part : Line) : Line :=
  (Line.before part ['=', '[']).map fun c => if c = '*' then ' ' else c

def declaratorName (part : Line) : Option String :=
  match (Line.words (declaratorHead part)).getLast? with
  | none => none
  | some name =>
      if isIdentifier name && !keywords.contains (String.ofList name) then some (String.ofList name)
      else none

def declaredPart (statement : Line) : Line := Line.before statement ['=']

/-- A declaration names a type before it names an object. -/
def fragmentNames (fragment : Line) : List String :=
  let body := fragment.drop (Line.afterLast (declaredPart fragment) ['\x7b', '\x7d'])
  if (declaredPart body).contains '(' then []
  else
    let parts := Line.splitTopLevel body
    let tokens := Line.words (declaratorHead (parts.headD []))
    if tokens.length < 2 || !tokens.all isIdentifier then []
    else parts.filterMap declaratorName

def declarators (statement : Line) : List String :=
  if opensMemberList statement then []
  else (statement.splitOn ';').flatMap fragmentNames

end FramaCMcp.Concurrency
