/-
This file gives the parser of the expressions of ghost code and the expressions that it builds.
-/

import FramaCMcp.Construction.GhostEdits
import FramaCMcp.Foundation.CTypes

namespace FramaCMcp.GhostExpr

open CLang
open Cil (Varinfo Fundec)

inductive Token where
  | int (value : Nat)
  | ident (name : String)
  | plus
  | minus
  | star
  | slash
  | percent
  | lBracket
  | rBracket
  | lParen
  | rParen
  | eof
  deriving DecidableEq, Repr

/-- The kernel has its own operator for the sum of a pointer and an index. -/
inductive BinOp where
  | plusA
  | minusA
  | plusPI
  | mult
  | div
  | mod
  deriving DecidableEq, Repr

mutual

inductive Exp where
  | const (value : Int) (kind : IKind)
  | lval (host : Lhost) (offset : Offset)
  | neg (operand : Exp) (type : Typ)
  | binOp (operator : BinOp) (left right : Exp) (type : Typ)
  | castE (type : Typ) (operand : Exp)

inductive Lhost where
  | var (vi : Varinfo)
  | mem (addr : Exp)

inductive Offset where
  | noOffset
  | index (position : Exp) (rest : Offset)

end

/-- The parser catches only a failure among the exceptions of the kernel. -/
inductive Raised where
  | failure (message : String)
  | fatal
  deriving DecidableEq, Repr

/-- A run that is out of steps is none of the code. -/
inductive Fault where
  | raised (exception : Raised)
  | endless
  deriving DecidableEq, Repr

abbrev failWith {α : Type} (message : String) : Except Fault α :=
  .error (.raised (.failure message))

/-- The kernel gives the types of the variables and builds the constants and the operations. -/
structure Kernel where
  vtype : Varinfo → Typ
  integer : Nat → Exp
  mkBinop : BinOp → Exp → Exp → Except Raised Exp

section Types

variable (vtype : Varinfo → Typ)

def pointee (type : Typ) : Typ :=
  match type.unroll with
  | .ptr target => target
  | _ => .void

def elementOf (type : Typ) : Typ :=
  match type.unroll with
  | .array element _ => element
  | _ => .void

def typeOffset (base : Typ) : Offset → Typ
  | .noOffset => base
  | .index _ rest => typeOffset (elementOf base) rest

mutual

def typeOf : Exp → Typ
  | .const _ kind => .int kind
  | .lval host offset => typeOffset (typeOfHost host) offset
  | .neg _ type => type
  | .binOp _ _ _ type => type
  | .castE type _ => type

def typeOfHost : Lhost → Typ
  | .var vi => vtype vi
  | .mem addr => pointee (typeOf addr)

end

end Types

section Lexer

def isSpace (letter : Char) : Bool :=
  letter == ' ' || letter == '\t' || letter == '\n' || letter == '\r'

def isDigit (letter : Char) : Bool := decide ('0' ≤ letter) && decide (letter ≤ '9')

def skipWs (text : List Char) : List Char := text.dropWhile isSpace

/-- An integer of the host language has 63 bits. -/
def maxInt : Nat := 2 ^ 62 - 1

def intOfString (digits : List Char) : Except Fault Nat :=
  if Machine.numeral 10 digits ≤ maxInt then .ok (Machine.numeral 10 digits)
  else failWith "int_of_string"

/-- The lexer knows its place in a text of this length by what is left of it. -/
def position (length : Nat) (text : List Char) : String := toString (length - text.length)

def punctuation : Char → Option Token
  | '+' => some .plus
  | '-' => some .minus
  | '*' => some .star
  | '/' => some .slash
  | '%' => some .percent
  | '[' => some .lBracket
  | ']' => some .rBracket
  | '(' => some .lParen
  | ')' => some .rParen
  | _ => none

def nextToken (length : Nat) (text : List Char) : Except Fault (Token × List Char) :=
  match skipWs text with
  | [] => .ok (.eof, [])
  | letter :: rest =>
      match punctuation letter with
      | some token => .ok (token, rest)
      | none =>
          if isDigit letter then
            (intOfString ((letter :: rest).takeWhile isDigit)).map fun value =>
              (.int value, (letter :: rest).dropWhile isDigit)
          else if Ghost.isAlpha letter then
            .ok (.ident (String.ofList ((letter :: rest).takeWhile Ghost.isAlnum)),
              (letter :: rest).dropWhile Ghost.isAlnum)
          else
            failWith ("parse error: unexpected '" ++ String.singleton letter ++ "' at position " ++
              position length (letter :: rest))

def peek (length : Nat) (text : List Char) : Except Fault Token :=
  (nextToken length text).map Prod.fst

end Lexer

section Parser

/-- A parser gives what it has built and the text that is left. -/
abbrev Parser := List Char → Except Fault (Exp × List Char)

def additiveOp : Token → Option BinOp
  | .plus => some .plusA
  | .minus => some .minusA
  | _ => none

def multiplicativeOp : Token → Option BinOp
  | .star => some .mult
  | .slash => some .div
  | .percent => some .mod
  | _ => none

variable (kernel : Kernel) (lookup : String → Except String Varinfo) (length : Nat)

def mkBinop (operator : BinOp) (left right : Exp) : Except Fault Exp :=
  (kernel.mkBinop operator left right).mapError .raised

/-- The operand on the left takes in one more operand for each operator that follows. -/
def joinLoop (operator : Token → Option BinOp) (operand : Parser) : Nat → Exp → Parser
  | 0, _, _ => .error .endless
  | fuel + 1, left, text => do
      let token ← peek length text
      match operator token with
      | none => .ok (left, text)
      | some joined =>
          let next ← nextToken length text
          let right ← operand next.2
          let left ← mkBinop kernel joined left right.1
          joinLoop operator operand fuel left right.2

def parseLeft (operator : Token → Option BinOp) (operand : Parser) : Parser := fun text => do
  let left ← operand text
  joinLoop kernel length operator operand (left.2.length + 1) left.1 left.2

def expect (token : Token) (mark : String) (text : List Char) : Except Fault (List Char) := do
  let next ← nextToken length text
  if next.1 = token then .ok next.2
  else failWith ("parse error: expected '" ++ mark ++ "' at position " ++ position length next.2)

/-- An index stands in the brackets behind the name of an array or of a pointer. -/
def indexed (name : String) (vi : Varinfo) (index : Exp) : Except Fault Exp :=
  match (kernel.vtype vi).unroll with
  | .array _ _ => .ok (.lval (.var vi) (.index index .noOffset))
  | .ptr _ => do
      let addr ← mkBinop kernel .plusPI (.lval (.var vi) .noOffset) index
      .ok (.lval (.mem addr) .noOffset)
  | _ => failWith ("variable '" ++ name ++ "' is not an array or pointer")

def findVar (name : String) : Except Fault Varinfo :=
  (lookup name).mapError fun message => .raised (.failure message)

def parsePrimary (expr : Parser) : Parser := fun text => do
  let next ← nextToken length text
  match next.1 with
  | .int value => .ok (kernel.integer value, next.2)
  | .ident name =>
      let vi ← findVar lookup name
      let token ← peek length next.2
      if token = .lBracket then
        let bracket ← nextToken length next.2
        let index ← expr bracket.2
        let rest ← expect length .rBracket "]" index.2
        let element ← indexed kernel name vi index.1
        .ok (element, rest)
      else .ok (.lval (.var vi) .noOffset, next.2)
  | .lParen =>
      let inner ← expr next.2
      let rest ← expect length .rParen ")" inner.2
      .ok (inner.1, rest)
  | .eof => failWith "parse error: unexpected end of input"
  | _ => failWith ("parse error: unexpected token at position " ++ position length next.2)

def unaryLoop (primary : Parser) : Nat → Parser
  | 0, _ => .error .endless
  | fuel + 1, text => do
      let token ← peek length text
      if token = .minus then
        let next ← nextToken length text
        let operand ← unaryLoop primary fuel next.2
        .ok (.neg operand.1 (typeOf kernel.vtype operand.1), operand.2)
      else primary text

def parseUnary (expr : Parser) : Parser := fun text =>
  unaryLoop kernel length (parsePrimary kernel lookup length expr) (text.length + 1) text

def parseMultiplicative (expr : Parser) : Parser :=
  parseLeft kernel length multiplicativeOp (parseUnary kernel lookup length expr)

def parseAdditive (expr : Parser) : Parser :=
  parseLeft kernel length additiveOp (parseMultiplicative kernel lookup length expr)

/-- This is `parse_expr_impl`, with a bound on the depth of its calls. -/
def parseExpr : Nat → Parser
  | 0, _ => .error .endless
  | fuel + 1, text => parseAdditive kernel lookup length (parseExpr fuel) text

end Parser

section Whole

def parseWhole (kernel : Kernel) (lookup : String → Except String Varinfo) (text : List Char) :
    Except Fault Exp := do
  let parsed ← parseExpr kernel lookup text.length (text.length + 1) text
  let token ← peek text.length parsed.2
  if token = .eof then .ok parsed.1
  else failWith ("parse error: unexpected token at position " ++ position text.length parsed.2)

/-- A failure becomes the error of the answer and another exception passes. -/
def parseCExpr (kernel : Kernel) (globals : List Varinfo) (fundec : Fundec) (sid : Nat)
    (exprString : String) : Except Fault (Except String Exp) :=
  if (Ghost.trim exprString).length = 0 then .ok (.error "empty expression")
  else
    match parseWhole kernel (Ghost.findVarInScope globals fundec sid) exprString.toList with
    | .ok exp => .ok (.ok exp)
    | .error (.raised (.failure message)) => .ok (.error message)
    | .error fault => .error fault

end Whole

end FramaCMcp.GhostExpr
