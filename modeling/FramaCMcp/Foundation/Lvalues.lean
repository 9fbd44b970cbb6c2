/-
This file gives the expressions of C and of its annotations, the places that they name, and the
replacement of the formals of a function by the arguments of a call.
-/

import Mathlib.Data.Set.Insert

namespace Cil

/-- A type is known by its text. -/
abbrev Typ := String

structure Varinfo where
  vid : Nat
  vname : String
  vorigName : String := vname
  vtype : Typ := "int"
  vglob : Bool := false
  vghost : Bool := false
  vdefined : Bool := false
  deriving DecidableEq, Repr

/-- A term may also apply a symbol of the logic, such as a label or a function. -/
inductive Unop where
  | neg
  | bnot
  | lnot
  | cast (type : Typ)
  | logic (symbol : String)
  deriving DecidableEq, Repr

/-- A term may also join two sets, give a range or pair two arguments of the logic. -/
inductive Binop where
  | plusA
  | plusPI
  | minusA
  | minusPI
  | minusPP
  | mult
  | div
  | mod
  | shiftlt
  | shiftrt
  | lt
  | gt
  | le
  | ge
  | eq
  | ne
  | band
  | bxor
  | bor
  | land
  | lor
  | range
  | union
  | logic (symbol : String)
  deriving DecidableEq, Repr

mutual

/-- This is an expression of a body or a term of an annotation. -/
inductive Exp where
  | const (text : String)
  | lval (host : Lhost) (offset : Offset)
  | addrOf (host : Lhost) (offset : Offset)
  | startOf (host : Lhost) (offset : Offset)
  | unary (op : Unop) (arg : Exp)
  | binary (op : Binop) (left right : Exp)

/-- The host of a copy is an argument as the callee holds it. -/
inductive Lhost where
  | var (vi : Varinfo)
  | mem (address : Exp)
  | result
  | copy

inductive Offset where
  | noOffset
  | field (name : String) (rest : Offset)
  | index (position : Exp) (rest : Offset)

end

structure Lval where
  host : Lhost
  offset : Offset

/-- An lvalue may be read. -/
def Lval.exp (lv : Lval) : Exp := .lval lv.host lv.offset

def Lval.ofVar (vi : Varinfo) : Lval := ⟨.var vi, .noOffset⟩

def Exp.evar (vi : Varinfo) : Exp := (Lval.ofVar vi).exp

/-- A place belongs to a variable of the running function, to a global one, or to other memory. -/
inductive Base where
  | var (vi : Varinfo)
  | block (id : Nat)
  deriving DecidableEq, Repr

inductive Selector where
  | field (name : String)
  | index (position : Int)
  deriving DecidableEq, Repr

structure Place where
  base : Base
  path : List Selector
  deriving DecidableEq, Repr

inductive Value where
  | int (value : Int)
  | ptr (place : Place)
  | other (text : String)
  deriving DecidableEq, Repr

abbrev Memory := Place → Option Value

/-- The machine computes the operations. An operation of the logic may have many values. -/
structure Machine where
  const : String → Set Value
  unary : Unop → Value → Set Value
  binary : Binop → Value → Value → Set Value

mutual

/-- These are the variables that an expression mentions. -/
def Exp.varinfos : Exp → List Varinfo
  | .const _ => []
  | .lval host offset => host.varinfos ++ offset.varinfos
  | .addrOf host offset => host.varinfos ++ offset.varinfos
  | .startOf host offset => host.varinfos ++ offset.varinfos
  | .unary _ arg => arg.varinfos
  | .binary _ left right => left.varinfos ++ right.varinfos

def Lhost.varinfos : Lhost → List Varinfo
  | .var vi => [vi]
  | .mem address => address.varinfos
  | .result => []
  | .copy => []

def Offset.varinfos : Offset → List Varinfo
  | .noOffset => []
  | .field _ rest => rest.varinfos
  | .index position rest => position.varinfos ++ rest.varinfos

end

def Lval.varinfos (lv : Lval) : List Varinfo := lv.host.varinfos ++ lv.offset.varinfos

section Meaning

variable (machine : Machine) (memory : Memory)

mutual

/-- These are the values of an expression. -/
def Exp.values : Exp → Set Value
  | .const text => machine.const text
  | .lval host offset =>
      {value | ∃ root ∈ host.roots, ∃ path ∈ offset.paths,
        memory ⟨root.base, root.path ++ path⟩ = some value}
  | .addrOf host offset =>
      {value | ∃ root ∈ host.roots, ∃ path ∈ offset.paths,
        value = .ptr ⟨root.base, root.path ++ path⟩}
  | .startOf host offset =>
      {value | ∃ root ∈ host.roots, ∃ path ∈ offset.paths,
        value = .ptr ⟨root.base, root.path ++ path ++ [.index 0]⟩}
  | .unary op arg => {value | ∃ operand ∈ arg.values, value ∈ machine.unary op operand}
  | .binary op left right =>
      {value | ∃ first ∈ left.values, ∃ second ∈ right.values,
        value ∈ machine.binary op first second}

/-- A returned value and a copied argument have no place in the caller. -/
def Lhost.roots : Lhost → Set Place
  | .var vi => {⟨.var vi, []⟩}
  | .mem address => {place | .ptr place ∈ address.values}
  | .result => ∅
  | .copy => ∅

def Offset.paths : Offset → Set (List Selector)
  | .noOffset => {[]}
  | .field name rest => {path | ∃ tail ∈ rest.paths, path = .field name :: tail}
  | .index position rest =>
      {path | ∃ number, .int number ∈ position.values ∧ ∃ tail ∈ rest.paths,
        path = .index number :: tail}

end

/-- An lvalue names all that lies within it. -/
def Lval.region (lv : Lval) : Set Place :=
  {place | ∃ root ∈ lv.host.roots machine memory, ∃ path ∈ lv.offset.paths machine memory,
    place.base = root.base ∧ root.path ++ path <+: place.path}

/-- A target of a frame is an lvalue or a union of targets. -/
def Exp.region : Exp → Set Place
  | .lval host offset => Lval.region machine memory ⟨host, offset⟩
  | .binary .union left right => left.region ∪ right.region
  | _ => ∅

end Meaning

namespace Lval

variable {machine : Machine} {memory : Memory}

theorem base_of_mem_region {lv : Lval} {vi : Varinfo} (host : lv.host = .var vi) {place : Place}
    (within : place ∈ lv.region machine memory) : place.base = .var vi := by
  obtain ⟨root, rooted, path, -, same, -⟩ := within
  rw [host, Lhost.roots] at rooted
  rw [same, Set.mem_singleton_iff.mp rooted]

/-- A variable as a whole has all places that lie in it. -/
theorem mem_region_ofVar (vi : Varinfo) (place : Place) :
    place ∈ (ofVar vi).region machine memory ↔ place.base = .var vi := by
  refine ⟨base_of_mem_region rfl, fun same => ?_⟩
  refine ⟨⟨.var vi, []⟩, ?_, [], ?_, same, List.nil_prefix⟩
  · rw [ofVar, Lhost.roots, Set.mem_singleton_iff]
  · rw [ofVar, Offset.paths, Set.mem_singleton_iff]

end Lval

def Offset.append : Offset → Offset → Offset
  | .noOffset, other => other
  | .field name rest, other => .field name (rest.append other)
  | .index position rest, other => .index position (rest.append other)

/-- A part of an argument is read out of it. -/
def Exp.select : Exp → Offset → Exp
  | .lval host offset, further => .lval host (offset.append further)
  | whole, _ => whole

def actual (actuals : List (Varinfo × Exp)) (vi : Varinfo) : Option Exp :=
  (actuals.find? fun entry => entry.1.vid == vi.vid).map Prod.snd

section Replacement

variable (actuals : List (Varinfo × Exp))

mutual

/-- A formal that is read stands for its argument. -/
def Exp.replace : Exp → Exp
  | .const text => .const text
  | .lval (.var vi) offset =>
      match actual actuals vi with
      | some argument => argument.select offset.replace
      | none => .lval (.var vi) offset.replace
  | .lval host offset => .lval host.replace offset.replace
  | .addrOf host offset => .addrOf host.replace offset.replace
  | .startOf host offset => .startOf host.replace offset.replace
  | .unary op arg => .unary op arg.replace
  | .binary op left right => .binary op left.replace right.replace

/-- A formal that is written is the copy of the callee. -/
def Lhost.replace : Lhost → Lhost
  | .var vi => if (actual actuals vi).isSome then .copy else .var vi
  | .mem address => .mem address.replace
  | .result => .result
  | .copy => .copy

def Offset.replace : Offset → Offset
  | .noOffset => .noOffset
  | .field name rest => .field name rest.replace
  | .index position rest => .index position.replace rest.replace

end

/-- A target keeps its root and has the formals that it reads replaced. -/
def Exp.replaceTarget : Exp → Exp
  | .lval host offset => .lval (host.replace actuals) (offset.replace actuals)
  | .binary .union left right => .binary .union left.replaceTarget right.replaceTarget
  | other => other.replace actuals

end Replacement

end Cil
