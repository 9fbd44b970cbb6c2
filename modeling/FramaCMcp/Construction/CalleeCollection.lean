/-
This file collects the types and the functions that an extracted function depends on, and writes
the functions out.
-/

import Mathlib.Data.List.Basic
import FramaCMcp.Foundation.Fixpoint

namespace FramaCMcp.Extraction

/-- A typedef, a composite and an enumeration are named in a type. The other types have parts. -/
inductive Typ where
  | scalar
  | ptr (target : Typ)
  | array (elem : Typ)
  | fn (result : Typ) (params : List Typ)
  | named (tname : String)
  | comp (ckey : Nat)
  | enum (ename : String)

inductive TypeName where
  | comp (ckey : Nat)
  | enum (ename : String)
  | typedef (tname : String)
  deriving DecidableEq, Repr

mutual

def Typ.names : Typ → List TypeName
  | .scalar => []
  | .ptr target => target.names
  | .array elem => elem.names
  | .fn result params => result.names ++ Typ.namesOf params
  | .named tname => [.typedef tname]
  | .comp ckey => [.comp ckey]
  | .enum ename => [.enum ename]

def Typ.namesOf : List Typ → List TypeName
  | [] => []
  | typ :: rest => typ.names ++ Typ.namesOf rest

end

/-- A composite may be incomplete, and a typedef may be built in. The body of a typedef names
earlier typedefs only, so only a composite can come back to itself. -/
structure TypeFile where
  fields : Nat → Option (List Typ)
  body : String → Typ
  hasGlobal : String → Bool
  comps : List Nat
  covered : ∀ ckey, fields ckey ≠ none → ckey ∈ comps
  rank : String → Nat
  earlier : ∀ tname other, .typedef other ∈ (body tname).names → rank other < rank tname

variable (file : TypeFile)

def unrollFrom : Nat → Typ → Typ
  | steps + 1, .named tname => unrollFrom steps (file.body tname)
  | _, typ => typ

/-- The typedefs at the head of a type are replaced by their bodies. -/
def unrollNode : Typ → Typ
  | .named tname => unrollFrom file (file.rank tname + 1) (.named tname)
  | typ => typ

/-- The composites and the typedefs are marked before they are listed. -/
structure Collected where
  compKeys : List Nat := []
  enumNames : List String := []
  typeNames : List String := []
  comps : List Nat := []
  enums : List String := []
  types : List String := []
  deriving Repr, DecidableEq

def collectEnum (ename : String) (col : Collected) : Collected :=
  if col.enumNames.contains ename then col
  else { col with enumNames := ename :: col.enumNames, enums := ename :: col.enums }

section Walk

-- The recursive calls go to the whole walk.
variable (collect : Typ → Collected → Option Collected)

def collectAll (types : List Typ) (col : Collected) : Option Collected :=
  types.foldlM (fun col typ => collect typ col) col

/-- The declaration of a typedef is kept, and a built-in typedef has none. -/
def collectNamed : Typ → Collected → Option Collected
  | .named tname, col =>
      if col.typeNames.contains tname then some col
      else (collect (file.body tname) { col with typeNames := tname :: col.typeNames }).map
        fun col => if file.hasGlobal tname then { col with types := tname :: col.types } else col
  | _, col => some col

/-- The fields of a composite are collected before the composite is listed. -/
def collectNode : Typ → Collected → Option Collected
  | .comp ckey, col =>
      if col.compKeys.contains ckey then some col
      else (collectAll collect ((file.fields ckey).getD [])
        { col with compKeys := ckey :: col.compKeys }).map
        fun col => { col with comps := ckey :: col.comps }
  | .enum ename, col => some (collectEnum ename col)
  | .named _, col => some col
  | .ptr target, col => collect target col
  | .array elem, col => collect elem col
  | .fn result params, col => (collect result col).bind (collectAll collect params)
  | .scalar, col => some col

end Walk

/-- A typedef is collected by its name before the type is unrolled. -/
def collectType : Nat → Typ → Collected → Option Collected
  | 0, _, _ => none
  | steps + 1, typ, col =>
      (collectNamed file (collectType steps) typ col).bind
        (collectNode file (collectType steps) (unrollNode file typ))

end FramaCMcp.Extraction

namespace FramaCMcp.CalleeCollection

inductive Assigns where
  | writesAny
  | writes
  deriving DecidableEq, Repr

/-- The mentions are the variables in the terms of the contract. -/
structure Spec where
  isEmpty : Bool
  behaviors : List Assigns
  mentions : List Nat
  deriving DecidableEq, Repr

def Spec.none : Spec := ⟨true, [], []⟩

def Spec.hasAssigns (spec : Spec) : Bool := spec.behaviors.any (· == .writes)

/-- A visitor meets a left value over a variable or a variable on its own. -/
inductive Visit where
  | lval (vid : Nat)
  | vrbl (vid : Nat)

/-- The visits of an initializer stand in the order in which the kernel makes them. -/
inductive Global where
  | var (vid : Nat) (init : Option (List Visit))
  | varDecl (vid : Nat)
  | funDecl (vid : Nat)
  | function (vid : Nat)
  | annot (mentions : List Nat)

/-- A declaration and a definition of a function hold its variable. -/
def Global.functionVid : Global → Option Nat
  | .funDecl vid => some vid
  | .function vid => some vid
  | _ => none

structure KernelFunction where
  vid : Nat
  isDefinition : Bool
  spec : Spec

/-- The number of a variable gives its name and its type. -/
structure CilFile where
  vname : Nat → String
  vglob : Nat → Bool
  isFun : Nat → Bool
  globals : List Global
  functions : List KernelFunction

/-- This function is extracted. -/
structure Target where
  vid : Nat
  spec : Spec
  body : List Visit

inductive FunGlobal where
  | decl (spec : Spec) (vid : Nat)
  | function (vid : Nat) (empty : Bool)
  deriving DecidableEq, Repr

def FunGlobal.vid : FunGlobal → Nat
  | .decl _ vid => vid
  | .function vid _ => vid

structure Collected where
  varVids : List Nat := []
  funVids : List Nat := []
  varDeclVids : List Nat := []
  funDeclVids : List Nat := []
  funs : List FunGlobal := []
  deriving DecidableEq, Repr

def mark (vid : Nat) (vids : List Nat) : List Nat := if vids.contains vid then vids else vid :: vids

section Contracts

variable (file : CilFile)

def collectAcslVarinfo (vid : Nat) (col : Collected) : Collected :=
  if file.vglob vid then
    if file.isFun vid then { col with funDeclVids := mark vid col.funDeclVids }
    else { col with varDeclVids := mark vid col.varDeclVids }
  else col

def collectMentions (mentions : List Nat) (col : Collected) : Collected :=
  mentions.foldl (fun col vid => collectAcslVarinfo file vid col) col

def collectFunspec (spec : Spec) (col : Collected) : Collected :=
  if spec.isEmpty then col else collectMentions file spec.mentions col

def collectGlobalAnnotations (col : Collected) : Collected :=
  file.globals.foldl (fun col global => match global with
    | .annot mentions => collectMentions file mentions col
    | _ => col) col

end Contracts

section Emission

variable (file : CilFile)

/-- The table is searched by the number of the variable and then by its name. -/
def resolveCallee (vid : Nat) : Option KernelFunction :=
  match file.functions.find? fun kf => kf.vid == vid with
  | some kf => some kf
  | none => file.functions.find? fun kf => file.vname kf.vid == file.vname vid

/-- The contract stands before a body without statements. -/
def emitEmptyStub (spec : Spec) (vid : Nat) (col : Collected) : Collected :=
  let funs := if spec.isEmpty then col.funs else .decl spec vid :: col.funs
  { col with funs := .function vid true :: funs }

/-- A callee of the body goes out as it is where its contract has an assigns clause. -/
def collectCallee (vid : Nat) (col : Collected) : Collected :=
  match resolveCallee file vid with
  | none => col
  | some kf =>
      let col := collectFunspec file kf.spec col
      if kf.spec.hasAssigns then
        if kf.isDefinition then { col with funs := .function kf.vid false :: col.funs }
        else { col with funs := .decl kf.spec kf.vid :: col.funs }
      else emitEmptyStub kf.spec kf.vid col

/-- A function in an initializer is declared where it is not defined. -/
def collectInitCallee (vid : Nat) (col : Collected) : Collected :=
  match resolveCallee file vid with
  | some kf =>
      let col := collectFunspec file kf.spec col
      if kf.isDefinition then emitEmptyStub kf.spec kf.vid col
      else { col with funs := .decl kf.spec kf.vid :: col.funs }
  | none => { col with funs := .decl .none vid :: col.funs }

/-- Both visitors emit a function once. -/
def collectOnce (emit : Nat → Collected → Collected) (vid : Nat) (col : Collected) : Collected :=
  if col.funVids.contains vid then col
  else emit vid { col with funVids := vid :: col.funVids }

end Emission

section Visitors

variable (file : CilFile) (target : Nat)

def findGlobalVar (vid : Nat) : Option Global :=
  file.globals.find? fun global => match global with
    | .var other _ => other == vid
    | .varDecl other => other == vid
    | _ => false

def collectGlobalVar (visitInit : List Visit → Collected → Option Collected) (vid : Nat)
    (col : Collected) : Option Collected :=
  if col.varVids.contains vid then some col
  else
    let col := { col with varVids := vid :: col.varVids }
    match findGlobalVar file vid with
    | some (.var _ (some init)) => visitInit init col
    | _ => some col

def collectInitVisit (visitInit : List Visit → Collected → Option Collected) :
    Visit → Collected → Option Collected
  | .lval vid, col =>
      if file.vglob vid && vid != target && file.isFun vid then
        some (collectOnce (collectInitCallee file) vid col)
      else if file.vglob vid && vid != target then collectGlobalVar file visitInit vid col
      else some col
  | .vrbl _, col => some col

def collectInit : Nat → List Visit → Collected → Option Collected
  | 0, _, _ => none
  | steps + 1, init, col =>
      init.foldlM (fun col visit => collectInitVisit file target (collectInit steps) visit col) col

def collectVisit (visitInit : List Visit → Collected → Option Collected) :
    Visit → Collected → Option Collected
  | .vrbl vid, col =>
      if file.vglob vid && file.isFun vid && vid != target then
        some (collectOnce (collectCallee file) vid col)
      else some col
  | .lval vid, col =>
      if file.vglob vid && file.isFun vid && vid != target then
        some (collectOnce (collectCallee file) vid col)
      else if file.vglob vid then collectGlobalVar file visitInit vid col
      else some col

def collectBody (steps : Nat) (body : List Visit) (col : Collected) : Option Collected :=
  body.foldlM (fun col visit => collectVisit file target (collectInit file target steps) visit col)
    col

end Visitors

/-- The emitted functions and the functions that only contracts mention are declared once. -/
def declaredVids (file : CilFile) (col : Collected) : List Nat :=
  let calleeDecls := col.funs.foldl (fun vids emitted => mark emitted.vid vids) []
  file.globals.foldl (fun vids global => match global.functionVid with
    | some vid => if col.funDeclVids.contains vid then mark vid vids else vids
    | none => vids) calleeDecls

/-- These functions are written out. The target is the last one. -/
def generateOutput (file : CilFile) (col : Collected) (target : Nat) : List FunGlobal :=
  (declaredVids file col).reverse.map (.decl .none) ++ col.funs.reverse ++ [.function target false]

def extract (file : CilFile) (target : Target) (steps : Nat) : Option (List FunGlobal) :=
  (collectBody file target.vid steps target.body
    (collectFunspec file target.spec (collectGlobalAnnotations file {}))).map
    fun col => generateOutput file col target.vid

end FramaCMcp.CalleeCollection
