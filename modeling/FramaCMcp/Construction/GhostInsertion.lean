/-
This file gives the insertions of ghost code into the program that the kernel holds, and states
when the file of the kernel is well formed.
-/

import FramaCMcp.Construction.GhostEdits

namespace FramaCMcp.Ghost

open Cil

inductive Global where
  | gvar (vi : Varinfo) (init : Option Exp)
  | gvarDecl (vi : Varinfo)
  | gfun (fundec : Fundec)
  | gfunDecl (vi : Varinfo) (formals : List Varinfo) (variadic : Bool)
  | other (text : String)

/-- The tables of the kernel follow the globals of the file, and its counters give new numbers. -/
structure Ast where
  globals : List Global
  nextVid : Nat
  nextSid : Nat

namespace Global

def fundec? : Global → Option Fundec
  | .gfun fundec => some fundec
  | _ => none

def var? : Global → Option Varinfo
  | .gvar vi _ => some vi
  | .gvarDecl vi => some vi
  | _ => none

def function? : Global → Option Varinfo
  | .gfun fundec => some fundec.svar
  | .gfunDecl vi _ _ => some vi
  | _ => none

end Global

def fundecs (globals : List Global) : List Fundec := globals.filterMap Global.fundec?

namespace Ast

/-- The function whose body is asked for is defined once. -/
def getDefinition (ast : Ast) (kf : Varinfo) : Option Fundec :=
  (fundecs ast.globals).find? fun fundec => fundec.svar.vid == kf.vid

def findGlobalVar (ast : Ast) (name : String) : Option Varinfo :=
  (ast.globals.filterMap Global.var?).find? fun vi => vi.vname == name

def findFunction (ast : Ast) (name : String) : Option Varinfo :=
  (ast.globals.filterMap Global.function?).find? fun vi => vi.vname == name

def updateFundec (ast : Ast) (kf : Varinfo) (edit : Fundec → Fundec) : Ast :=
  { ast with globals := ast.globals.map fun global =>
      match global with
      | .gfun fundec => .gfun (if fundec.svar.vid = kf.vid then edit fundec else fundec)
      | other => other }

/-- A new variable and new statements take the next numbers. -/
def advance (ast : Ast) (vids sids : Nat) : Ast :=
  { ast with nextVid := ast.nextVid + vids, nextSid := ast.nextSid + sids }

end Ast

/-- An answer of the kernel is an acceptance, an error with a message, or an exception. -/
inductive Answer where
  | accepted
  | refused (message : String)
  | raised (exception : String)
  deriving DecidableEq, Repr

/-- The kernel knows the types, places a new formal among the others, and types annotations. A
formal is put somewhere among those that are there. -/
class Kernel where
  typeOf : Exp → Typ
  makeFormalVar : List Varinfo → Varinfo → String → Except String (List Varinfo)
  makeFormalVar_ok : ∀ formals vi place new, makeFormalVar formals vi place = .ok new →
    ∃ before after, formals = before ++ after ∧ new = before ++ vi :: after
  typeSpec : Ast → Varinfo → String → Except String Unit
  insertSpec : Ast → Varinfo → String → Answer
  typeAnnot : Ast → Varinfo → Nat → String → Except String Unit
  insertAnnots : Ast → Varinfo → Nat → String → Except String Unit

/-- A statement is known by its number and its line. -/
structure StmtRef where
  sid : Nat
  line : Nat

structure LemmaFunction where
  name : String
  paramName : String
  paramTyp : Typ
  requires : String
  decreases : String
  assigns : String
  ensures : String

structure GhostLoop where
  varName : String
  typ : Typ
  initExp : Exp
  stopExp : Exp
  stepExp : Exp
  invariant : String
  assigns : String
  variant : String
  assertPred : String

inductive Insertion where
  | global (name : String) (typ : Typ) (init : Option Exp)
  | lemmaFunction (spec : LemmaFunction)
  | formal (kf : Varinfo) (name : String) (typ : Typ) (place : String)
  | decl (kf : Varinfo) (stmt : StmtRef) (varName : String) (typ : Typ) (initExp : Exp)
  | assign (kf : Varinfo) (stmt : StmtRef) (targetName : String) (expr : Exp)
  | elseAssign (kf : Varinfo) (ifStmt : StmtRef) (targetName : String) (expr : Exp)
  | loop (kf : Varinfo) (stmt : StmtRef) (loop : GhostLoop)
  | label (kf : Varinfo) (stmt : StmtRef) (labelName : String)

/-- A success names the variable or the statements that are new. -/
inductive Inserted where
  | variable (vid : Nat)
  | stmt (sid : Nat)
  | loop (blockSid loopSid counterVid : Nat) (sids : List Nat)
  deriving DecidableEq, Repr

abbrev Outcome := Except String Inserted × Ast

def noDefinition (kf : Varinfo) : String := "function '" ++ kf.vname ++ "' has no definition"

def stmtNotFound (stmt : StmtRef) : String :=
  "statement " ++ toString stmt.sid ++ " not found in function body"

def alreadyExists (kind name : String) : String := kind ++ " '" ++ name ++ "' already exists"

def isLocalOrFormal (fundec : Fundec) (name : String) : Bool :=
  (fundec.slocals.any fun vi => vi.vname == name) || fundec.sformals.any fun vi => vi.vname == name

/-- A ghost statement of one instruction has a new number. -/
def ghostInstr (sid : Nat) (instr : Instr) : Stmt := .instr { sid := sid, ghost := true } instr

def insertGhostGlobal (ast : Ast) (name : String) (typ : Typ) (init : Option Exp) : Outcome :=
  if !isValidCIdentifier name then (.error ("invalid global name '" ++ name ++ "'"), ast)
  else if (ast.findGlobalVar name).isSome then (.error (alreadyExists "global" name), ast)
  else
    let vi : Varinfo := { vid := ast.nextVid, vname := name, vtype := typ, vglob := true,
                          vghost := true, vdefined := true }
    (.ok (.variable vi.vid),
      { ast.advance 1 0 with globals := ast.globals ++ [.gvar vi init] })

section Kernel

variable [Kernel]

def castTo (typ : Typ) (exp : Exp) : Exp :=
  if Kernel.typeOf exp = typ then exp else .unary (.cast typ) exp

/-- The lemma calls itself with the smaller argument while the argument is positive. -/
def lemmaFundec (ast : Ast) (spec : LemmaFunction) : Fundec :=
  let vi : Varinfo := { vid := ast.nextVid, vname := spec.name, vglob := true, vghost := true,
                        vtype := "void (" ++ spec.paramTyp ++ ")", vdefined := true }
  let param : Varinfo := { vid := ast.nextVid + 1, vname := spec.paramName, vtype := spec.paramTyp,
                           vghost := true }
  let callStmt := ghostInstr ast.nextSid
    (.call none (.var vi) [.binary .minusA (.evar param) (.const "1")] 0)
  let ifStmt := .branch { sid := ast.nextSid + 1, ghost := true }
    (.binary .gt (.evar param) (.const "0")) (.mk [] [callStmt]) (.mk [] [])
  let returnStmt := .jump { sid := ast.nextSid + 2, ghost := true } "return"
  { svar := vi, sformals := [param], slocals := [], sbody := .mk [] [ifStmt, returnStmt] }

/-- The function stands at the end of the file. -/
def addLemma (ast : Ast) (spec : LemmaFunction) : Ast :=
  { ast.advance 2 3 with globals := ast.globals ++ [.gfun (lemmaFundec ast spec)] }

def isFunction (vid : Nat) (global : Global) : Bool :=
  global.function?.any fun vi => vi.vid == vid

/-- The rollback takes the function out of the file again. -/
def rollbackLemma (ast : Ast) (vid : Nat) : Ast :=
  { ast with globals := ast.globals.filter fun global => !isFunction vid global }

def lemmaContract (spec : LemmaFunction) : String :=
  "requires " ++ spec.requires ++ "; decreases " ++ spec.decreases ++
    "; assigns " ++ spec.assigns ++ "; ensures " ++ spec.ensures ++ ";"

def insertGhostLemmaFunction (ast : Ast) (spec : LemmaFunction) : Outcome :=
  if !isValidCIdentifier spec.name then
    (.error ("invalid function name '" ++ spec.name ++ "'"), ast)
  else if !isValidCIdentifier spec.paramName then
    (.error ("invalid parameter name '" ++ spec.paramName ++ "'"), ast)
  else if (ast.findFunction spec.name).isSome then
    (.error (alreadyExists "function" spec.name), ast)
  else if (ast.findGlobalVar spec.name).isSome then
    (.error (alreadyExists "global" spec.name), ast)
  else
    let vi := (lemmaFundec ast spec).svar
    match Kernel.typeSpec (addLemma ast spec) vi (lemmaContract spec) with
    | .error message => (.error message, rollbackLemma (addLemma ast spec) vi.vid)
    | .ok () =>
        match Kernel.insertSpec (addLemma ast spec) vi (lemmaContract spec) with
        | .refused message => (.error message, rollbackLemma (addLemma ast spec) vi.vid)
        | .raised exception => (.error exception, addLemma ast spec)
        | .accepted => (.ok (.variable vi.vid), addLemma ast spec)

def insertGhostFormal (ast : Ast) (kf : Varinfo) (name : String) (typ : Typ) (place : String) :
    Outcome :=
  if !isValidCIdentifier name then (.error ("invalid formal name '" ++ name ++ "'"), ast)
  else match ast.getDefinition kf with
    | none => (.error (noDefinition kf), ast)
    | some fundec =>
        if isLocalOrFormal fundec name then (.error (alreadyExists "variable" name), ast)
        else
          let vi : Varinfo := { vid := ast.nextVid, vname := name, vtype := typ, vghost := true }
          match Kernel.makeFormalVar fundec.sformals vi place with
          | .error exception => (.error exception, ast.advance 1 0)
          | .ok formals => (.ok (.variable vi.vid), (ast.advance 1 0).updateFundec kf fun fundec =>
              { fundec with sformals := formals })

/-- A body edit puts the new body in place and lists the new local. -/
def commitBodyEdit (ast : Ast) (kf : Varinfo) (body : Block) (locals : List Varinfo) : Ast :=
  ast.updateFundec kf fun fundec =>
    { fundec with sbody := body, slocals := fundec.slocals ++ locals }

def insertGhostDecl (ast : Ast) (kf : Varinfo) (stmt : StmtRef) (varName : String) (typ : Typ)
    (initExp : Exp) : Outcome :=
  match ast.getDefinition kf with
  | none => (.error (noDefinition kf), ast)
  | some fundec =>
      if isLocalOrFormal fundec varName then (.error (alreadyExists "variable" varName), ast)
      else
        let vi : Varinfo := { vid := ast.nextVid, vname := varName, vtype := typ, vghost := true,
                              vdefined := true }
        let newStmt := ghostInstr ast.nextSid
          (.localInit vi (.assignInit [castTo typ initExp]) stmt.line)
        match insertInBlock stmt.sid newStmt [vi] fundec.sbody with
        | none => (.error (stmtNotFound stmt), ast.advance 1 1)
        | some body => (.ok (.stmt newStmt.sid), commitBodyEdit (ast.advance 1 1) kf body [vi])

def ghostTarget (ast : Ast) (fundec : Fundec) (stmt : StmtRef) (targetName : String) :
    Except String Varinfo := do
  let vi ← findVarInScope (ast.globals.filterMap Global.var?) fundec stmt.sid targetName
  if vi.vghost then return vi
  else throw ("variable '" ++ targetName ++ "' is not a ghost variable")

def setStmt (ast : Ast) (vi : Varinfo) (expr : Exp) (line : Nat) : Stmt :=
  ghostInstr ast.nextSid (.set (.ofVar vi) (castTo vi.vtype expr) line)

def insertGhostAssign (ast : Ast) (kf : Varinfo) (stmt : StmtRef) (targetName : String)
    (expr : Exp) : Outcome :=
  match ast.getDefinition kf with
  | none => (.error (noDefinition kf), ast)
  | some fundec =>
      match ghostTarget ast fundec stmt targetName with
      | .error message => (.error message, ast)
      | .ok vi =>
          let newStmt := setStmt ast vi expr stmt.line
          match insertInBlock stmt.sid newStmt [] fundec.sbody with
          | none => (.error (stmtNotFound stmt), ast.advance 0 1)
          | some body => (.ok (.stmt newStmt.sid), commitBodyEdit (ast.advance 0 1) kf body [])

def insertGhostElseAssign (ast : Ast) (kf : Varinfo) (ifStmt : StmtRef) (targetName : String)
    (expr : Exp) : Outcome :=
  match ast.getDefinition kf with
  | none => (.error (noDefinition kf), ast)
  | some fundec =>
      match fundec.sbody.find ifStmt.sid with
      | none => (.error ("statement " ++ toString ifStmt.sid ++ " not found"), ast)
      | some (.branch _ _ _ _) =>
          match ghostTarget ast fundec ifStmt targetName with
          | .error message => (.error message, ast)
          | .ok vi =>
              let newStmt := setStmt ast vi expr ifStmt.line
              match fillElse ifStmt.sid newStmt fundec.sbody with
              | none =>
                  (.error "else_set requires an if statement with an empty else branch", ast)
              | some body => (.ok (.stmt newStmt.sid), commitBodyEdit (ast.advance 0 1) kf body [])
      | some _ => (.error "else_set target statement must be an if", ast)

/-- The kernel builds a loop that leaves through a break where its guard is false. -/
def mkFor (sid : Nat) (guard : Exp) (next : List Stmt) (line : Nat) : List Stmt :=
  [.loop { sid := sid + 3 } (.mk []
    (.branch { sid := sid + 2 } guard (.mk [] [.instr { sid := sid } (.skip line)])
      (.mk [] [.jump { sid := sid + 1 } "break"]) :: next))]

/-- These are the statements of a ghost loop with their numbers. -/
structure LoopCode where
  vi : Varinfo
  loopSid : Nat
  assertSid : Nat
  block : Stmt

def loopCode (ast : Ast) (line : Nat) (loop : GhostLoop) : LoopCode :=
  let vi : Varinfo := { vid := ast.nextVid, vname := loop.varName, vtype := loop.typ,
                        vghost := true, vdefined := true }
  let initStmt := ghostInstr ast.nextSid
    (.localInit vi (.assignInit [castTo loop.typ loop.initExp]) line)
  let next := ghostInstr (ast.nextSid + 1)
    (.set (.ofVar vi) (.binary .plusA (.evar vi) (castTo loop.typ loop.stepExp)) line)
  let loopStmts := mkFor (ast.nextSid + 2)
    (.binary .lt (.evar vi) (castTo loop.typ loop.stopExp)) [next] line
  let postAssert := if trim loop.assertPred = "" then []
    else [ghostInstr (ast.nextSid + 6) (.skip line)]
  { vi := vi
    loopSid := ast.nextSid + 5
    assertSid := ast.nextSid + 6
    block := forceStmtGhost (.block { sid := ast.nextSid + 7, ghost := true }
      (.mk [vi] (initStmt :: (loopStmts ++ postAssert)))) }

/-- Both annotations are typed before one of them is inserted. -/
def typeLoopAnnots (ast : Ast) (kf : Varinfo) (code : LoopCode) (loop : GhostLoop) :
    Except String Unit := do
  Kernel.typeAnnot ast kf code.loopSid ("loop invariant " ++ loop.invariant ++
    "; loop assigns " ++ loop.assigns ++ "; loop variant " ++ loop.variant ++ ";")
  if trim loop.assertPred ≠ "" then
    Kernel.typeAnnot ast kf code.assertSid ("assert " ++ trim loop.assertPred ++ ";")

def insertLoopAnnots (ast : Ast) (kf : Varinfo) (code : LoopCode) (loop : GhostLoop) :
    Except String Unit := do
  Kernel.insertAnnots ast kf code.loopSid ("loop invariant " ++ loop.invariant ++
    "; loop assigns " ++ loop.assigns ++ "; loop variant " ++ loop.variant ++ ";")
  if trim loop.assertPred ≠ "" then
    Kernel.insertAnnots ast kf code.assertSid ("assert " ++ trim loop.assertPred ++ ";")

def placeLoop (ast : Ast) (kf : Varinfo) (fundec : Fundec) (stmt : StmtRef) (code : LoopCode) :
    Option Ast :=
  (insertInBlock stmt.sid code.block [] fundec.sbody).map fun body =>
    commitBodyEdit (ast.advance 1 8) kf body [code.vi]

/-- The removal undoes the insertion and takes the counter out of the locals. -/
def rollbackLoop (ast : Ast) (kf : Varinfo) (code : LoopCode) : Ast :=
  ast.updateFundec kf fun fundec =>
    { fundec with
      sbody := removeFromBlock [code.block.sid] fundec.sbody
      slocals := fundec.slocals.filter fun vi => vi.vid ≠ code.vi.vid }

def insertGhostLoop (ast : Ast) (kf : Varinfo) (stmt : StmtRef) (loop : GhostLoop) : Outcome :=
  match ast.getDefinition kf with
  | none => (.error (noDefinition kf), ast)
  | some fundec =>
      if !isValidCIdentifier loop.varName then
        (.error ("invalid loop variable name '" ++ loop.varName ++ "'"), ast)
      else if isLocalOrFormal fundec loop.varName then
        (.error (alreadyExists "variable" loop.varName), ast)
      else
        let code := loopCode ast stmt.line loop
        match placeLoop ast kf fundec stmt code with
        | none => (.error (stmtNotFound stmt), ast.advance 1 8)
        | some edited =>
            match typeLoopAnnots edited kf code loop with
            | .error message => (.error message, rollbackLoop edited kf code)
            | .ok () =>
                match insertLoopAnnots edited kf code loop with
                | .error exception => (.error exception, edited)
                | .ok () => (.ok (.loop code.block.sid code.loopSid code.vi.vid
                    ((code.block.nodes []).map fun node => node.info.sid)), edited)

def insertGhostLabel (ast : Ast) (kf : Varinfo) (stmt : StmtRef) (labelName : String) : Outcome :=
  match ast.getDefinition kf with
  | none => (.error (noDefinition kf), ast)
  | some fundec =>
      if !isValidCIdentifier labelName then
        (.error ("invalid label name '" ++ labelName ++ "'"), ast)
      else if isReservedLogicLabel labelName then
        (.error ("reserved logic label '" ++ labelName ++ "'"), ast)
      else if fundec.sbody.findAllLabels.contains labelName then
        (.error (alreadyExists "label" labelName), ast)
      else
        let newStmt := Stmt.instr
          { sid := ast.nextSid, ghost := true, labels := [labelName] } (.skip stmt.line)
        match insertInBlock stmt.sid newStmt [] fundec.sbody with
        | none => (.error (stmtNotFound stmt), ast.advance 0 1)
        | some body => (.ok (.stmt newStmt.sid), commitBodyEdit (ast.advance 0 1) kf body [])

def insert (ast : Ast) : Insertion → Outcome
  | .global name typ init => insertGhostGlobal ast name typ init
  | .lemmaFunction spec => insertGhostLemmaFunction ast spec
  | .formal kf name typ place => insertGhostFormal ast kf name typ place
  | .decl kf stmt varName typ initExp => insertGhostDecl ast kf stmt varName typ initExp
  | .assign kf stmt targetName expr => insertGhostAssign ast kf stmt targetName expr
  | .elseAssign kf ifStmt targetName expr => insertGhostElseAssign ast kf ifStmt targetName expr
  | .loop kf stmt loop => insertGhostLoop ast kf stmt loop
  | .label kf stmt labelName => insertGhostLabel ast kf stmt labelName

end Kernel

end FramaCMcp.Ghost

namespace FramaCMcp.Ghost

open Cil

/-- A variadic function takes further arguments. -/
structure Arity where
  formals : Nat
  variadic : Bool
  deriving DecidableEq, Repr

def Arity.Fits (arity : Arity) (arguments : Nat) : Prop :=
  if arity.variadic then arity.formals ≤ arguments else arguments = arity.formals

instance (arity : Arity) (arguments : Nat) : Decidable (arity.Fits arguments) :=
  inferInstanceAs (Decidable (if arity.variadic then _ else _))

def fundecArity (fundec : Fundec) : Arity := ⟨fundec.sformals.length, fundec.variadic⟩

def declaredArity (vid : Nat) : Global → Option Arity
  | .gfunDecl vi formals variadic => if vi.vid = vid then some ⟨formals.length, variadic⟩ else none
  | _ => none

/-- The definition of a function gives its formals before its declarations do. -/
def arityOf (globals : List Global) (vid : Nat) : Option Arity :=
  (((fundecs globals).find? fun fundec => fundec.svar.vid == vid).map fundecArity).or
    (globals.findSome? (declaredArity vid))

def nodeCalls (nodes : List Node) : List CallSite :=
  nodes.filterMap fun node => node.instr.bind Instr.callSite

def bodyCalls (body : Block) : List CallSite := nodeCalls body.nodes

def fileCalls (globals : List Global) : List CallSite :=
  (fundecs globals).flatMap fun fundec => bodyCalls fundec.sbody

def fileSids (globals : List Global) : List Nat :=
  (fundecs globals).flatMap fun fundec => fundec.sbody.sids

def ListedOnce (vars : List Varinfo) (vi : Varinfo) : Prop := (vars.map Varinfo.vid).count vi.vid = 1

instance (vars : List Varinfo) (vi : Varinfo) : Decidable (ListedOnce vars vi) :=
  inferInstanceAs (Decidable (_ = _))

/-- An initialized local is among the locals of the function and among those of its block. -/
def NodeListed (slocals : List Varinfo) (node : Node) : Prop :=
  ∀ vi ∈ node.instr.bind Instr.initializedVar, ListedOnce slocals vi ∧ ListedOnce node.blocals vi

def FundecListed (fundec : Fundec) : Prop :=
  ∀ node ∈ fundec.sbody.nodes, NodeListed fundec.slocals node

def CallFits (globals : List Global) (site : CallSite) : Prop :=
  ∀ arity ∈ arityOf globals site.callee.vid, arity.Fits site.actuals.length

structure WellFormed (globals : List Global) : Prop where
  sids : (fileSids globals).Nodup
  locals : ∀ fundec ∈ fundecs globals, FundecListed fundec
  calls : ∀ site ∈ fileCalls globals, CallFits globals site

def withoutGhosts (vars : List Varinfo) : List Varinfo := vars.filter fun vi => !vi.vghost

def eraseFundec (fundec : Fundec) : Fundec :=
  { fundec with
    sformals := withoutGhosts fundec.sformals
    slocals := withoutGhosts fundec.slocals
    sbody := fundec.sbody.eraseGhost }

def eraseGlobal : Global → Option Global
  | .gvar vi init => if vi.vghost then none else some (.gvar vi init)
  | .gvarDecl vi => if vi.vghost then none else some (.gvarDecl vi)
  | .gfun fundec => if fundec.svar.vghost then none else some (.gfun (eraseFundec fundec))
  | .gfunDecl vi formals variadic =>
      if vi.vghost then none else some (.gfunDecl vi (withoutGhosts formals) variadic)
  | .other text => some (.other text)

def eraseFile (globals : List Global) : List Global := globals.filterMap eraseGlobal

/-- The kernel has given all numbers below its counters, and it defines no function twice. -/
structure Numbered (ast : Ast) : Prop where
  definitions : ((fundecs ast.globals).map fun fundec => fundec.svar.vid).Nodup
  sids : ∀ fundec ∈ fundecs ast.globals, ∀ sid ∈ fundec.sbody.sids, sid < ast.nextSid
  locals : ∀ fundec ∈ fundecs ast.globals, ∀ vi ∈ fundec.slocals ++ fundec.sbody.scopes,
    vi.vid < ast.nextVid
  functions : ∀ vi ∈ ast.globals.filterMap Global.function?, vi.vid < ast.nextVid
  callees : ∀ site ∈ fileCalls ast.globals, site.callee.vid < ast.nextVid

structure Checked (ast : Ast) : Prop extends Numbered ast where
  wellFormed : WellFormed ast.globals

/-- A file that is not well formed or not numbered is never built. -/
structure CheckedFile where
  ast : Ast
  checked : Checked ast

end FramaCMcp.Ghost
