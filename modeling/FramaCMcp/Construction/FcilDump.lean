/-
This file gives the dump of a project for other tools, and the ids that it makes up for statements
and enums.
-/

import FramaCMcp.Foundation.Json
import FramaCMcp.Foundation.Numbering

namespace FramaCMcp.Export

section Tables

/-- Statements and enums take no id from the tables of fields, typedefs and labels, which are
`others`. -/
structure IdentTable (Others : Type) where
  enums : Interner
  synthStmtCounter : Nat
  others : Others

variable {Others : Type}

def createIdentTable (others : Others) : IdentTable Others where
  enums := .empty
  synthStmtCounter := 0
  others := others

def enumBase : Int := 2000000

def compBase : Int := 1000000

def synthBase : Int := 6000000

def enumIds (names : List String) (table : IdentTable Others) : List Int × IdentTable Others :=
  let ids := Interner.internAll enumBase table.enums names
  (ids.1, { table with enums := ids.2 })

def synthStmtId (table : IdentTable Others) : Int × IdentTable Others :=
  (synthBase + (table.synthStmtCounter : Int),
    { table with synthStmtCounter := table.synthStmtCounter + 1 })

/-- A piece is a part of a file that holds no statement. Its text has the ids of the enum types that
it meets in order. -/
structure Piece (Others : Type) where
  enums : List String
  json : List Int → Others → Json × Others

def Piece.convert (piece : Piece Others) (table : IdentTable Others) : Json × IdentTable Others :=
  let ids := enumIds piece.enums table
  let built := piece.json ids.1 ids.2.others
  (built.1, { ids.2 with others := built.2 })

def convertAll (pieces : List (Piece Others)) (table : IdentTable Others) :
    List Json × IdentTable Others :=
  match pieces with
  | [] => ([], table)
  | piece :: rest =>
      let first := piece.convert table
      let behind := convertAll rest first.2
      (first.1 :: behind.1, behind.2)

/-- The fields of an object are converted from the right. -/
def convertFields (fields : List (String × Piece Others)) (table : IdentTable Others) :
    List (String × Json) × IdentTable Others :=
  match fields with
  | [] => ([], table)
  | (name, piece) :: rest =>
      let behind := convertFields rest table
      let first := piece.convert behind.2
      ((name, first.1) :: behind.1, first.2)

end Tables

section Statements

variable {Others : Type}

/-- This is the path of fields and indexes to a part of a variable. -/
abbrev Offset := List String

inductive Init (Others : Type) where
  | single (e : Piece Others)
  | compound (items : List (Offset × Init Others))

/-- `lval` gives the part of the initialized variable at an offset. -/
inductive Instr (Others : Type) where
  | set (lv e : Piece Others)
  | call (ret : Option (Piece Others)) (f args : Piece Others)
  | localInit (lval : Offset → Piece Others) (init : Init Others)
  | consInit (vi f args : Piece Others)
  | skip
  | codeAnnot
  | asm (templates outputs inputs clobbers : Piece Others)

/-- These are the parts that each statement has. -/
structure StmtInfo (Others : Type) where
  sid : Int
  loc : Json := .null
  labels : List (Piece Others) := []
  succs : List Int := []
  preds : List Int := []
  annots : List (Piece Others) := []

mutual

inductive Stmt (Others : Type) where
  | mk (info : StmtInfo Others) (skind : StmtKind Others)

/-- The statements of an exception handler are not read. -/
inductive StmtKind (Others : Type) where
  | instr (i : Instr Others)
  | «return» (e : Option (Piece Others))
  | ite (cond : Piece Others) (thenBlock elseBlock : Block Others)
  | loop (body : Block Others)
  | block (b : Block Others)
  | switch (e : Piece Others) (body : Block Others)
  | goto (target : Piece Others)
  | «break»
  | «continue»
  | unspecifiedSequence (seq : List (Stmt Others))
  | handler

inductive Block (Others : Type) where
  | mk (blocals : List (Piece Others)) (bstmts : List (Stmt Others))

end

end Statements

section Output

/-- The tag of a kind comes with the fields that hold no statement. -/
structure Kind where
  tag : String
  fields : List (String × Json) := []
  deriving Inhabited

/-- These are the fields of a converted statement other than its id and its kind. -/
structure Frame where
  loc : Json := .null
  labels : List Json := []
  succs : List Int := []
  preds : List Int := []

/-- A converted statement has up to two fields with statements of their own. -/
inductive StmtJson where
  | leaf (siId : Int) (frame : Frame) (kind : Kind)
  | node (siId : Int) (frame : Frame) (kind : Kind) (name : String) (inner : StmtJson)
  | fork (siId : Int) (frame : Frame) (kind : Kind) (first : String) (left : StmtJson)
      (second : String) (right : StmtJson)
  | skip

/-- The placeholders are no statements. -/
def StmtJson.siIds : StmtJson → List Int
  | .leaf siId _ _ => [siId]
  | .node siId _ _ _ inner => siId :: inner.siIds
  | .fork siId _ _ _ left _ right => siId :: (left.siIds ++ right.siIds)
  | .skip => []

end Output

section Instructions

variable {Others : Type}

mutual

/-- Each value of the initializer comes with its part of the variable. -/
def unfold (lval : Offset → Piece Others) (outerOff : Offset) :
    Init Others → List (Piece Others × Piece Others)
  | .single e => [(lval outerOff, e)]
  | .compound items => unfoldItems lval outerOff items

def unfoldItems (lval : Offset → Piece Others) (outerOff : Offset) :
    List (Offset × Init Others) → List (Piece Others × Piece Others)
  | [] => []
  | (off, sub) :: rest => unfold lval (outerOff ++ off) sub ++ unfoldItems lval outerOff rest

end

def assignFields (assign : Piece Others × Piece Others) : List (String × Piece Others) :=
  [("lv", assign.1), ("rv", assign.2)]

/-- The assignments are converted from the left. -/
def assignJsons (assigns : List (Piece Others × Piece Others)) (table : IdentTable Others) :
    List Kind × IdentTable Others :=
  match assigns with
  | [] => ([], table)
  | assign :: rest =>
      let first := convertFields (assignFields assign) table
      let behind := assignJsons rest first.2
      (⟨"CilSassign", first.1⟩ :: behind.1, behind.2)

def synthSid (sid : Int) (i : Nat) : Int := sid * 10000 + (i : Int)

/-- A layer takes one id for itself and one for its first assignment. -/
def buildSeq (sid : Int) (frame : Frame) (idx : Nat) : Kind → List Kind → StmtJson
  | last, [] => .leaf (synthSid sid idx) frame last
  | head, next :: tail =>
      .fork (synthSid sid idx) frame ⟨"CilSsequence", []⟩
        "s1" (.leaf (synthSid sid (idx + 1)) frame head)
        "s2" (buildSeq sid frame (idx + 2) next tail)

/-- An initializer of several values becomes a chain of assignments. -/
def chainAssigns (sid : Int) (frame : Frame) : List Kind → StmtJson
  | [] => .leaf sid frame ⟨"CilSskip", []⟩
  | [only] => .leaf sid frame only
  | head :: next :: tail =>
      .fork sid frame ⟨"CilSsequence", []⟩
        "s1" (.leaf (synthSid sid 0) { loc := frame.loc } head)
        "s2" (buildSeq sid { loc := frame.loc } 1 next tail)

/-- These instructions become one statement of their own. The result of a call is converted before
the other fields. -/
def Instr.plain : Instr Others →
    Option (String × List (String × Piece Others) × List (String × Piece Others))
  | .set lv e => some ("CilSassign", [], assignFields (lv, e))
  | .call ret f args => some ("CilScall", (ret.map fun lv => ("ret", lv)).toList,
      [("func", f), ("args", args)])
  | .localInit lval (.single e) => some ("CilSassign", [], assignFields (lval [], e))
  | .localInit _ (.compound _) => none
  | .consInit vi f args => some ("CilScall", [], [("ret", vi), ("func", f), ("args", args)])
  | .skip => some ("CilSskip", [], [])
  | .codeAnnot => some ("CilSskip", [], [])
  | .asm templates outputs inputs clobbers => some ("CilSasm", [],
      [("templates", templates), ("outputs", outputs), ("inputs", inputs),
        ("clobbers", clobbers)])

/-- These are the assignments that an initializer of several parts stands for. -/
def Instr.assigns : Instr Others → List (Piece Others × Piece Others)
  | .localInit lval (.compound items) => unfold lval [] (.compound items)
  | _ => []

def convertInstr (sid : Int) (frame : Frame) (i : Instr Others) (table : IdentTable Others) :
    StmtJson × IdentTable Others :=
  match i.plain with
  | some (tag, early, fields) =>
      let first := convertFields early table
      let converted := convertFields fields first.2
      (.leaf sid frame ⟨tag, first.1 ++ converted.1⟩, converted.2)
  | none =>
      let converted := assignJsons i.assigns table
      (chainAssigns sid frame converted.1, converted.2)

end Instructions

section Conversion

variable {Others : Type}

/-- The annotations go around the statement, the last one first. -/
def wrapAnnots (loc : Json) (base : StmtJson × IdentTable Others) :
    List (Piece Others) → StmtJson × IdentTable Others
  | [] => base
  | ca :: rest =>
      let inner := wrapAnnots loc base rest
      let annot := ca.convert inner.2
      let id := synthStmtId annot.2
      (.node id.1 { loc := loc } ⟨"CilSannot", [("annot", annot.1)]⟩ "body" inner.1, id.2)

def convertLeaf (sid : Int) (tag : String) (fields : List (String × Piece Others))
    (frame : Frame) (table : IdentTable Others) : StmtJson × IdentTable Others :=
  let converted := convertFields fields table
  (.leaf sid frame ⟨tag, converted.1⟩, converted.2)

def frameOf (info : StmtInfo Others) (labels : List Json) : Frame where
  loc := info.loc
  labels := labels
  succs := info.succs
  preds := info.preds

mutual

def cilStmtToJson (s : Stmt Others) (table : IdentTable Others) : StmtJson × IdentTable Others :=
  match s with
  | .mk info skind =>
      let labels := convertAll info.labels table
      wrapAnnots info.loc (convertSkind info.sid (frameOf info labels.1) skind labels.2) info.annots

/-- The fields of a statement are converted from the right. -/
def convertSkind (sid : Int) (frame : Frame) (skind : StmtKind Others)
    (table : IdentTable Others) : StmtJson × IdentTable Others :=
  match skind with
  | .instr i => convertInstr sid frame i table
  | .return e => convertLeaf sid "CilSreturn" (e.map fun e => ("e", e)).toList frame table
  | .ite cond thenBlock elseBlock =>
      let selse := blockToStmtJson elseBlock table
      let sthen := blockToStmtJson thenBlock selse.2
      let cond := cond.convert sthen.2
      (.fork sid frame ⟨"CilSifthenelse", [("cond", cond.1)]⟩ "sthen" sthen.1 "selse" selse.1,
        cond.2)
  | .loop body =>
      let body := blockToStmtJson body table
      (.fork sid frame ⟨"CilSloop", []⟩ "body" body.1 "incr" .skip, body.2)
  | .block (.mk blocals bstmts) =>
      let blocals := convertAll blocals table
      let body := stmtsToSequence bstmts blocals.2
      (.node sid frame ⟨"CilSblock", [("blocals", .arr blocals.1)]⟩ "body" body.1, body.2)
  | .switch e body =>
      let body := blockToStmtJson body table
      let e := e.convert body.2
      (.node sid frame ⟨"CilSswitch", [("expr", e.1)]⟩ "body" body.1, e.2)
  | .goto target => convertLeaf sid "CilSgoto" [("target", target)] frame table
  | .break => convertLeaf sid "CilSbreak" [] frame table
  | .continue => convertLeaf sid "CilScontinue" [] frame table
  | .unspecifiedSequence seq =>
      let body := stmtsToSequence seq table
      (.node sid frame ⟨"CilSblock", [("blocals", .arr [])]⟩ "body" body.1, body.2)
  | .handler => convertLeaf sid "CilSskip" [] frame table

def blockToStmtJson (b : Block Others) (table : IdentTable Others) :
    StmtJson × IdentTable Others :=
  match b with
  | .mk blocals bstmts =>
      let body := stmtsToSequence bstmts table
      if blocals.isEmpty then body
      else
        let blocals := convertAll blocals body.2
        let id := synthStmtId blocals.2
        (.node id.1 {} ⟨"CilSblock", [("blocals", .arr blocals.1)]⟩ "body" body.1, id.2)

def stmtsToSequence (stmts : List (Stmt Others)) (table : IdentTable Others) :
    StmtJson × IdentTable Others :=
  match stmts with
  | [] => (.skip, table)
  | [s] => cilStmtToJson s table
  | s :: next :: rest =>
      let s1 := cilStmtToJson s table
      let s2 := stmtsToSequence (next :: rest) s1.2
      let id := synthStmtId s2.2
      (.fork id.1 {} ⟨"CilSsequence", []⟩ "s1" s1.1 "s2" s2.1, id.2)

end

end Conversion

section Globals

variable {Others : Type}

structure Compinfo (Others : Type) where
  ckey : Int
  cstruct : Bool
  cfields : Option (List (Piece Others))
  cattr : Json

structure Enumitem where
  einame : String
  eival : Int

structure Enuminfo where
  ename : String
  eitems : List Enumitem
  ekind : String
  eattr : Json

structure CompositeJson where
  ccId : Int
  isStruct : Bool
  fields : List Json
  attr : Json

structure EnumJson where
  ceId : Int
  ik : String
  items : List (Int × Int)
  attr : Json

def compositeToJson (ci : Compinfo Others) (table : IdentTable Others) :
    CompositeJson × IdentTable Others :=
  let fields := convertAll (ci.cfields.getD []) table
  (⟨compBase + ci.ckey, ci.cstruct, fields.1, ci.cattr⟩, fields.2)

/-- The names of the items and the tag of the enum go into one table. -/
def enumToJson (ei : Enuminfo) (table : IdentTable Others) : EnumJson × IdentTable Others :=
  let items := enumIds (ei.eitems.map Enumitem.einame) table
  let id := Interner.intern enumBase items.2.enums ei.ename
  (⟨id.1, ei.ekind, items.1.zip (ei.eitems.map Enumitem.eival), ei.eattr⟩,
    { items.2 with enums := id.2 })

structure Fundec (Others : Type) where
  vid : Int
  returnType : Piece Others
  params : Piece Others
  vars : Piece Others
  body : Block Others
  storage : String
  inline : Bool
  contract : Piece Others
  loc : Json

inductive Global (Others : Type) where
  | compTag (ci : Compinfo Others)
  | compTagDecl (ci : Compinfo Others)
  | enumTag (ei : Enuminfo)
  | enumTagDecl (ei : Enuminfo)
  | var (vid : Int) (var : Piece Others)
  | «fun» (fundec : Fundec Others)
  | funDecl (vid : Int) (isFun : Bool) (decl : Piece Others)
  | varDecl (vid : Int) (decl : Piece Others)
  | unread

structure InternalFun where
  returnType : Json
  params : Json
  vars : Json
  body : StmtJson
  storage : String
  inline : Bool
  contract : Json
  loc : Json

inductive Definition where
  | gvar (var : Json)
  | internal (func : InternalFun)
  | external (decl : Json)

def Definition.siIds : Definition → List Int
  | .internal func => func.body.siIds
  | .gvar _ | .external _ => []

/-- The fields of the record are converted from the right. -/
def internalFunToJson (fundec : Fundec Others) (table : IdentTable Others) :
    Definition × IdentTable Others :=
  let contract := fundec.contract.convert table
  let body := blockToStmtJson fundec.body contract.2
  let vars := fundec.vars.convert body.2
  let params := fundec.params.convert vars.2
  let returnType := fundec.returnType.convert params.2
  (.internal ⟨returnType.1, params.1, vars.1, body.1, fundec.storage, fundec.inline, contract.1,
    fundec.loc⟩, returnType.2)

/-- The lists have their newest entry in front. -/
structure Dump (Others : Type) where
  table : IdentTable Others
  composites : List CompositeJson := []
  enums : List EnumJson := []
  progDefs : List (Int × Definition) := []
  definedFuncIds : List Int := []
  definedVarIds : List Int := []

def dumpComposite (dump : Dump Others) (ci : Compinfo Others) : Dump Others :=
  if dump.composites.any fun j => j.ccId == compBase + ci.ckey then dump
  else
    let converted := compositeToJson ci dump.table
    { dump with composites := converted.1 :: dump.composites, table := converted.2 }

def dumpEnum (dump : Dump Others) (ei : Enuminfo) : Dump Others :=
  if (dump.table.enums.cache.lookup ei.ename).isSome then dump
  else
    let converted := enumToJson ei dump.table
    { dump with enums := converted.1 :: dump.enums, table := converted.2 }

def dumpTypesAndBodies (dump : Dump Others) : Global Others → Dump Others
  | .compTag ci | .compTagDecl ci => dumpComposite dump ci
  | .enumTag ei | .enumTagDecl ei => dumpEnum dump ei
  | .var vid var =>
      let converted := var.convert dump.table
      { dump with
        definedVarIds := vid :: dump.definedVarIds
        progDefs := (vid, .gvar converted.1) :: dump.progDefs
        table := converted.2 }
  | .fun fundec =>
      let converted := internalFunToJson fundec dump.table
      { dump with
        definedFuncIds := fundec.vid :: dump.definedFuncIds
        progDefs := (fundec.vid, converted.1) :: dump.progDefs
        table := converted.2 }
  | .funDecl _ _ _ | .varDecl _ _ | .unread => dump

def dumpDeclarations (dump : Dump Others) : Global Others → Dump Others
  | .funDecl vid isFun decl =>
      if isFun && !dump.definedFuncIds.contains vid then
        let converted := decl.convert dump.table
        { dump with
          definedFuncIds := vid :: dump.definedFuncIds
          progDefs := (vid, .external converted.1) :: dump.progDefs
          table := converted.2 }
      else dump
  | .varDecl vid decl =>
      if dump.definedVarIds.contains vid then dump
      else
        let converted := decl.convert dump.table
        { dump with
          definedVarIds := vid :: dump.definedVarIds
          progDefs := (vid, .gvar converted.1) :: dump.progDefs
          table := converted.2 }
  | _ => dump

/-- The lists of the result are in the order of the file. -/
def Dump.ordered (dump : Dump Others) : Dump Others :=
  { dump with
    composites := dump.composites.reverse
    enums := dump.enums.reverse
    progDefs := dump.progDefs.reverse }

def Global.compinfo? : Global Others → Option (Compinfo Others)
  | .compTag ci | .compTagDecl ci => some ci
  | _ => none

def Global.enuminfo? : Global Others → Option Enuminfo
  | .enumTag ei | .enumTagDecl ei => some ei
  | _ => none

/-- The kernel has one record for each key of a composite and for each tag of an enum. -/
structure File (Others : Type) where
  globals : List (Global Others)
  others : Others
  keyed : ∀ ci ∈ globals.filterMap Global.compinfo?, ∀ other ∈ globals.filterMap Global.compinfo?,
    ci.ckey = other.ckey → ci = other
  tagged : ∀ ei ∈ globals.filterMap Global.enuminfo?, ∀ other ∈ globals.filterMap Global.enuminfo?,
    ei.ename = other.ename → ei = other

def dumpProject (file : File Others) : Dump Others :=
  (file.globals.foldl dumpDeclarations
    (file.globals.foldl dumpTypesAndBodies { table := createIdentTable file.others })).ordered

end Globals

end FramaCMcp.Export
