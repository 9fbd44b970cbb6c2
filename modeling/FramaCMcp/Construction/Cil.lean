/-
This file gives the bodies of C functions as the kernel holds them, the instructions and loops that
a visitor meets in them, and the paths that control takes through them.
-/

import FramaCMcp.Foundation.Lvalues

namespace Cil

inductive ConsKind where
  | plainFunc
  | constructor
  deriving DecidableEq, Repr

/-- A compound initializer has many expressions. -/
inductive LocalInit where
  | assignInit (values : List Exp)
  | consInit (callee : Varinfo) (args : List Exp) (kind : ConsKind)

inductive Instr where
  | set (lv : Lval) (value : Exp) (line : Nat)
  | call (result : Option Lval) (callee : Lhost) (args : List Exp) (line : Nat)
  | localInit (vi : Varinfo) (init : LocalInit) (line : Nat)
  | asm (line : Nat)
  | skip (line : Nat)
  | codeAnnot (line : Nat)

/-- Each statement has a number, and may be ghost and have labels. -/
structure StmtInfo where
  sid : Nat
  ghost : Bool := false
  labels : List String := []
  deriving DecidableEq, Repr

mutual

/-- A jump is a return, a goto, a break or a continue. A try statement has its handlers behind it. -/
inductive Stmt where
  | instr (info : StmtInfo) (instr : Instr)
  | jump (info : StmtInfo) (text : String)
  | branch (info : StmtInfo) (guard : Exp) (thenBlock elseBlock : Block)
  | switch (info : StmtInfo) (subject : Exp) (body : Block)
  | loop (info : StmtInfo) (body : Block)
  | block (info : StmtInfo) (body : Block)
  | unspecifiedSequence (info : StmtInfo) (stmts : List Stmt)
  | tryStmt (info : StmtInfo) (body : Block) (handlers : List Block)

inductive Block where
  | mk (blocals : List Varinfo) (bstmts : List Stmt)

end

def Stmt.info : Stmt → StmtInfo
  | .instr info _ => info
  | .jump info _ => info
  | .branch info _ _ _ => info
  | .switch info _ _ => info
  | .loop info _ => info
  | .block info _ => info
  | .unspecifiedSequence info _ => info
  | .tryStmt info _ _ => info

def Stmt.sid (stmt : Stmt) : Nat := stmt.info.sid

structure Fundec where
  svar : Varinfo
  sformals : List Varinfo
  slocals : List Varinfo
  sbody : Block
  variadic : Bool := false

/-- A call names its callee. The constructor of a local gets the address of the local. -/
structure CallSite where
  callee : Varinfo
  actuals : List Exp

def Instr.callSite : Instr → Option CallSite
  | .call _ (.var vi) args _ => some ⟨vi, args⟩
  | .localInit _ (.consInit callee args .plainFunc) _ => some ⟨callee, args⟩
  | .localInit vi (.consInit callee args .constructor) _ =>
      some ⟨callee, .addrOf (.var vi) .noOffset :: args⟩
  | _ => none

def Instr.initializedVar : Instr → Option Varinfo
  | .localInit vi _ _ => some vi
  | _ => none

/-- A loop is known by its statement and stands in the scope of some locals. -/
structure Loop where
  sid : Nat
  scope : List Varinfo
  body : Block

mutual

/-- A visitor meets the instructions in the order of the text. -/
def Stmt.instrs : Stmt → List Instr
  | .instr _ instr => [instr]
  | .jump _ _ => []
  | .branch _ _ thenBlock elseBlock => thenBlock.instrs ++ elseBlock.instrs
  | .switch _ _ body => body.instrs
  | .loop _ body => body.instrs
  | .block _ body => body.instrs
  | .unspecifiedSequence _ stmts => stmtInstrs stmts
  | .tryStmt _ body handlers => body.instrs ++ blockInstrs handlers

def Block.instrs : Block → List Instr
  | .mk _ bstmts => stmtInstrs bstmts

def stmtInstrs : List Stmt → List Instr
  | [] => []
  | stmt :: rest => stmt.instrs ++ stmtInstrs rest

def blockInstrs : List Block → List Instr
  | [] => []
  | block :: rest => block.instrs ++ blockInstrs rest

end

mutual

/-- An outer loop comes before the loops of its body. -/
def Stmt.loops (scope : List Varinfo) : Stmt → List Loop
  | .instr _ _ => []
  | .jump _ _ => []
  | .branch _ _ thenBlock elseBlock => thenBlock.loops scope ++ elseBlock.loops scope
  | .switch _ _ body => body.loops scope
  | .loop info body => ⟨info.sid, scope, body⟩ :: body.loops scope
  | .block _ body => body.loops scope
  | .unspecifiedSequence _ stmts => stmtLoops scope stmts
  | .tryStmt _ body handlers => body.loops scope ++ blockLoops scope handlers

def Block.loops (scope : List Varinfo) : Block → List Loop
  | .mk blocals bstmts => stmtLoops (scope ++ blocals) bstmts

def stmtLoops (scope : List Varinfo) : List Stmt → List Loop
  | [] => []
  | stmt :: rest => stmt.loops scope ++ stmtLoops scope rest

def blockLoops (scope : List Varinfo) : List Block → List Loop
  | [] => []
  | block :: rest => block.loops scope ++ blockLoops scope rest

end

def Fundec.loops (fundec : Fundec) : List Loop := fundec.sbody.loops []

/-- A statement stands in a block, and may be an instruction. -/
structure Node where
  blocals : List Varinfo
  info : StmtInfo
  instr : Option Instr

mutual

/-- These are the statements of a body with the locals of the innermost block around each. -/
def Stmt.nodes (blocals : List Varinfo) : Stmt → List Node
  | .instr info instr => [⟨blocals, info, some instr⟩]
  | .jump info _ => [⟨blocals, info, none⟩]
  | .branch info _ thenBlock elseBlock =>
      ⟨blocals, info, none⟩ :: (thenBlock.nodes ++ elseBlock.nodes)
  | .switch info _ body => ⟨blocals, info, none⟩ :: body.nodes
  | .loop info body => ⟨blocals, info, none⟩ :: body.nodes
  | .block info body => ⟨blocals, info, none⟩ :: body.nodes
  | .unspecifiedSequence info stmts => ⟨blocals, info, none⟩ :: stmtNodes blocals stmts
  | .tryStmt info body handlers => ⟨blocals, info, none⟩ :: (body.nodes ++ blockNodes handlers)

def Block.nodes : Block → List Node
  | .mk blocals bstmts => stmtNodes blocals bstmts

def stmtNodes (blocals : List Varinfo) : List Stmt → List Node
  | [] => []
  | stmt :: rest => stmt.nodes blocals ++ stmtNodes blocals rest

def blockNodes : List Block → List Node
  | [] => []
  | block :: rest => block.nodes ++ blockNodes rest

end

def Block.sids (body : Block) : List Nat := body.nodes.map fun node => node.info.sid

def Block.findAllLabels (body : Block) : List String := body.nodes.flatMap fun node => node.info.labels

mutual

/-- These are the locals of all blocks of a body. -/
def Stmt.scopes : Stmt → List Varinfo
  | .instr _ _ => []
  | .jump _ _ => []
  | .branch _ _ thenBlock elseBlock => thenBlock.scopes ++ elseBlock.scopes
  | .switch _ _ body => body.scopes
  | .loop _ body => body.scopes
  | .block _ body => body.scopes
  | .unspecifiedSequence _ stmts => stmtScopes stmts
  | .tryStmt _ body handlers => body.scopes ++ blockScopes handlers

def Block.scopes : Block → List Varinfo
  | .mk blocals bstmts => blocals ++ stmtScopes bstmts

def stmtScopes : List Stmt → List Varinfo
  | [] => []
  | stmt :: rest => stmt.scopes ++ stmtScopes rest

def blockScopes : List Block → List Varinfo
  | [] => []
  | block :: rest => block.scopes ++ blockScopes rest

end

mutual

/-- The first statement with this number is found. -/
def Stmt.find (target : Nat) (stmt : Stmt) : Option Stmt :=
  if stmt.sid = target then some stmt
  else match stmt with
    | .instr _ _ => none
    | .jump _ _ => none
    | .branch _ _ thenBlock elseBlock => (thenBlock.find target).or (elseBlock.find target)
    | .switch _ _ body => body.find target
    | .loop _ body => body.find target
    | .block _ body => body.find target
    | .unspecifiedSequence _ stmts => stmtsFind target stmts
    | .tryStmt _ body handlers => (body.find target).or (blocksFind target handlers)

def Block.find (target : Nat) : Block → Option Stmt
  | .mk _ bstmts => stmtsFind target bstmts

def stmtsFind (target : Nat) : List Stmt → Option Stmt
  | [] => none
  | stmt :: rest => (stmt.find target).or (stmtsFind target rest)

def blocksFind (target : Nat) : List Block → Option Stmt
  | [] => none
  | block :: rest => (block.find target).or (blocksFind target rest)

end

mutual

/-- Without its ghost code a body has no ghost statement and no ghost local. -/
def Stmt.eraseGhost : Stmt → Stmt
  | .instr info instr => .instr info instr
  | .jump info text => .jump info text
  | .branch info guard thenBlock elseBlock =>
      .branch info guard thenBlock.eraseGhost elseBlock.eraseGhost
  | .switch info subject body => .switch info subject body.eraseGhost
  | .loop info body => .loop info body.eraseGhost
  | .block info body => .block info body.eraseGhost
  | .unspecifiedSequence info stmts => .unspecifiedSequence info (eraseStmts stmts)
  | .tryStmt info body handlers => .tryStmt info body.eraseGhost (eraseBlocks handlers)

def Block.eraseGhost : Block → Block
  | .mk blocals bstmts => .mk (blocals.filter fun vi => !vi.vghost) (eraseStmts bstmts)

def eraseStmts : List Stmt → List Stmt
  | [] => []
  | stmt :: rest => if stmt.info.ghost then eraseStmts rest else stmt.eraseGhost :: eraseStmts rest

def eraseBlocks : List Block → List Block
  | [] => []
  | block :: rest => block.eraseGhost :: eraseBlocks rest

end

inductive Jump where
  | ret
  | brk
  | cont
  | goto (sid : Nat)
  deriving DecidableEq, Repr

/-- The text of a jump says where it goes, and the text of a label says whether it is one of a
switch. -/
structure Reading where
  jump : String → Jump
  isCase : String → Bool
  isDefault : String → Bool
  break_eq : jump "break" = .brk

/-- Control goes to these statements from the end of a statement, a break and a continue. -/
structure Exits where
  next : Option Nat
  brk : Option Nat := none
  cont : Option Nat := none

def edgesTo (sid : Nat) : Option Nat → List (Nat × Nat)
  | some later => [(sid, later)]
  | none => []

/-- A list is entered at its first statement, and an empty list is left at once. -/
def stmtsEntry : List Stmt → Option Nat → Option Nat
  | [], next => next
  | stmt :: _, _ => some stmt.sid

def Block.entry : Block → Option Nat → Option Nat
  | .mk _ bstmts, next => stmtsEntry bstmts next

variable (reading : Reading)

def ownCase (info : StmtInfo) : List StmtInfo := if info.labels.any reading.isCase then [info] else []

mutual

/-- A switch goes to the statements of its body that have its labels. -/
def Stmt.cases : Stmt → List StmtInfo
  | .instr info _ => ownCase reading info
  | .jump info _ => ownCase reading info
  | .branch info _ thenBlock elseBlock => ownCase reading info ++ thenBlock.cases ++ elseBlock.cases
  | .switch info _ _ => ownCase reading info
  | .loop info body => ownCase reading info ++ body.cases
  | .block info body => ownCase reading info ++ body.cases
  | .unspecifiedSequence info stmts => ownCase reading info ++ stmtsCases stmts
  | .tryStmt info body handlers => ownCase reading info ++ body.cases ++ handlersCases handlers

def Block.cases : Block → List StmtInfo
  | .mk _ bstmts => stmtsCases bstmts

def stmtsCases : List Stmt → List StmtInfo
  | [] => []
  | stmt :: rest => stmt.cases ++ stmtsCases rest

def handlersCases : List Block → List StmtInfo
  | [] => []
  | block :: rest => block.cases ++ handlersCases rest

end

def Block.hasDefault (body : Block) : Bool :=
  (body.cases reading).any fun info => info.labels.any reading.isDefault

mutual

/-- Control flows from one statement to another. A guard may go either way, a loop goes on at the
start of its body, and a switch with a default does not go past its body. -/
def Stmt.flows (exits : Exits) : Stmt → List (Nat × Nat)
  | .instr info _ => edgesTo info.sid exits.next
  | .jump info text =>
      match reading.jump text with
      | .ret => []
      | .brk => edgesTo info.sid exits.brk
      | .cont => edgesTo info.sid exits.cont
      | .goto _ => []
  | .branch info _ thenBlock elseBlock =>
      edgesTo info.sid (thenBlock.entry exits.next) ++ edgesTo info.sid (elseBlock.entry exits.next) ++
        thenBlock.flows exits ++ elseBlock.flows exits
  | .switch info _ body =>
      (if body.hasDefault reading then [] else edgesTo info.sid exits.next) ++
        body.flows { exits with brk := exits.next }
  | .loop info body =>
      edgesTo info.sid (body.entry none) ++
        body.flows ⟨body.entry none, exits.next, body.entry none⟩
  | .block info body => edgesTo info.sid (body.entry exits.next) ++ body.flows exits
  | .unspecifiedSequence info stmts =>
      edgesTo info.sid (stmtsEntry stmts exits.next) ++ stmtsFlows exits stmts
  | .tryStmt info body handlers =>
      edgesTo info.sid (body.entry exits.next) ++ body.flows exits ++
        handlersFlows info.sid exits handlers

def Block.flows (exits : Exits) : Block → List (Nat × Nat)
  | .mk _ bstmts => stmtsFlows exits bstmts

def stmtsFlows (exits : Exits) : List Stmt → List (Nat × Nat)
  | [] => []
  | stmt :: rest =>
      stmt.flows { exits with next := stmtsEntry rest exits.next } ++ stmtsFlows exits rest

/-- An exception may enter each handler. -/
def handlersFlows (sid : Nat) (exits : Exits) : List Block → List (Nat × Nat)
  | [] => []
  | block :: rest =>
      edgesTo sid (block.entry exits.next) ++ block.flows exits ++ handlersFlows sid exits rest

end

mutual

/-- A goto and a switch go to statements by their labels. -/
def Stmt.jumps : Stmt → List (Nat × Nat)
  | .instr _ _ => []
  | .jump info text =>
      match reading.jump text with
      | .goto sid => [(info.sid, sid)]
      | _ => []
  | .branch _ _ thenBlock elseBlock => thenBlock.jumps ++ elseBlock.jumps
  | .switch info _ body =>
      ((body.cases reading).map fun case => (info.sid, case.sid)) ++ body.jumps
  | .loop _ body => body.jumps
  | .block _ body => body.jumps
  | .unspecifiedSequence _ stmts => stmtsJumps stmts
  | .tryStmt _ body handlers => body.jumps ++ handlersJumps handlers

def Block.jumps : Block → List (Nat × Nat)
  | .mk _ bstmts => stmtsJumps bstmts

def stmtsJumps : List Stmt → List (Nat × Nat)
  | [] => []
  | stmt :: rest => stmt.jumps ++ stmtsJumps rest

def handlersJumps : List Block → List (Nat × Nat)
  | [] => []
  | block :: rest => block.jumps ++ handlersJumps rest

end

/-- Control goes from one statement of the body to another. -/
def Follows (reading : Reading) (body : Block) (node later : Nat) : Prop :=
  (node, later) ∈ body.flows reading ⟨none, none, none⟩ ∨ (node, later) ∈ body.jumps reading

end Cil
