/-
This file gives the edits of a function body that an insertion of ghost code makes, and the names
that it resolves at a statement.
-/

import FramaCMcp.Construction.Cil

namespace FramaCMcp.Ghost

open Cil

def isAlpha (letter : Char) : Bool :=
  (decide ('a' ≤ letter) && decide (letter ≤ 'z')) ||
    (decide ('A' ≤ letter) && decide (letter ≤ 'Z')) || letter == '_'

def isAlnum (letter : Char) : Bool :=
  isAlpha letter || (decide ('0' ≤ letter) && decide (letter ≤ '9'))

def isValidCIdentifier (name : String) : Bool :=
  match name.toList with
  | [] => false
  | first :: rest => isAlpha first && rest.all isAlnum

def isReservedLogicLabel (name : String) : Bool :=
  ["Pre", "Here", "Old", "Post", "LoopEntry", "LoopCurrent"].contains name

def isBlank (letter : Char) : Bool :=
  letter == ' ' || letter == Char.ofNat 12 || letter == '\n' || letter == '\r' || letter == '\t'

def trim (text : String) : String :=
  String.ofList ((text.toList.dropWhile isBlank).reverse.dropWhile isBlank).reverse

/-- A block around a statement comes with the statements before the one that leads to it. -/
abbrev Enclosing := List (Block × List Stmt)

mutual

/-- The innermost block comes first. -/
def blockEnclosing (target : Nat) (outer : Enclosing) : Block → Option Enclosing
  | .mk blocals bstmts => scanEnclosing target outer (.mk blocals bstmts) [] bstmts

def scanEnclosing (target : Nat) (outer : Enclosing) (block : Block) (before : List Stmt) :
    List Stmt → Option Enclosing
  | [] => none
  | stmt :: rest =>
      if stmt.sid = target then some ((block, before.reverse) :: outer)
      else (stmtEnclosing target ((block, before.reverse) :: outer) stmt).or
        (scanEnclosing target outer block (stmt :: before) rest)

def stmtEnclosing (target : Nat) (outer : Enclosing) : Stmt → Option Enclosing
  | .branch _ _ thenBlock elseBlock =>
      (blockEnclosing target outer thenBlock).or (blockEnclosing target outer elseBlock)
  | .loop _ body => blockEnclosing target outer body
  | .block _ body => blockEnclosing target outer body
  | .switch _ _ body => blockEnclosing target outer body
  | .unspecifiedSequence _ stmts => sequenceEnclosing target outer stmts
  | .instr _ _ => none
  | .jump _ _ => none
  | .tryStmt _ _ _ => none

def sequenceEnclosing (target : Nat) (outer : Enclosing) : List Stmt → Option Enclosing
  | [] => none
  | stmt :: rest =>
      (if stmt.sid = target then some outer else stmtEnclosing target outer stmt).or
        (sequenceEnclosing target outer rest)

end

def enclosingBlocks (fundec : Fundec) (target : Nat) : Option Enclosing :=
  blockEnclosing target [] fundec.sbody

mutual

/-- The scope of a local starts at its initializer. -/
def initializes (vi : Varinfo) : Stmt → Bool
  | .instr _ instr => instr.initializedVar.any fun initialized => initialized.vid == vi.vid
  | .unspecifiedSequence _ stmts => someInitializes vi stmts
  | .jump _ _ => false
  | .branch _ _ _ _ => false
  | .switch _ _ _ => false
  | .loop _ _ => false
  | .block _ _ => false
  | .tryStmt _ _ _ => false

def someInitializes (vi : Varinfo) : List Stmt → Bool
  | [] => false
  | stmt :: rest => initializes vi stmt || someInitializes vi rest

end

def isVisible (before : List Stmt) (vi : Varinfo) : Bool :=
  !vi.vdefined || before.any (initializes vi)

/-- Within a block the name of the kernel wins over the name of the source. -/
def findInBlock (name : String) (entry : Block × List Stmt) : Option Varinfo :=
  match entry.1 with
  | .mk blocals _ =>
      (blocals.find? fun vi => vi.vname == name && isVisible entry.2 vi).or
        (blocals.find? fun vi => vi.vorigName == name && isVisible entry.2 vi)

/-- The locals around the statement come first, then the formals and then the globals. -/
def findVarInScope (globals : List Varinfo) (fundec : Fundec) (target : Nat) (name : String) :
    Except String Varinfo :=
  match enclosingBlocks fundec target with
  | none => .error ("statement " ++ toString target ++ " not found in function body")
  | some blocks =>
      match (blocks.findSome? (findInBlock name)).or
          ((fundec.sformals.find? fun vi => vi.vname == name).or
            (globals.find? fun vi => vi.vname == name)) with
      | some vi => .ok vi
      | none =>
          if fundec.slocals.any fun vi => vi.vname == name then
            .error ("variable '" ++ name ++ "' is not in scope at statement " ++ toString target)
          else .error ("unknown variable '" ++ name ++ "'")

def splice (target : Nat) (new : Stmt) (bstmts : List Stmt) : List Stmt :=
  bstmts.flatMap fun stmt => if stmt.sid = target then [new, stmt] else [stmt]

mutual

/-- The statement is put before the target, and the locals are declared in the block that holds
both. -/
def insertInBlock (target : Nat) (new : Stmt) (locals : List Varinfo) : Block → Option Block
  | .mk blocals bstmts =>
      if bstmts.any fun stmt => stmt.sid == target then
        some (.mk (blocals ++ locals) (splice target new bstmts))
      else (insertInStmts target new locals bstmts).map (.mk blocals)

def insertInStmts (target : Nat) (new : Stmt) (locals : List Varinfo) :
    List Stmt → Option (List Stmt)
  | [] => none
  | stmt :: rest =>
      match insertInStmt target new locals stmt with
      | some edited => some (edited :: rest)
      | none => (insertInStmts target new locals rest).map (stmt :: ·)

def insertInStmt (target : Nat) (new : Stmt) (locals : List Varinfo) : Stmt → Option Stmt
  | .branch info guard thenBlock elseBlock =>
      match insertInBlock target new locals thenBlock with
      | some edited => some (.branch info guard edited elseBlock)
      | none => (insertInBlock target new locals elseBlock).map (.branch info guard thenBlock)
  | .loop info body => (insertInBlock target new locals body).map (.loop info)
  | .block info body => (insertInBlock target new locals body).map (.block info)
  | .switch info subject body => (insertInBlock target new locals body).map (.switch info subject)
  | .instr _ _ => none
  | .jump _ _ => none
  | .unspecifiedSequence _ _ => none
  | .tryStmt _ _ _ => none

end

mutual

def removeFromBlock (sids : List Nat) : Block → Block
  | .mk blocals bstmts => .mk blocals (removeFromStmts sids bstmts)

def removeFromStmts (sids : List Nat) : List Stmt → List Stmt
  | [] => []
  | stmt :: rest =>
      if stmt.sid ∈ sids then removeFromStmts sids rest
      else removeFromStmt sids stmt :: removeFromStmts sids rest

def removeFromStmt (sids : List Nat) : Stmt → Stmt
  | .branch info guard thenBlock elseBlock =>
      .branch info guard (removeFromBlock sids thenBlock) (removeFromBlock sids elseBlock)
  | .loop info body => .loop info (removeFromBlock sids body)
  | .block info body => .block info (removeFromBlock sids body)
  | .switch info subject body => .switch info subject (removeFromBlock sids body)
  | .instr info instr => .instr info instr
  | .jump info text => .jump info text
  | .unspecifiedSequence info stmts => .unspecifiedSequence info stmts
  | .tryStmt info body handlers => .tryStmt info body handlers

end

def fillEmpty (new : Stmt) : Block → Option Block
  | .mk blocals [] => some (.mk blocals [new])
  | .mk _ (_ :: _) => none

mutual

/-- The empty else branch of the target gets the statement. -/
def fillElse (target : Nat) (new : Stmt) : Block → Option Block
  | .mk blocals bstmts => (fillElseStmts target new bstmts).map (.mk blocals)

def fillElseStmts (target : Nat) (new : Stmt) : List Stmt → Option (List Stmt)
  | [] => none
  | stmt :: rest =>
      match fillElseStmt target new stmt with
      | some edited => some (edited :: rest)
      | none => (fillElseStmts target new rest).map (stmt :: ·)

def fillElseStmt (target : Nat) (new : Stmt) : Stmt → Option Stmt
  | .branch info guard thenBlock elseBlock =>
      if info.sid = target then (fillEmpty new elseBlock).map (.branch info guard thenBlock)
      else match fillElse target new thenBlock with
        | some edited => some (.branch info guard edited elseBlock)
        | none => (fillElse target new elseBlock).map (.branch info guard thenBlock)
  | .loop info body => (fillElse target new body).map (.loop info)
  | .block info body => (fillElse target new body).map (.block info)
  | .switch info subject body => (fillElse target new body).map (.switch info subject)
  | .unspecifiedSequence info stmts =>
      (fillElseStmts target new stmts).map (.unspecifiedSequence info)
  | .tryStmt info body handlers =>
      match fillElse target new body with
      | some edited => some (.tryStmt info edited handlers)
      | none => (fillElseBlocks target new handlers).map (.tryStmt info body)
  | .instr _ _ => none
  | .jump _ _ => none

def fillElseBlocks (target : Nat) (new : Stmt) : List Block → Option (List Block)
  | [] => none
  | block :: rest =>
      match fillElse target new block with
      | some edited => some (edited :: rest)
      | none => (fillElseBlocks target new rest).map (block :: ·)

end

mutual

def forceStmtGhost : Stmt → Stmt
  | .instr info instr => .instr { info with ghost := true } instr
  | .jump info text => .jump { info with ghost := true } text
  | .branch info guard thenBlock elseBlock =>
      .branch { info with ghost := true } guard (forceBlockGhost thenBlock)
        (forceBlockGhost elseBlock)
  | .loop info body => .loop { info with ghost := true } (forceBlockGhost body)
  | .block info body => .block { info with ghost := true } (forceBlockGhost body)
  | .switch info subject body => .switch { info with ghost := true } subject (forceBlockGhost body)
  | .unspecifiedSequence info stmts =>
      .unspecifiedSequence { info with ghost := true } (forceStmtsGhost stmts)
  | .tryStmt info body handlers => .tryStmt { info with ghost := true } body handlers

def forceBlockGhost : Block → Block
  | .mk blocals bstmts => .mk blocals (forceStmtsGhost bstmts)

def forceStmtsGhost : List Stmt → List Stmt
  | [] => []
  | stmt :: rest => forceStmtGhost stmt :: forceStmtsGhost rest

end

end FramaCMcp.Ghost
