/-
This file proves when a name in ghost code is resolved by the scopes of C.
-/

import Mathlib.Data.List.Nodup
import Mathlib.Data.List.Pairwise
import FramaCMcp.Foundation.FirstMatch
import FramaCMcp.Proof.GhostContexts

namespace Cil

mutual

/-- These are the blocks of a body in the order of the text. -/
def Stmt.blocks : Stmt → List Block
  | .instr _ _ => []
  | .jump _ _ => []
  | .branch _ _ thenBlock elseBlock => thenBlock.blocks ++ elseBlock.blocks
  | .switch _ _ body => body.blocks
  | .loop _ body => body.blocks
  | .block _ body => body.blocks
  | .unspecifiedSequence _ stmts => stmtBlocks stmts
  | .tryStmt _ body handlers => body.blocks ++ handlerBlocks handlers

def Block.blocks : Block → List Block
  | .mk blocals bstmts => .mk blocals bstmts :: stmtBlocks bstmts

def stmtBlocks : List Stmt → List Block
  | [] => []
  | stmt :: rest => stmt.blocks ++ stmtBlocks rest

def handlerBlocks : List Block → List Block
  | [] => []
  | block :: rest => block.blocks ++ handlerBlocks rest

end

mutual

/-- No statement is a try statement. -/
def Stmt.plain : Stmt → Bool
  | .instr _ _ => true
  | .jump _ _ => true
  | .branch _ _ thenBlock elseBlock => thenBlock.plain && elseBlock.plain
  | .switch _ _ body => body.plain
  | .loop _ body => body.plain
  | .block _ body => body.plain
  | .unspecifiedSequence _ stmts => stmtsPlain stmts
  | .tryStmt _ _ _ => false

def Block.plain : Block → Bool
  | .mk _ bstmts => stmtsPlain bstmts

def stmtsPlain : List Stmt → Bool
  | [] => true
  | stmt :: rest => stmt.plain && stmtsPlain rest

end

def Block.blocals : Block → List Varinfo
  | .mk blocals _ => blocals

/-- These statements of the block come before the one that holds the target. -/
def Block.before (target : Nat) : Block → List Stmt
  | .mk blocals bstmts => bstmts.takeWhile fun stmt => target ∉ sidsOf (stmt.nodes blocals)

mutual

theorem Stmt.scopes_eq (stmt : Stmt) : stmt.scopes = stmt.blocks.flatMap Block.blocals := by
  cases stmt with
  | instr | jump => rfl
  | branch info guard thenBlock elseBlock =>
      rw [Stmt.scopes, Stmt.blocks, List.flatMap_append, thenBlock.scopes_eq, elseBlock.scopes_eq]
  | switch info subject body => exact body.scopes_eq
  | loop info body => exact body.scopes_eq
  | block info body => exact body.scopes_eq
  | unspecifiedSequence info stmts => exact stmtScopes_eq stmts
  | tryStmt info body handlers =>
      rw [Stmt.scopes, Stmt.blocks, List.flatMap_append, body.scopes_eq, blockScopes_eq handlers]
termination_by structural stmt

theorem Block.scopes_eq (block : Block) : block.scopes = block.blocks.flatMap Block.blocals := by
  rcases block with ⟨blocals, bstmts⟩
  rw [Block.scopes, Block.blocks, List.flatMap_cons, Block.blocals, stmtScopes_eq bstmts]
termination_by structural block

theorem stmtScopes_eq (stmts : List Stmt) :
    stmtScopes stmts = (stmtBlocks stmts).flatMap Block.blocals := by
  cases stmts with
  | nil => rfl
  | cons stmt rest =>
      rw [stmtScopes, stmtBlocks, List.flatMap_append, stmt.scopes_eq, stmtScopes_eq rest]
termination_by structural stmts

theorem blockScopes_eq (blocks : List Block) :
    blockScopes blocks = (handlerBlocks blocks).flatMap Block.blocals := by
  cases blocks with
  | nil => rfl
  | cons block rest =>
      rw [blockScopes, handlerBlocks, List.flatMap_append, block.scopes_eq, blockScopes_eq rest]
termination_by structural blocks

end

mutual

/-- The nodes of an inner block stand together behind the statement. -/
theorem Stmt.nodes_within (blocals : List Varinfo) (stmt : Stmt) :
    ∀ block ∈ stmt.blocks, block.nodes <:+: (stmt.nodes blocals).tail := by
  intro block member
  cases stmt with
  | instr | jump => cases member
  | branch info guard thenBlock elseBlock =>
      rcases List.mem_append.mp member with first | second
      · exact (thenBlock.nodes_within block first).trans (List.prefix_append _ _).isInfix
      · exact (elseBlock.nodes_within block second).trans (List.suffix_append _ _).isInfix
  | switch info subject body => exact body.nodes_within block member
  | loop info body => exact body.nodes_within block member
  | block info body => exact body.nodes_within block member
  | unspecifiedSequence info stmts => exact stmtNodes_within blocals stmts block member
  | tryStmt info body handlers =>
      rcases List.mem_append.mp member with first | second
      · exact (body.nodes_within block first).trans (List.prefix_append _ _).isInfix
      · exact (handlerNodes_within handlers block second).trans (List.suffix_append _ _).isInfix
termination_by structural stmt

theorem Block.nodes_within (outer : Block) :
    ∀ block ∈ outer.blocks, block.nodes <:+: outer.nodes := by
  rcases outer with ⟨blocals, bstmts⟩
  intro block member
  rcases List.mem_cons.mp member with rfl | inner
  · exact List.infix_rfl
  · exact stmtNodes_within blocals bstmts block inner
termination_by structural outer

theorem stmtNodes_within (blocals : List Varinfo) (stmts : List Stmt) :
    ∀ block ∈ stmtBlocks stmts, block.nodes <:+: stmtNodes blocals stmts := by
  intro block member
  cases stmts with
  | nil => cases member
  | cons stmt rest =>
      rcases List.mem_append.mp member with first | later
      · exact (stmt.nodes_within blocals block first).trans
          ((List.tail_suffix _).isInfix.trans (List.prefix_append _ _).isInfix)
      · exact (stmtNodes_within blocals rest block later).trans (List.suffix_append _ _).isInfix
termination_by structural stmts

theorem handlerNodes_within (handlers : List Block) :
    ∀ block ∈ handlerBlocks handlers, block.nodes <:+: blockNodes handlers := by
  intro block member
  cases handlers with
  | nil => cases member
  | cons handler rest =>
      rcases List.mem_append.mp member with first | later
      · exact (handler.nodes_within block first).trans (List.prefix_append _ _).isInfix
      · exact (handlerNodes_within rest block later).trans (List.suffix_append _ _).isInfix
termination_by structural handlers

end

end Cil

namespace FramaCMcp.Ghost

open Cil FirstMatch

section Enclosing

variable (target : Nat)

/-- The blocks that hold the target come with their statements before it. The last one in the text
is the innermost one. -/
def around (blocks : List Block) : Enclosing :=
  (blocks.filter fun block => target ∈ block.sids).reverse.map fun block =>
    (block, block.before target)

variable {target}

theorem around_append (first second : List Block) :
    around target (first ++ second) = around target second ++ around target first := by
  rw [around, List.filter_append, List.reverse_append, List.map_append]
  rfl

theorem around_eq_nil {blocks : List Block} (outside : ∀ block ∈ blocks, target ∉ block.sids) :
    around target blocks = [] := by
  rw [around, List.filter_eq_nil_iff.mpr, List.reverse_nil, List.map_nil]
  exact fun block member holds => outside block member (of_decide_eq_true holds)

theorem sids_subset_of_within {block : Block} {nodes : List Node} (inside : block.nodes <:+: nodes) :
    block.sids ⊆ sidsOf nodes := by
  intro sid member
  exact (inside.map _).subset member

variable {blocals : List Varinfo}

/-- A statement with the number of the target has no block that holds it. -/
theorem around_of_sid {stmt : Stmt} (unique : (sidsOf (stmt.nodes blocals)).Nodup)
    (same : stmt.sid = target) : around target stmt.blocks = [] := by
  apply around_eq_nil
  intro block member holds
  have inside := sids_subset_of_within (stmt.nodes_within blocals block member) holds
  obtain ⟨instr, rest, nodes⟩ := nodes_eq_cons blocals stmt
  rw [nodes] at unique inside
  subst same
  exact (List.nodup_cons.mp unique).1 inside

theorem around_of_not_mem {stmt : Stmt} (outside : target ∉ sidsOf (stmt.nodes blocals)) :
    around target stmt.blocks = [] := by
  apply around_eq_nil
  intro block member holds
  apply outside
  have inside := sids_subset_of_within (stmt.nodes_within blocals block member) holds
  exact ((List.tail_sublist _).map _).subset inside

theorem around_of_stmts_not_mem {stmts : List Stmt}
    (outside : target ∉ sidsOf (stmtNodes blocals stmts)) :
    around target (stmtBlocks stmts) = [] := by
  apply around_eq_nil
  intro block member holds
  exact outside (sids_subset_of_within (stmtNodes_within blocals stmts block member) holds)

theorem around_of_blocks_not_mem {outer : Block} (outside : target ∉ outer.sids) :
    around target outer.blocks = [] := by
  apply around_eq_nil
  intro block member holds
  exact outside (sids_subset_of_within (outer.nodes_within block member) holds)

theorem mem_sids_stmt {stmt : Stmt} (same : stmt.sid = target) :
    target ∈ sidsOf (stmt.nodes blocals) := by
  obtain ⟨instr, rest, nodes⟩ := nodes_eq_cons blocals stmt
  rw [nodes]
  exact same ▸ List.mem_cons_self

theorem around_block (block : Block) (holds : target ∈ block.sids) :
    around target block.blocks =
      around target block.blocks.tail ++ [(block, block.before target)] := by
  rcases block with ⟨blocals, bstmts⟩
  rw [Block.blocks, ← List.singleton_append, around_append]
  simp [around, holds]

/-- A statement that is not the target holds it in its parts. -/
theorem mem_behind {sid : Nat} {sids : List Nat} (other : sid ≠ target) :
    target ∈ sids ↔ target ∈ sid :: sids :=
  ⟨List.mem_cons_of_mem _, fun member => (List.mem_cons.mp member).resolve_left other.symm⟩

mutual

/-- The walk over a block finds the blocks around the target. -/
theorem blockEnclosing_eq (outer : Enclosing) (block : Block) (plain : block.plain = true)
    (unique : block.sids.Nodup) : blockEnclosing target outer block =
      if target ∈ block.sids then some (around target block.blocks ++ outer) else none := by
  rcases block with ⟨blocals, bstmts⟩
  rw [blockEnclosing, scanEnclosing_eq outer blocals _ [] bstmts plain unique]
  change _ = if target ∈ sidsOf (stmtNodes blocals bstmts) then _ else _
  by_cases holds : target ∈ sidsOf (stmtNodes blocals bstmts)
  · rw [if_pos holds, if_pos holds, around_block _ holds, List.append_assoc]
    rfl
  · rw [if_neg holds, if_neg holds]
termination_by structural block

/-- The statements before the one that holds the target come with the block. -/
theorem scanEnclosing_eq (outer : Enclosing) (blocals : List Varinfo) (block : Block)
    (before stmts : List Stmt) (plain : stmtsPlain stmts = true)
    (unique : (sidsOf (stmtNodes blocals stmts)).Nodup) :
    scanEnclosing target outer block before stmts =
      if target ∈ sidsOf (stmtNodes blocals stmts) then
        some (around target (stmtBlocks stmts) ++ (block, before.reverse ++
          stmts.takeWhile fun stmt => target ∉ sidsOf (stmt.nodes blocals)) :: outer)
      else none := by
  cases stmts with
  | nil => rfl
  | cons stmt rest =>
      rw [stmtNodes, sidsOf_append] at unique ⊢
      obtain ⟨early, late, apart⟩ := nodup_parts unique
      obtain ⟨plainFirst, plainRest⟩ := Bool.and_eq_true_iff.mp plain
      rw [scanEnclosing, stmtBlocks, around_append]
      by_cases same : stmt.sid = target
      · have holds : target ∈ sidsOf (stmt.nodes blocals) := mem_sids_stmt same
        rw [if_pos same, if_pos (List.mem_append_left _ holds), around_of_sid early same,
          around_of_stmts_not_mem (apart _ holds), List.takeWhile_cons_of_neg (by simpa using holds)]
        simp
      · rw [if_neg same, stmtEnclosing_eq _ blocals stmt plainFirst early same]
        by_cases holds : target ∈ sidsOf (stmt.nodes blocals)
        · rw [if_pos holds, if_pos (List.mem_append_left _ holds), Option.some_or,
            around_of_stmts_not_mem (apart _ holds),
            List.takeWhile_cons_of_neg (by simpa using holds)]
          simp
        · rw [if_neg holds, Option.none_or, around_of_not_mem holds,
            scanEnclosing_eq outer blocals block (stmt :: before) rest plainRest late,
            List.takeWhile_cons_of_pos (by simpa using holds)]
          simp [List.mem_append, holds]
termination_by structural stmts

theorem stmtEnclosing_eq (outer : Enclosing) (blocals : List Varinfo) (stmt : Stmt)
    (plain : stmt.plain = true) (unique : (sidsOf (stmt.nodes blocals)).Nodup)
    (other : stmt.sid ≠ target) : stmtEnclosing target outer stmt =
      if target ∈ sidsOf (stmt.nodes blocals) then some (around target stmt.blocks ++ outer)
      else none := by
  cases stmt with
  | instr info instr =>
      exact (if_neg (mt (mem_behind other).mpr List.not_mem_nil)).symm
  | jump info text =>
      exact (if_neg (mt (mem_behind other).mpr List.not_mem_nil)).symm
  | branch info guard thenBlock elseBlock =>
      have parts : sidsOf ((Stmt.branch info guard thenBlock elseBlock).nodes blocals) =
          info.sid :: (thenBlock.sids ++ elseBlock.sids) := congrArg _ (sidsOf_append _ _)
      rw [parts] at unique ⊢
      obtain ⟨early, late, apart⟩ := nodup_parts (List.nodup_cons.mp unique).2
      obtain ⟨plainThen, plainElse⟩ := Bool.and_eq_true_iff.mp plain
      rw [stmtEnclosing, blockEnclosing_eq outer thenBlock plainThen early,
        blockEnclosing_eq outer elseBlock plainElse late, Stmt.blocks, around_append]
      have apartSid : info.sid ≠ target := other
      simp only [← mem_behind apartSid, List.mem_append]
      by_cases holds : target ∈ thenBlock.sids
      · rw [if_pos holds, Option.some_or, if_pos (.inl holds),
          around_of_blocks_not_mem (apart _ holds)]
        rfl
      · rw [if_neg holds, Option.none_or, around_of_blocks_not_mem holds, List.append_nil]
        simp [holds]
  | switch info subject body =>
      exact (blockEnclosing_eq outer body plain (List.nodup_cons.mp unique).2).trans
        (if_congr (mem_behind other) rfl rfl)
  | loop info body =>
      exact (blockEnclosing_eq outer body plain (List.nodup_cons.mp unique).2).trans
        (if_congr (mem_behind other) rfl rfl)
  | block info body =>
      exact (blockEnclosing_eq outer body plain (List.nodup_cons.mp unique).2).trans
        (if_congr (mem_behind other) rfl rfl)
  | unspecifiedSequence info stmts =>
      exact (sequenceEnclosing_eq outer blocals stmts plain (List.nodup_cons.mp unique).2).trans
        (if_congr (mem_behind other) rfl rfl)
  | tryStmt info body handlers => cases plain
termination_by structural stmt

theorem sequenceEnclosing_eq (outer : Enclosing) (blocals : List Varinfo) (stmts : List Stmt)
    (plain : stmtsPlain stmts = true) (unique : (sidsOf (stmtNodes blocals stmts)).Nodup) :
    sequenceEnclosing target outer stmts =
      if target ∈ sidsOf (stmtNodes blocals stmts) then
        some (around target (stmtBlocks stmts) ++ outer)
      else none := by
  cases stmts with
  | nil => rfl
  | cons stmt rest =>
      rw [stmtNodes, sidsOf_append] at unique ⊢
      obtain ⟨early, late, apart⟩ := nodup_parts unique
      obtain ⟨plainFirst, plainRest⟩ := Bool.and_eq_true_iff.mp plain
      rw [sequenceEnclosing, stmtBlocks, around_append]
      by_cases same : stmt.sid = target
      · have holds : target ∈ sidsOf (stmt.nodes blocals) := mem_sids_stmt same
        rw [if_pos same, if_pos (List.mem_append_left _ holds), around_of_sid early same,
          around_of_stmts_not_mem (apart _ holds)]
        rfl
      · rw [if_neg same, stmtEnclosing_eq _ blocals stmt plainFirst early same]
        by_cases holds : target ∈ sidsOf (stmt.nodes blocals)
        · rw [if_pos holds, if_pos (List.mem_append_left _ holds), Option.some_or,
            around_of_stmts_not_mem (apart _ holds)]
          rfl
        · rw [if_neg holds, Option.none_or, around_of_not_mem holds,
            sequenceEnclosing_eq outer blocals rest plainRest late]
          simp [List.mem_append, holds]
termination_by structural stmts

end

end Enclosing

section Scope

def initializesAt (vi : Varinfo) (node : Node) : Bool :=
  node.instr.any fun instr => instr.initializedVar.any fun initialized => initialized.vid == vi.vid

/-- The nodes before the target come before it in the text. -/
def nodesBefore (target : Nat) (nodes : List Node) : List Node :=
  nodes.takeWhile fun node => node.info.sid ≠ target

/-- The initializer of the variable, if there is one, comes before the target. -/
def isInScope (body : Block) (target : Nat) (vi : Varinfo) : Bool :=
  !body.nodes.any (initializesAt vi) || (nodesBefore target body.nodes).any (initializesAt vi)

/-- The innermost local of this name wins. -/
def localInScope (body : Block) (target : Nat) (name : String) : Option Varinfo :=
  (body.blocks.filter fun block => target ∈ block.sids).reverse.findSome? fun block =>
    pick (fun vi => vi.vname == name && isInScope body target vi)
      (fun vi => vi.vorigName == name && isInScope body target vi) block.blocals

def outsideScope (globals : List Varinfo) (fundec : Fundec) (name : String) : Option Varinfo :=
  (fundec.sformals.find? fun vi => vi.vname == name).or
    (globals.find? fun vi => vi.vname == name)

/-- A name stands for a local in scope, or for a formal, or for a global. -/
def inScope (globals : List Varinfo) (fundec : Fundec) (target : Nat) (name : String) :
    Option Varinfo :=
  (localInScope fundec.sbody target name).or (outsideScope globals fundec name)

/-- The kernel lists each variable once and notes which locals have an initializer. -/
structure Scoped (globals : List Varinfo) (fundec : Fundec) : Prop where
  plain : fundec.sbody.plain = true
  sids : fundec.sbody.sids.Nodup
  vars : (fundec.sbody.scopes ++ (fundec.sformals ++ globals)).Nodup
  defined : ∀ vi ∈ fundec.sbody.scopes,
    vi.vdefined = fundec.sbody.nodes.any (initializesAt vi)

mutual

theorem any_nodes_of_initializes (blocals : List Varinfo) (vi : Varinfo) (stmt : Stmt)
    (starts : initializes vi stmt = true) :
    (stmt.nodes blocals).any (initializesAt vi) = true := by
  cases stmt with
  | instr info instr =>
      rw [Stmt.nodes, List.any_cons, List.any_nil, Bool.or_false]
      exact starts
  | unspecifiedSequence info stmts =>
      rw [Stmt.nodes, List.any_cons, any_nodes_of_someInitializes blocals vi stmts starts,
        Bool.or_true]
  | _ => cases starts
termination_by structural stmt

theorem any_nodes_of_someInitializes (blocals : List Varinfo) (vi : Varinfo) (stmts : List Stmt)
    (starts : someInitializes vi stmts = true) :
    (stmtNodes blocals stmts).any (initializesAt vi) = true := by
  cases stmts with
  | nil => cases starts
  | cons stmt rest =>
      rw [stmtNodes, List.any_append, Bool.or_eq_true]
      exact (Bool.or_eq_true_iff.mp starts).imp (any_nodes_of_initializes blocals vi stmt)
        (any_nodes_of_someInitializes blocals vi rest)
termination_by structural stmts

end

theorem someInitializes_eq (vi : Varinfo) (stmts : List Stmt) :
    someInitializes vi stmts = stmts.any (initializes vi) := by
  induction stmts with
  | nil => rfl
  | cons stmt rest ih => rw [someInitializes, ih, List.any_cons]

variable {target : Nat} {body block : Block}

/-- The nodes of the statements before the target stand at the front of the block. -/
theorem exists_before (target : Nat) (block : Block) : ∃ rest,
    block.nodes = stmtNodes block.blocals (block.before target) ++ rest ∧
      target ∉ sidsOf (stmtNodes block.blocals (block.before target)) := by
  rcases block with ⟨blocals, bstmts⟩
  rw [Block.nodes, Block.before, Block.blocals]
  induction bstmts with
  | nil => exact ⟨[], rfl, List.not_mem_nil⟩
  | cons stmt rest ih =>
      by_cases holds : target ∈ sidsOf (stmt.nodes blocals)
      · rw [List.takeWhile_cons_of_neg (by simpa using holds)]
        exact ⟨_, rfl, List.not_mem_nil⟩
      · obtain ⟨behind, nodes, outside⟩ := ih
        rw [List.takeWhile_cons_of_pos (by simpa using holds), stmtNodes, stmtNodes, nodes,
          sidsOf_append]
        exact ⟨behind, (List.append_assoc _ _ _).symm,
          fun member => (List.mem_append.mp member).elim holds outside⟩

theorem nodesBefore_append {early late : List Node} (outside : target ∉ sidsOf early) :
    nodesBefore target (early ++ late) = early ++ nodesBefore target late := by
  apply List.takeWhile_append_of_pos
  intro node member
  exact decide_eq_true fun same => outside (List.mem_map.mpr ⟨node, member, same⟩)

/-- An initializer among the statements before the target comes before it in the text. -/
theorem nodesBefore_of_before (unique : body.sids.Nodup) (listed : block ∈ body.blocks)
    (holds : target ∈ block.sids) {vi : Varinfo}
    (starts : (block.before target).any (initializes vi) = true) :
    (nodesBefore target body.nodes).any (initializesAt vi) = true := by
  obtain ⟨left, right, nodes⟩ := body.nodes_within block listed
  obtain ⟨rest, own, outside⟩ := exists_before target block
  have sids : body.sids = sidsOf left ++ (block.sids ++ sidsOf right) := by
    rw [← List.append_assoc]
    change sidsOf body.nodes = sidsOf left ++ sidsOf block.nodes ++ sidsOf right
    rw [← nodes, sidsOf_append, sidsOf_append]
  rw [sids] at unique
  have first : target ∉ sidsOf left := fun member =>
    (nodup_parts unique).2.2 target member (List.mem_append_left _ holds)
  rw [← nodes, own, List.append_assoc, List.append_assoc, nodesBefore_append first,
    nodesBefore_append outside, List.any_append, List.any_append]
  rw [← someInitializes_eq] at starts
  rw [any_nodes_of_someInitializes _ vi _ starts, Bool.true_or, Bool.or_true]

theorem isInScope_of_isVisible {globals : List Varinfo} {fundec : Fundec}
    (wellScoped : Scoped globals fundec) (listed : block ∈ fundec.sbody.blocks)
    (holds : target ∈ block.sids) {vi : Varinfo} (declared : vi ∈ block.blocals)
    (visible : isVisible (block.before target) vi = true) :
    isInScope fundec.sbody target vi = true := by
  have member : vi ∈ fundec.sbody.scopes := by
    rw [Block.scopes_eq]
    exact List.mem_flatMap.mpr ⟨block, listed, declared⟩
  rw [isVisible, wellScoped.defined vi member] at visible
  rw [isInScope]
  exact Bool.or_eq_true_iff.mpr ((Bool.or_eq_true_iff.mp visible).imp id
    (nodesBefore_of_before wellScoped.sids listed holds))

theorem findInBlock_eq (name : String) (block : Block) (before : List Stmt) :
    findInBlock name (block, before) =
      pick (fun vi => vi.vname == name && isVisible before vi)
        (fun vi => vi.vorigName == name && isVisible before vi) block.blocals := by
  cases block
  rfl

variable {globals : List Varinfo} {fundec : Fundec} {name : String} {vi : Varinfo}

/-- These blocks hold the target. The innermost one comes first. -/
def holders (body : Block) (target : Nat) : List Block :=
  (body.blocks.filter fun block => target ∈ block.sids).reverse

theorem mem_holders : block ∈ holders body target ↔ block ∈ body.blocks ∧ target ∈ block.sids := by
  rw [holders, List.mem_reverse, List.mem_filter, decide_eq_true_iff]

/-- The locals that the walk sees around the target. -/
def visibleLocal (body : Block) (target : Nat) (name : String) : Option Varinfo :=
  (holders body target).findSome? fun block => findInBlock name (block, block.before target)

theorem enclosingBlocks_eq (wellScoped : Scoped globals fundec)
    (present : target ∈ fundec.sbody.sids) :
    enclosingBlocks fundec target = some ((holders fundec.sbody target).map fun block =>
      (block, block.before target)) := by
  rw [enclosingBlocks, blockEnclosing_eq [] _ wellScoped.plain wellScoped.sids, if_pos present,
    List.append_nil]
  rfl

theorem findVarInScope_ok_iff (wellScoped : Scoped globals fundec)
    (present : target ∈ fundec.sbody.sids) : findVarInScope globals fundec target name = .ok vi ↔
      (visibleLocal fundec.sbody target name).or (outsideScope globals fundec name) = some vi := by
  have search : ((holders fundec.sbody target).map fun block =>
      (block, block.before target)).findSome? (findInBlock name) =
        visibleLocal fundec.sbody target name := by
    rw [List.findSome?_map]
    rfl
  rw [findVarInScope, enclosingBlocks_eq wellScoped present]
  dsimp only
  rw [search, ← outsideScope]
  cases (visibleLocal fundec.sbody target name).or (outsideScope globals fundec name) with
  | some found => simp
  | none =>
      dsimp only
      split_ifs <;> simp

theorem localInScope_eq (body : Block) (target : Nat) (name : String) :
    localInScope body target name = (holders body target).findSome? fun block =>
      pick (fun vi => vi.vname == name && isInScope body target vi)
        (fun vi => vi.vorigName == name && isInScope body target vi) block.blocals := rfl

theorem visibleLocal_eq (body : Block) (target : Nat) (name : String) :
    visibleLocal body target name = (holders body target).findSome? fun block =>
      pick (fun vi => vi.vname == name && isVisible (block.before target) vi)
        (fun vi => vi.vorigName == name && isVisible (block.before target) vi) block.blocals := by
  simp only [visibleLocal, findInBlock_eq]

theorem visible_inScope (wellScoped : Scoped globals fundec)
    (member : block ∈ holders fundec.sbody target) :
    ∀ vi ∈ block.blocals, isVisible (block.before target) vi = true →
      isInScope fundec.sbody target vi = true := by
  obtain ⟨listed, holds⟩ := mem_holders.mp member
  exact fun vi declared => isInScope_of_isVisible wellScoped listed holds declared

theorem visibleLocal_none (wellScoped : Scoped globals fundec)
    (none_found : localInScope fundec.sbody target name = none) :
    visibleLocal fundec.sbody target name = none := by
  rw [visibleLocal_eq]
  rw [localInScope_eq] at none_found
  exact findSome?_none_of_lax
    (fun block member => pick_none_of_wider (visible_inScope wellScoped member)) none_found

theorem visibleLocal_some (wellScoped : Scoped globals fundec)
    (found : localInScope fundec.sbody target name = some vi)
    (seen : ∀ block ∈ holders fundec.sbody target, vi ∈ block.blocals →
      isVisible (block.before target) vi = true) :
    visibleLocal fundec.sbody target name = some vi := by
  rw [visibleLocal_eq]
  rw [localInScope_eq] at found
  apply findSome?_of_lax
    (fun block member => pick_none_of_wider (visible_inScope wellScoped member)) found
  intro block member picked
  exact pick_of_wider (visible_inScope wellScoped member) picked
    (seen block member (mem_of_pick picked).1)

/-- A local stands in one block only. -/
theorem eq_of_declared (wellScoped : Scoped globals fundec) {first second : Block}
    (early : first ∈ fundec.sbody.blocks) (late : second ∈ fundec.sbody.blocks)
    (own : vi ∈ first.blocals) (other : vi ∈ second.blocals) : first = second := by
  have unique : (fundec.sbody.blocks.flatMap Block.blocals).Nodup := by
    rw [← Block.scopes_eq]
    exact (List.nodup_append.mp wellScoped.vars).1
  by_contra apart
  have symmetric : Std.Symm (Function.onFun List.Disjoint Block.blocals) :=
    ⟨fun _ _ disjoint _ first second => disjoint second first⟩
  exact (List.nodup_flatMap.mp unique).2.forall early late apart own other

theorem visible_of_visibleLocal (found : visibleLocal fundec.sbody target name = some vi) :
    ∃ block ∈ holders fundec.sbody target, vi ∈ block.blocals ∧
      isVisible (block.before target) vi = true := by
  rw [visibleLocal_eq] at found
  obtain ⟨block, member, picked⟩ := List.exists_of_findSome?_eq_some found
  obtain ⟨declared, named⟩ := mem_of_pick picked
  refine ⟨block, member, declared, ?_⟩
  rcases named with named | named <;> exact (Bool.and_eq_true_iff.mp named).2

theorem declared_of_localInScope (found : localInScope fundec.sbody target name = some vi) :
    ∃ block ∈ holders fundec.sbody target, vi ∈ block.blocals := by
  rw [localInScope_eq] at found
  obtain ⟨block, member, picked⟩ := List.exists_of_findSome?_eq_some found
  exact ⟨block, member, (mem_of_pick picked).1⟩

/-- A local is neither a formal nor a global. -/
theorem outsideScope_ne (wellScoped : Scoped globals fundec) (listed : block ∈ fundec.sbody.blocks)
    (declared : vi ∈ block.blocals) : outsideScope globals fundec name ≠ some vi := by
  intro found
  have inside : vi ∈ fundec.sbody.scopes := by
    rw [Block.scopes_eq]
    exact List.mem_flatMap.mpr ⟨block, listed, declared⟩
  have outside : vi ∈ fundec.sformals ++ globals := by
    rcases Option.or_eq_some_iff.mp found with formal | ⟨_, global⟩
    · exact List.mem_append_left _ (List.mem_of_find?_eq_some formal)
    · exact List.mem_append_right _ (List.mem_of_find?_eq_some global)
  exact (List.nodup_append.mp wellScoped.vars).2.2 vi inside vi outside rfl

/-- The initializer of the local stands in the list of the block that declares it, or in a sequence
of this list, before the statement that holds the target. -/
def StartsInBlock (body : Block) (target : Nat) (vi : Varinfo) : Prop :=
  ∃ block ∈ body.blocks, vi ∈ block.blocals ∧ target ∈ block.sids ∧
    (block.before target).any (initializes vi) = true

end Scope

/-- A name is resolved by scope where the local in scope has no initializer or one in the list of
its block. -/
theorem findVarInScope_scope_iff (globals : List Varinfo) (fundec : Fundec) (target : Nat)
    (name : String) (wellScoped : Scoped globals fundec)
    (present : target ∈ fundec.sbody.sids) :
    (∀ vi, findVarInScope globals fundec target name = .ok vi ↔
        inScope globals fundec target name = some vi) ↔
      ∀ vi, localInScope fundec.sbody target name = some vi → vi.vdefined = true →
        StartsInBlock fundec.sbody target vi := by
  simp only [findVarInScope_ok_iff wellScoped present]
  rw [inScope]
  constructor
  · intro agree vi found defined
    rw [found, Option.some_or] at agree
    obtain ⟨block, member, declared⟩ := declared_of_localInScope found
    obtain ⟨listed, holds⟩ := mem_holders.mp member
    rcases Option.or_eq_some_iff.mp ((agree vi).mpr rfl) with own | ⟨_, other⟩
    · obtain ⟨home, inside, here, visible⟩ := visible_of_visibleLocal own
      obtain ⟨known, holdsHome⟩ := mem_holders.mp inside
      refine ⟨home, known, here, holdsHome, ?_⟩
      rw [isVisible, defined] at visible
      exact visible
    · exact absurd other (outsideScope_ne wellScoped listed declared)
  · intro starts vi
    cases found : localInScope fundec.sbody target name with
    | none => rw [visibleLocal_none wellScoped found]
    | some own =>
        have seen : visibleLocal fundec.sbody target name = some own := by
          apply visibleLocal_some wellScoped found
          intro block member declared
          rw [isVisible]
          by_cases defined : own.vdefined = true
          · obtain ⟨home, listed, here, _, initialized⟩ := starts own found defined
            obtain rfl := eq_of_declared wellScoped listed (mem_holders.mp member).1 here declared
            rw [initialized, Bool.or_true]
          · rw [Bool.eq_false_iff.mpr defined]
            rfl
        rw [seen]

def outerLocal : Varinfo := { vid := 1, vname := "t" }

def innerLocal : Varinfo := { vid := 2, vname := "t_0", vorigName := "t", vdefined := true }

/-- The inner local is initialized in the sequence that holds the target. -/
def sequenceFundec : Fundec where
  svar := { vid := 0, vname := "f", vtype := "int (void)", vglob := true }
  sformals := []
  slocals := [outerLocal, innerLocal]
  sbody := .mk [outerLocal] [.block ⟨1, false, []⟩ (.mk [innerLocal]
    [.unspecifiedSequence ⟨2, false, []⟩
      [.instr ⟨3, false, []⟩ (.localInit innerLocal (.assignInit []) 4),
        .instr ⟨4, false, []⟩ (.skip 4)]])]

theorem scoped_sequenceFundec : Scoped [] sequenceFundec where
  plain := by decide
  sids := by decide
  vars := by decide
  defined := by decide

/-- The sequence is not entered, so the outer local is found. -/
theorem findVarInScope_not_inScope :
    Scoped [] sequenceFundec ∧ 4 ∈ sequenceFundec.sbody.sids ∧
      findVarInScope [] sequenceFundec 4 "t" = .ok outerLocal ∧
      inScope [] sequenceFundec 4 "t" = some innerLocal :=
  ⟨scoped_sequenceFundec, by decide, by decide, by decide⟩

/-- Before the inner block the name resolves to the outer local. -/
theorem findVarInScope_scope_iff_sequence :
    (∀ vi, findVarInScope [] sequenceFundec 1 "t" = .ok vi ↔
        inScope [] sequenceFundec 1 "t" = some vi) ∧
      findVarInScope [] sequenceFundec 1 "t" = .ok outerLocal := by
  refine ⟨(findVarInScope_scope_iff [] sequenceFundec 1 "t" scoped_sequenceFundec
    (by decide)).mpr ?_, by decide⟩
  intro vi found defined
  have outer : localInScope sequenceFundec.sbody 1 "t" = some outerLocal := by decide
  obtain rfl := Option.some.inj (outer.symm.trans found)
  cases defined

end FramaCMcp.Ghost
