/-
This file shows that an edit of a body replaces one block of it and leaves the rest in place.
-/

import Mathlib.Data.List.Basic
import FramaCMcp.Construction.GhostEdits

namespace Cil

def sidsOf (nodes : List Node) : List Nat := nodes.map fun node => node.info.sid

theorem sidsOf_append (first second : List Node) :
    sidsOf (first ++ second) = sidsOf first ++ sidsOf second := List.map_append

/-- Two parts of a list without repetition have nothing in common. -/
theorem nodup_parts {first second : List Nat} (unique : (first ++ second).Nodup) :
    first.Nodup ∧ second.Nodup ∧ ∀ number ∈ first, number ∉ second := by
  obtain ⟨early, late, apart⟩ := List.nodup_append.mp unique
  exact ⟨early, late, fun number inside behind => apart number inside number behind rfl⟩

/-- A list function that puts the parts of its items one after another can be cut at each place. -/
theorem append_of_cons {Item Entry : Type} {all : List Item → List Entry} (own : Item → List Entry)
    (empty : all [] = []) (step : ∀ item rest, all (item :: rest) = own item ++ all rest)
    (first second : List Item) : all (first ++ second) = all first ++ all second := by
  induction first with
  | nil => rw [empty, List.nil_append, List.nil_append]
  | cons item rest ih => rw [List.cons_append, step, step, ih, List.append_assoc]

end Cil

namespace FramaCMcp.Ghost

open Cil

/-- A statement has a hole where one of its blocks stood. -/
inductive Shape where
  | thenOf (info : StmtInfo) (guard : Exp) (elseBlock : Block)
  | elseOf (info : StmtInfo) (guard : Exp) (thenBlock : Block)
  | switchOf (info : StmtInfo) (subject : Exp)
  | loopOf (info : StmtInfo)
  | blockOf (info : StmtInfo)
  | tryBody (info : StmtInfo) (handlers : List Block)
  | tryHandler (info : StmtInfo) (body : Block) (before after : List Block)
  | sequenceOf (info : StmtInfo) (before after : List Stmt) (inner : Shape)

/-- The block takes the place of the hole. -/
def Shape.fill : Shape → Block → Stmt
  | .thenOf info guard elseBlock, block => .branch info guard block elseBlock
  | .elseOf info guard thenBlock, block => .branch info guard thenBlock block
  | .switchOf info subject, block => .switch info subject block
  | .loopOf info, block => .loop info block
  | .blockOf info, block => .block info block
  | .tryBody info handlers, block => .tryStmt info block handlers
  | .tryHandler info body before after, block => .tryStmt info body (before ++ block :: after)
  | .sequenceOf info before after inner, block =>
      .unspecifiedSequence info (before ++ inner.fill block :: after)

/-- The statement with the hole stands between others in a block. -/
structure Layer where
  blocals : List Varinfo
  before : List Stmt
  shape : Shape
  after : List Stmt

/-- The statements around the hole stay where they are. -/
def Layer.fill (layer : Layer) (block : Block) : Block :=
  .mk layer.blocals (layer.before ++ layer.shape.fill block :: layer.after)

/-- The outermost layer comes first. -/
def plug : List Layer → Block → Block
  | [], block => block
  | layer :: rest, block => layer.fill (plug rest block)

theorem stmtNodes_append (blocals : List Varinfo) (first second : List Stmt) :
    stmtNodes blocals (first ++ second) = stmtNodes blocals first ++ stmtNodes blocals second :=
  append_of_cons (Stmt.nodes blocals) rfl (fun _ _ => rfl) first second

theorem blockNodes_append (first second : List Block) :
    blockNodes (first ++ second) = blockNodes first ++ blockNodes second :=
  append_of_cons Block.nodes rfl (fun _ _ => rfl) first second

theorem stmtScopes_append (first second : List Stmt) :
    stmtScopes (first ++ second) = stmtScopes first ++ stmtScopes second :=
  append_of_cons Stmt.scopes rfl (fun _ _ => rfl) first second

theorem blockScopes_append (first second : List Block) :
    blockScopes (first ++ second) = blockScopes first ++ blockScopes second :=
  append_of_cons Block.scopes rfl (fun _ _ => rfl) first second

theorem eraseStmts_append (first second : List Stmt) :
    eraseStmts (first ++ second) = eraseStmts first ++ eraseStmts second :=
  append_of_cons (fun stmt => if stmt.info.ghost then [] else [stmt.eraseGhost]) rfl
    (fun stmt rest => by rw [eraseStmts]; split_ifs <;> rfl) first second

theorem eraseBlocks_append (first second : List Block) :
    eraseBlocks (first ++ second) = eraseBlocks first ++ eraseBlocks second :=
  append_of_cons (fun block => [block.eraseGhost]) rfl (fun _ _ => rfl) first second

/-- A list function that reads the hole once has the same surroundings for every block. -/
def ReadsHole {A B Entry : Type} (whole : B → List Entry) (fill : A → B) (part : A → List Entry) :
    Prop := ∃ left right, ∀ block, whole (fill block) = left ++ part block ++ right

/-- A hole inside a hole is read once where both are. -/
theorem ReadsHole.trans {A B C Entry : Type} {outer : C → List Entry} {middle : B → List Entry}
    {inner : A → List Entry} {wrap : B → C} {fill : A → B}
    (outside : ReadsHole outer wrap middle) (inside : ReadsHole middle fill inner) :
    ReadsHole outer (wrap ∘ fill) inner := by
  obtain ⟨left, right, whole⟩ := outside
  obtain ⟨left', right', part⟩ := inside
  refine ⟨left ++ left', right' ++ right, fun block => ?_⟩
  rw [Function.comp_apply, whole, part]
  simp only [List.append_assoc]

/-- The nodes of the block stand together among those of the statement. -/
theorem shape_nodes (blocals : List Varinfo) (shape : Shape) :
    ReadsHole (Stmt.nodes blocals) shape.fill Block.nodes := by
  induction shape with
  | thenOf info guard elseBlock =>
      exact ⟨[⟨blocals, info, none⟩], elseBlock.nodes, fun block => rfl⟩
  | elseOf info guard thenBlock =>
      exact ⟨⟨blocals, info, none⟩ :: thenBlock.nodes, [], fun block => by
        rw [List.append_nil]
        rfl⟩
  | switchOf info subject =>
      exact ⟨[⟨blocals, info, none⟩], [], fun block => (List.append_nil _).symm⟩
  | loopOf info => exact ⟨[⟨blocals, info, none⟩], [], fun block => (List.append_nil _).symm⟩
  | blockOf info => exact ⟨[⟨blocals, info, none⟩], [], fun block => (List.append_nil _).symm⟩
  | tryBody info handlers =>
      exact ⟨[⟨blocals, info, none⟩], blockNodes handlers, fun block => rfl⟩
  | tryHandler info body before after =>
      refine ⟨⟨blocals, info, none⟩ :: (body.nodes ++ blockNodes before), blockNodes after,
        fun block => ?_⟩
      rw [Shape.fill, Stmt.nodes, blockNodes_append, blockNodes]
      simp only [List.cons_append, List.append_assoc]
  | sequenceOf info before after inner ih =>
      obtain ⟨left, right, part⟩ := ih
      refine ⟨⟨blocals, info, none⟩ :: (stmtNodes blocals before ++ left),
        right ++ stmtNodes blocals after, fun block => ?_⟩
      rw [Shape.fill, Stmt.nodes, stmtNodes_append, stmtNodes, part]
      simp only [List.cons_append, List.append_assoc]

theorem shape_scopes (shape : Shape) : ReadsHole Stmt.scopes shape.fill Block.scopes := by
  induction shape with
  | thenOf info guard elseBlock => exact ⟨[], elseBlock.scopes, fun block => rfl⟩
  | elseOf info guard thenBlock =>
      exact ⟨thenBlock.scopes, [], fun block => (List.append_nil _).symm⟩
  | switchOf info subject => exact ⟨[], [], fun block => (List.append_nil _).symm⟩
  | loopOf info => exact ⟨[], [], fun block => (List.append_nil _).symm⟩
  | blockOf info => exact ⟨[], [], fun block => (List.append_nil _).symm⟩
  | tryBody info handlers => exact ⟨[], blockScopes handlers, fun block => rfl⟩
  | tryHandler info body before after =>
      refine ⟨body.scopes ++ blockScopes before, blockScopes after, fun block => ?_⟩
      rw [Shape.fill, Stmt.scopes, blockScopes_append, blockScopes]
      simp only [List.append_assoc]
  | sequenceOf info before after inner ih =>
      obtain ⟨left, right, part⟩ := ih
      refine ⟨stmtScopes before ++ left, right ++ stmtScopes after, fun block => ?_⟩
      rw [Shape.fill, Stmt.scopes, stmtScopes_append, stmtScopes, part]
      simp only [List.append_assoc]

theorem layer_nodes (layer : Layer) : ReadsHole Block.nodes layer.fill Block.nodes := by
  have around : ReadsHole Block.nodes
      (fun stmt => Block.mk layer.blocals (layer.before ++ stmt :: layer.after))
      (Stmt.nodes layer.blocals) := by
    refine ⟨stmtNodes layer.blocals layer.before, stmtNodes layer.blocals layer.after,
      fun stmt => ?_⟩
    rw [Block.nodes, stmtNodes_append, stmtNodes, List.append_assoc]
  exact around.trans (shape_nodes layer.blocals layer.shape)

theorem layer_scopes (layer : Layer) : ReadsHole Block.scopes layer.fill Block.scopes := by
  have around : ReadsHole Block.scopes
      (fun stmt => Block.mk layer.blocals (layer.before ++ stmt :: layer.after)) Stmt.scopes := by
    refine ⟨layer.blocals ++ stmtScopes layer.before, stmtScopes layer.after, fun stmt => ?_⟩
    rw [Block.scopes, stmtScopes_append, stmtScopes]
    simp only [List.append_assoc]
  exact around.trans (shape_scopes layer.shape)

/-- The induction is on the layers, from the outermost one. -/
theorem plug_nodes (layers : List Layer) : ReadsHole Block.nodes (plug layers) Block.nodes := by
  induction layers with
  | nil => exact ⟨[], [], fun block => (List.append_nil _).symm⟩
  | cons layer rest ih => exact (layer_nodes layer).trans ih

theorem plug_scopes (layers : List Layer) : ReadsHole Block.scopes (plug layers) Block.scopes := by
  induction layers with
  | nil => exact ⟨[], [], fun block => (List.append_nil _).symm⟩
  | cons layer rest ih => exact (layer_scopes layer).trans ih

/-- The block is no part of what is said about the statement itself. -/
theorem shape_info (shape : Shape) (first second : Block) :
    (shape.fill first).info = (shape.fill second).info := by
  cases shape <;> rfl

/-- Two blocks with the same code without ghosts give the same code in any place. -/
theorem shape_eraseGhost (shape : Shape) {first second : Block}
    (same : first.eraseGhost = second.eraseGhost) :
    (shape.fill first).eraseGhost = (shape.fill second).eraseGhost := by
  induction shape with
  | tryHandler info body before after =>
      rw [Shape.fill, Shape.fill, Stmt.eraseGhost, Stmt.eraseGhost, eraseBlocks_append,
        eraseBlocks_append, eraseBlocks, eraseBlocks, same]
  | sequenceOf info before after inner ih =>
      rw [Shape.fill, Shape.fill, Stmt.eraseGhost, Stmt.eraseGhost, eraseStmts_append,
        eraseStmts_append, eraseStmts, eraseStmts, shape_info inner first second, ih]
  | _ => simp only [Shape.fill, Stmt.eraseGhost, same]

/-- Blocks that differ in ghost code alone make bodies that do so as well. -/
theorem plug_eraseGhost (layers : List Layer) {first second : Block}
    (same : first.eraseGhost = second.eraseGhost) :
    (plug layers first).eraseGhost = (plug layers second).eraseGhost := by
  induction layers with
  | nil => exact same
  | cons layer rest ih =>
      rw [plug, plug, Layer.fill, Layer.fill, Block.eraseGhost, Block.eraseGhost,
        eraseStmts_append, eraseStmts_append, eraseStmts, eraseStmts,
        shape_info layer.shape (plug rest first) (plug rest second), shape_eraseGhost _ ih]

section Replacing

variable (allowed : Shape → Prop) (changes : Block → Block → Prop)

/-- One block of a body is changed, in a place that is allowed. -/
def Replaces (old new : Block) : Prop :=
  ∃ layers hole filled, (∀ layer ∈ layers, allowed layer.shape) ∧ changes hole filled ∧
    old = plug layers hole ∧ new = plug layers filled

/-- One block somewhere in the statement is changed. -/
def StmtReplaces (old new : Stmt) : Prop :=
  ∃ shape inner edited, allowed shape ∧ Replaces allowed changes inner edited ∧
    old = shape.fill inner ∧ new = shape.fill edited

/-- One statement of the list is changed, and the others stand where they stood. -/
def StmtsReplace (old new : List Stmt) : Prop :=
  ∃ before stmt edited after, StmtReplaces allowed changes stmt edited ∧
    old = before ++ stmt :: after ∧ new = before ++ edited :: after

variable {allowed changes}

theorem Replaces.here {old new : Block} (changed : changes old new) :
    Replaces allowed changes old new :=
  ⟨[], old, new, fun _ member => absurd member List.not_mem_nil, changed, rfl, rfl⟩

theorem Replaces.fill {old new : Block} (inside : Replaces allowed changes old new) (shape : Shape)
    (permitted : allowed shape) :
    StmtReplaces allowed changes (shape.fill old) (shape.fill new) :=
  ⟨shape, old, new, permitted, inside, rfl, rfl⟩

theorem StmtReplaces.head {old new : Stmt} (inside : StmtReplaces allowed changes old new)
    (rest : List Stmt) : StmtsReplace allowed changes (old :: rest) (new :: rest) :=
  ⟨[], old, new, rest, inside, rfl, rfl⟩

theorem StmtsReplace.tail {old new : List Stmt} (inside : StmtsReplace allowed changes old new)
    (stmt : Stmt) : StmtsReplace allowed changes (stmt :: old) (stmt :: new) := by
  obtain ⟨before, inner, edited, after, replaced, rfl, rfl⟩ := inside
  exact ⟨stmt :: before, inner, edited, after, replaced, rfl, rfl⟩

theorem StmtsReplace.block {old new : List Stmt} (inside : StmtsReplace allowed changes old new)
    (blocals : List Varinfo) : Replaces allowed changes (.mk blocals old) (.mk blocals new) := by
  obtain ⟨before, _, _, after, ⟨shape, _, _, permitted, ⟨layers, hole, filled, all, changed, rfl,
    rfl⟩, rfl, rfl⟩, rfl, rfl⟩ := inside
  exact ⟨⟨blocals, before, shape, after⟩ :: layers, hole, filled,
    List.forall_mem_cons.mpr ⟨permitted, all⟩, changed, rfl, rfl⟩

end Replacing

/-- The insertion of a statement descends into these statements. -/
def Shape.plain : Shape → Bool
  | .thenOf _ _ _ => true
  | .elseOf _ _ _ => true
  | .switchOf _ _ => true
  | .loopOf _ => true
  | .blockOf _ => true
  | .tryBody _ _ => false
  | .tryHandler _ _ _ _ => false
  | .sequenceOf _ _ _ _ => false

/-- The block that holds the target gets the statement and the locals. -/
def Spliced (target : Nat) (new : Stmt) (locals : List Varinfo) (old edited : Block) : Prop :=
  ∃ blocals bstmts, (∃ stmt ∈ bstmts, stmt.sid = target) ∧ old = .mk blocals bstmts ∧
    edited = .mk (blocals ++ locals) (splice target new bstmts)

section Insertion

variable {target : Nat} {new : Stmt} {locals : List Varinfo}

mutual

/-- An insertion changes the block that holds its target, and no other one. -/
theorem insertInBlock_replaces (block edited : Block)
    (inserted : insertInBlock target new locals block = some edited) :
    Replaces (fun shape => shape.plain = true) (Spliced target new locals) block edited := by
  rcases block with ⟨blocals, bstmts⟩
  rw [insertInBlock] at inserted
  split_ifs at inserted with holds
  · obtain ⟨stmt, member, same⟩ := List.any_eq_true.mp holds
    cases inserted
    exact .here ⟨blocals, bstmts, ⟨stmt, member, beq_iff_eq.mp same⟩, rfl, rfl⟩
  · obtain ⟨stmts, found, rfl⟩ := Option.map_eq_some_iff.mp inserted
    exact (insertInStmts_replaces bstmts stmts found).block blocals
termination_by structural block

theorem insertInStmts_replaces (bstmts edited : List Stmt)
    (inserted : insertInStmts target new locals bstmts = some edited) :
    StmtsReplace (fun shape => shape.plain = true) (Spliced target new locals) bstmts edited := by
  cases bstmts with
  | nil => cases inserted
  | cons stmt rest =>
      rw [insertInStmts] at inserted
      cases found : insertInStmt target new locals stmt with
      | some changed =>
          rw [found] at inserted
          cases inserted
          exact (insertInStmt_replaces stmt changed found).head rest
      | none =>
          rw [found] at inserted
          obtain ⟨others, later, rfl⟩ := Option.map_eq_some_iff.mp inserted
          exact (insertInStmts_replaces rest others later).tail stmt
termination_by structural bstmts

theorem insertInStmt_replaces (stmt edited : Stmt)
    (inserted : insertInStmt target new locals stmt = some edited) :
    StmtReplaces (fun shape => shape.plain = true) (Spliced target new locals) stmt edited := by
  cases stmt with
  | branch info guard thenBlock elseBlock =>
      rw [insertInStmt] at inserted
      cases found : insertInBlock target new locals thenBlock with
      | some changed =>
          rw [found] at inserted
          cases inserted
          exact (insertInBlock_replaces thenBlock changed found).fill
            (.thenOf info guard elseBlock) rfl
      | none =>
          rw [found] at inserted
          obtain ⟨changed, later, rfl⟩ := Option.map_eq_some_iff.mp inserted
          exact (insertInBlock_replaces elseBlock changed later).fill
            (.elseOf info guard thenBlock) rfl
  | loop info body =>
      obtain ⟨changed, found, rfl⟩ := Option.map_eq_some_iff.mp inserted
      exact (insertInBlock_replaces body changed found).fill (.loopOf info) rfl
  | block info body =>
      obtain ⟨changed, found, rfl⟩ := Option.map_eq_some_iff.mp inserted
      exact (insertInBlock_replaces body changed found).fill (.blockOf info) rfl
  | switch info subject body =>
      obtain ⟨changed, found, rfl⟩ := Option.map_eq_some_iff.mp inserted
      exact (insertInBlock_replaces body changed found).fill (.switchOf info subject) rfl
  | instr => cases inserted
  | jump => cases inserted
  | unspecifiedSequence => cases inserted
  | tryStmt => cases inserted
termination_by structural stmt

end

end Insertion

section Filling

variable {target : Nat} {new : Stmt}

/-- A branch that was empty holds the new statement. -/
def Filled (new : Stmt) (old edited : Block) : Prop :=
  ∃ blocals, old = .mk blocals [] ∧ edited = .mk blocals [new]

theorem filled_of_fillEmpty {block edited : Block} (made : fillEmpty new block = some edited) :
    Filled new block edited := by
  rcases block with ⟨blocals, bstmts⟩
  cases bstmts with
  | nil =>
      cases made
      exact ⟨blocals, rfl, rfl⟩
  | cons => cases made

mutual

/-- Filling an else branch changes that branch, and nothing else. -/
theorem fillElse_replaces (block edited : Block) (made : fillElse target new block = some edited) :
    Replaces (fun _ => True) (Filled new) block edited := by
  rcases block with ⟨blocals, bstmts⟩
  obtain ⟨stmts, found, rfl⟩ := Option.map_eq_some_iff.mp made
  exact (fillElseStmts_replaces bstmts stmts found).block blocals
termination_by structural block

theorem fillElseStmts_replaces (bstmts edited : List Stmt)
    (made : fillElseStmts target new bstmts = some edited) :
    StmtsReplace (fun _ => True) (Filled new) bstmts edited := by
  cases bstmts with
  | nil => cases made
  | cons stmt rest =>
      rw [fillElseStmts] at made
      cases found : fillElseStmt target new stmt with
      | some changed =>
          rw [found] at made
          cases made
          exact (fillElseStmt_replaces stmt changed found).head rest
      | none =>
          rw [found] at made
          obtain ⟨others, later, rfl⟩ := Option.map_eq_some_iff.mp made
          exact (fillElseStmts_replaces rest others later).tail stmt
termination_by structural bstmts

theorem fillElseStmt_replaces (stmt edited : Stmt)
    (made : fillElseStmt target new stmt = some edited) :
    StmtReplaces (fun _ => True) (Filled new) stmt edited := by
  cases stmt with
  | branch info guard thenBlock elseBlock =>
      rw [fillElseStmt] at made
      split_ifs at made with here
      · obtain ⟨changed, found, rfl⟩ := Option.map_eq_some_iff.mp made
        exact (Replaces.here (filled_of_fillEmpty found)).fill (.elseOf info guard thenBlock) trivial
      · cases found : fillElse target new thenBlock with
        | some changed =>
            rw [found] at made
            cases made
            exact (fillElse_replaces thenBlock changed found).fill
              (.thenOf info guard elseBlock) trivial
        | none =>
            rw [found] at made
            obtain ⟨changed, later, rfl⟩ := Option.map_eq_some_iff.mp made
            exact (fillElse_replaces elseBlock changed later).fill
              (.elseOf info guard thenBlock) trivial
  | loop info body =>
      obtain ⟨changed, found, rfl⟩ := Option.map_eq_some_iff.mp made
      exact (fillElse_replaces body changed found).fill (.loopOf info) trivial
  | block info body =>
      obtain ⟨changed, found, rfl⟩ := Option.map_eq_some_iff.mp made
      exact (fillElse_replaces body changed found).fill (.blockOf info) trivial
  | switch info subject body =>
      obtain ⟨changed, found, rfl⟩ := Option.map_eq_some_iff.mp made
      exact (fillElse_replaces body changed found).fill (.switchOf info subject) trivial
  | unspecifiedSequence info stmts =>
      obtain ⟨changed, found, rfl⟩ := Option.map_eq_some_iff.mp made
      obtain ⟨before, _, _, after, ⟨shape, inner, inside, -, replaced, rfl, rfl⟩, rfl, rfl⟩ :=
        fillElseStmts_replaces stmts changed found
      exact replaced.fill (.sequenceOf info before after shape) trivial
  | tryStmt info body handlers =>
      rw [fillElseStmt] at made
      cases found : fillElse target new body with
      | some changed =>
          rw [found] at made
          cases made
          exact (fillElse_replaces body changed found).fill (.tryBody info handlers) trivial
      | none =>
          rw [found] at made
          obtain ⟨changed, later, rfl⟩ := Option.map_eq_some_iff.mp made
          obtain ⟨before, handler, inside, after, replaced, rfl, rfl⟩ :=
            fillElseBlocks_replaces handlers changed later
          exact replaced.fill (.tryHandler info body before after) trivial
  | instr => cases made
  | jump => cases made
termination_by structural stmt

/-- One of the handlers is changed. -/
theorem fillElseBlocks_replaces (blocks edited : List Block)
    (made : fillElseBlocks target new blocks = some edited) :
    ∃ before block changed after, Replaces (fun _ => True) (Filled new) block changed ∧
      blocks = before ++ block :: after ∧ edited = before ++ changed :: after := by
  cases blocks with
  | nil => cases made
  | cons block rest =>
      rw [fillElseBlocks] at made
      cases found : fillElse target new block with
      | some changed =>
          rw [found] at made
          cases made
          exact ⟨[], block, changed, rest, fillElse_replaces block changed found, rfl, rfl⟩
      | none =>
          rw [found] at made
          obtain ⟨others, later, rfl⟩ := Option.map_eq_some_iff.mp made
          obtain ⟨before, handler, inside, after, replaced, rfl, rfl⟩ :=
            fillElseBlocks_replaces rest others later
          exact ⟨block :: before, handler, inside, after, replaced, rfl, rfl⟩
termination_by structural blocks

end

end Filling

section Removal

/-- None of the nodes has one of these numbers. -/
def Avoids (sids : List Nat) (nodes : List Node) : Prop := ∀ node ∈ nodes, node.info.sid ∉ sids

theorem Avoids.append {sids : List Nat} {first second : List Node} :
    Avoids sids (first ++ second) ↔ Avoids sids first ∧ Avoids sids second :=
  List.forall_mem_append

/-- A statement is the first of its own nodes. -/
theorem nodes_eq_cons (blocals : List Varinfo) (stmt : Stmt) :
    ∃ instr rest, stmt.nodes blocals = ⟨blocals, stmt.info, instr⟩ :: rest := by
  cases stmt <;> exact ⟨_, _, rfl⟩

/-- The numbers that are avoided are not those of the statement. -/
theorem Avoids.sid {sids : List Nat} {blocals : List Varinfo} {stmt : Stmt}
    (avoids : Avoids sids (stmt.nodes blocals)) : stmt.sid ∉ sids := by
  obtain ⟨instr, rest, nodes⟩ := nodes_eq_cons blocals stmt
  rw [nodes] at avoids
  exact (List.forall_mem_cons.mp avoids).1

variable {sids : List Nat}

mutual

/-- Nothing is removed where no statement has one of the numbers. -/
theorem removeFromBlock_eq_self (block : Block) (avoids : Avoids sids block.nodes) :
    removeFromBlock sids block = block := by
  rcases block with ⟨blocals, bstmts⟩
  rw [removeFromBlock, removeFromStmts_eq_self blocals bstmts avoids]
termination_by structural block

theorem removeFromStmts_eq_self (blocals : List Varinfo) (bstmts : List Stmt)
    (avoids : Avoids sids (stmtNodes blocals bstmts)) : removeFromStmts sids bstmts = bstmts := by
  cases bstmts with
  | nil => rfl
  | cons stmt rest =>
      obtain ⟨first, others⟩ := Avoids.append.mp avoids
      rw [removeFromStmts, if_neg first.sid, removeFromStmt_eq_self blocals stmt first,
        removeFromStmts_eq_self blocals rest others]
termination_by structural bstmts

theorem removeFromStmt_eq_self (blocals : List Varinfo) (stmt : Stmt)
    (avoids : Avoids sids (stmt.nodes blocals)) : removeFromStmt sids stmt = stmt := by
  cases stmt with
  | branch info guard thenBlock elseBlock =>
      obtain ⟨first, second⟩ := Avoids.append.mp (List.forall_mem_cons.mp avoids).2
      rw [removeFromStmt, removeFromBlock_eq_self thenBlock first,
        removeFromBlock_eq_self elseBlock second]
  | loop info body =>
      rw [removeFromStmt, removeFromBlock_eq_self body (List.forall_mem_cons.mp avoids).2]
  | block info body =>
      rw [removeFromStmt, removeFromBlock_eq_self body (List.forall_mem_cons.mp avoids).2]
  | switch info subject body =>
      rw [removeFromStmt, removeFromBlock_eq_self body (List.forall_mem_cons.mp avoids).2]
  | _ => rfl
termination_by structural stmt

end

theorem removeFromStmts_append (first second : List Stmt) :
    removeFromStmts sids (first ++ second) =
      removeFromStmts sids first ++ removeFromStmts sids second :=
  append_of_cons (fun stmt => if stmt.sid ∈ sids then [] else [removeFromStmt sids stmt]) rfl
    (fun stmt rest => by rw [removeFromStmts]; split_ifs <;> rfl) first second

/-- The statement with the hole stays, so the removal goes on inside the block. -/
theorem removeFromStmt_fill {blocals : List Varinfo} {shape : Shape} (plain : shape.plain = true)
    {hole : Block} (avoids : Avoids sids ((shape.fill hole).nodes blocals)) (block : Block) :
    removeFromStmt sids (shape.fill block) = shape.fill (removeFromBlock sids block) := by
  cases shape with
  | thenOf info guard elseBlock =>
      have outside := (Avoids.append.mp (List.forall_mem_cons.mp avoids).2).2
      rw [Shape.fill, removeFromStmt, removeFromBlock_eq_self elseBlock outside, Shape.fill]
  | elseOf info guard thenBlock =>
      have outside := (Avoids.append.mp (List.forall_mem_cons.mp avoids).2).1
      rw [Shape.fill, removeFromStmt, removeFromBlock_eq_self thenBlock outside, Shape.fill]
  | switchOf => rfl
  | loopOf => rfl
  | blockOf => rfl
  | tryBody => cases plain
  | tryHandler => cases plain
  | sequenceOf => cases plain

/-- A removal of other numbers reaches the hole and nothing around it. -/
theorem removeFromBlock_plug {layers : List Layer}
    (plain : ∀ layer ∈ layers, layer.shape.plain = true) {hole : Block}
    (avoids : Avoids sids (plug layers hole).nodes) (block : Block) :
    removeFromBlock sids (plug layers block) = plug layers (removeFromBlock sids block) := by
  induction layers with
  | nil => rfl
  | cons layer rest ih =>
      obtain ⟨first, others⟩ := List.forall_mem_cons.mp plain
      rw [plug, Layer.fill, Block.nodes, stmtNodes_append, stmtNodes, Avoids.append,
        Avoids.append] at avoids
      obtain ⟨before, inside, after⟩ := avoids
      have inner : Avoids sids (plug rest hole).nodes := by
        obtain ⟨left, right, nodes⟩ := shape_nodes layer.blocals layer.shape
        rw [nodes, Avoids.append, Avoids.append] at inside
        exact inside.1.2
      have kept : (layer.shape.fill (plug rest block)).sid ∉ sids := by
        have same := congrArg StmtInfo.sid
          (shape_info layer.shape (plug rest block) (plug rest hole))
        intro member
        rw [Stmt.sid, same] at member
        exact inside.sid member
      rw [plug, plug, Layer.fill, Layer.fill, removeFromBlock, removeFromStmts_append,
        removeFromStmts, if_neg kept, removeFromStmts_eq_self _ _ before,
        removeFromStmts_eq_self _ _ after, removeFromStmt_fill first inside, ih others inner]

end Removal

end FramaCMcp.Ghost
