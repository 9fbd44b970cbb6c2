/-
This file shows what an edit of a body adds to it: new numbers, new ghost locals and no calls.
-/

import Mathlib.Data.List.Forall2
import Mathlib.Data.List.Nodup
import Mathlib.Data.List.Perm.Basic
import FramaCMcp.Proof.GhostContexts
import FramaCMcp.Construction.GhostInsertion

namespace FramaCMcp.Ghost

open Cil

/-- The same statement stands in another block. -/
def Relocated (old new : List Varinfo) (node moved : Node) : Prop :=
  moved.info = node.info ∧ moved.instr = node.instr ∧
    (moved.blocals = node.blocals ∨ node.blocals = old ∧ moved.blocals = new)

theorem relocated_same {old new : List Varinfo} (nodes : List Node) :
    List.Forall₂ (Relocated old new) nodes nodes :=
  List.forall₂_same.mpr fun _ _ => ⟨rfl, rfl, .inl rfl⟩

section Relocation

variable {old new : List Varinfo}

variable {nodes moved : List Node}

theorem relocated_head (info : StmtInfo) (instr : Option Instr)
    (rest : List.Forall₂ (Relocated old new) nodes moved) :
    List.Forall₂ (Relocated old new) (⟨old, info, instr⟩ :: nodes) (⟨new, info, instr⟩ :: moved) :=
  .cons ⟨rfl, rfl, .inr ⟨rfl, rfl⟩⟩ rest

mutual

/-- Only an unspecified sequence hands the locals of its block on. -/
theorem stmt_relocated (stmt : Stmt) :
    List.Forall₂ (Relocated old new) (stmt.nodes old) (stmt.nodes new) := by
  cases stmt with
  | instr info instr => exact relocated_head info instr .nil
  | jump info text => exact relocated_head info none .nil
  | branch info guard thenBlock elseBlock => exact relocated_head info none (relocated_same _)
  | switch info subject body => exact relocated_head info none (relocated_same _)
  | loop info body => exact relocated_head info none (relocated_same _)
  | block info body => exact relocated_head info none (relocated_same _)
  | unspecifiedSequence info stmts => exact relocated_head info none (stmts_relocated stmts)
  | tryStmt info body handlers => exact relocated_head info none (relocated_same _)
termination_by structural stmt

theorem stmts_relocated (stmts : List Stmt) :
    List.Forall₂ (Relocated old new) (stmtNodes old stmts) (stmtNodes new stmts) := by
  cases stmts with
  | nil => exact .nil
  | cons stmt rest => exact List.rel_append (stmt_relocated stmt) (stmts_relocated rest)
termination_by structural stmts

end

theorem relocated_sids (relocated : List.Forall₂ (Relocated old new) nodes moved) :
    moved.map (fun node => node.info.sid) = nodes.map fun node => node.info.sid := by
  induction relocated with
  | nil => rfl
  | cons first _ ih => rw [List.map_cons, List.map_cons, ih, first.1]

theorem relocated_calls (relocated : List.Forall₂ (Relocated old new) nodes moved) :
    nodeCalls moved = nodeCalls nodes := by
  induction relocated with
  | nil => rfl
  | cons first _ ih =>
      rw [nodeCalls] at ih ⊢
      rw [List.filterMap_cons, first.2.1, ih, nodeCalls, nodeCalls, List.filterMap_cons]

theorem relocated_origin (relocated : List.Forall₂ (Relocated old new) nodes moved) {node : Node}
    (member : node ∈ moved) : ∃ origin ∈ nodes, Relocated old new origin node := by
  induction relocated with
  | nil => cases member
  | cons first _ ih =>
      rcases List.mem_cons.mp member with rfl | later
      · exact ⟨_, List.mem_cons_self, first⟩
      · obtain ⟨origin, found, same⟩ := ih later
        exact ⟨origin, List.mem_cons_of_mem _ found, same⟩

end Relocation

theorem nodeCalls_append (first second : List Node) :
    nodeCalls (first ++ second) = nodeCalls first ++ nodeCalls second :=
  List.filterMap_append

/-- Where the target stands once, the statement is put before it. -/
theorem exists_splice {target : Nat} {new : Stmt} {bstmts : List Stmt}
    (present : ∃ stmt ∈ bstmts, stmt.sid = target) (unique : (bstmts.map Stmt.sid).Nodup) :
    ∃ before stmt after, bstmts = before ++ stmt :: after ∧ stmt.sid = target ∧
      splice target new bstmts = before ++ new :: stmt :: after := by
  have keeps {rest : List Stmt} (absent : ∀ stmt ∈ rest, stmt.sid ≠ target) :
      splice target new rest = rest := by
    rw [splice, List.flatMap_congr fun stmt member => if_neg (absent stmt member)]
    exact List.flatMap_singleton' rest
  induction bstmts with
  | nil => exact absurd present (by simp)
  | cons stmt rest ih =>
      obtain ⟨fresh, others⟩ := List.nodup_cons.mp unique
      by_cases here : stmt.sid = target
      · refine ⟨[], stmt, rest, rfl, here, ?_⟩
        have absent : ∀ other ∈ rest, other.sid ≠ target := fun other member same =>
          fresh (List.mem_map.mpr ⟨other, member, same.trans here.symm⟩)
        rw [splice, List.flatMap_cons, if_pos here, ← splice, keeps absent]
        rfl
      · obtain ⟨found, member, same⟩ := present
        have later : ∃ stmt ∈ rest, stmt.sid = target := by
          rcases List.mem_cons.mp member with rfl | tail
          · exact absurd same here
          · exact ⟨found, tail, same⟩
        obtain ⟨before, next, after, rfl, there, spliced⟩ := ih later others
        refine ⟨stmt :: before, next, after, rfl, there, ?_⟩
        rw [splice, List.flatMap_cons, if_neg here, ← splice, spliced]
        rfl

/-- The numbers of the statements of a block are among the numbers of its nodes. -/
theorem sids_sublist (blocals : List Varinfo) (bstmts : List Stmt) :
    (bstmts.map Stmt.sid).Sublist ((stmtNodes blocals bstmts).map fun node => node.info.sid) := by
  induction bstmts with
  | nil => exact .slnil
  | cons stmt rest ih =>
      obtain ⟨instr, inner, nodes⟩ := nodes_eq_cons blocals stmt
      rw [stmtNodes, nodes, List.map_cons, List.cons_append, List.map_cons, List.map_append]
      exact (ih.trans (List.sublist_append_right _ _)).cons_cons _

/-- None of the new variables has a number of the list. -/
def Fresh (declared vars : List Varinfo) : Prop :=
  ∀ vi ∈ declared, vi.vid ∉ vars.map Varinfo.vid

theorem ListedOnce.append {vars declared : List Varinfo} (fresh : Fresh declared vars)
    {vi : Varinfo} (listed : ListedOnce vars vi) : ListedOnce (vars ++ declared) vi := by
  have member : vi.vid ∈ vars.map Varinfo.vid := List.count_pos_iff.mp (listed ▸ Nat.one_pos)
  have absent : vi.vid ∉ declared.map Varinfo.vid := by
    intro found
    obtain ⟨other, declares, same⟩ := List.mem_map.mp found
    exact fresh other declares (same ▸ member)
  rw [ListedOnce, List.map_append, List.count_append, List.count_eq_zero.mpr absent]
  exact listed

theorem listedOnce_of_fresh {vars : List Varinfo} {vi : Varinfo} (fresh : Fresh [vi] vars) :
    ListedOnce (vars ++ [vi]) vi := by
  rw [ListedOnce, List.map_append, List.count_append,
    List.count_eq_zero.mpr (fresh vi List.mem_cons_self)]
  simp

theorem NodeListed.append {slocals declared : List Varinfo} (fresh : Fresh declared slocals)
    {node : Node} (listed : NodeListed slocals node) : NodeListed (slocals ++ declared) node :=
  fun vi initialized => ⟨(listed vi initialized).1.append fresh, (listed vi initialized).2⟩

theorem Fresh.subset {declared vars all : List Varinfo} (fresh : Fresh declared all)
    (inside : ∀ vi ∈ vars, vi ∈ all) : Fresh declared vars := by
  intro vi declares member
  obtain ⟨other, found, same⟩ := List.mem_map.mp member
  exact fresh vi declares (List.mem_map.mpr ⟨other, inside other found, same⟩)

/-- A new statement is ghost code with new numbers, and it declares its variables. -/
structure Piece (new : Stmt) (locals declared : List Varinfo) (sids : List Nat) : Prop where
  ghost : new.info.ghost = true
  localsGhost : ∀ vi ∈ locals, vi.vghost = true
  sids : ∀ blocals, (new.nodes blocals).map (fun node => node.info.sid) = sids
  calls : ∀ blocals, nodeCalls (new.nodes blocals) = []
  scopes : ∀ vi ∈ locals ++ new.scopes, vi ∈ declared
  listed : ∀ slocals blocals, Fresh declared slocals → Fresh declared blocals →
    ∀ node ∈ new.nodes (blocals ++ locals), NodeListed (slocals ++ declared) node

/-- An edited body has the old code and some new ghost code. -/
structure Grown (declared : List Varinfo) (sids : List Nat) (old edited : Block) : Prop where
  sids : edited.sids.Perm (sids ++ old.sids)
  calls : ∀ site ∈ bodyCalls edited, site ∈ bodyCalls old
  scopes : ∀ vi ∈ edited.scopes, vi ∈ declared ∨ vi ∈ old.scopes
  listed : ∀ slocals, Fresh declared slocals → Fresh declared old.scopes →
    (∀ node ∈ old.nodes, NodeListed slocals node) →
    ∀ node ∈ edited.nodes, NodeListed (slocals ++ declared) node
  erased : edited.eraseGhost = old.eraseGhost

section Growth

variable {declared : List Varinfo} {sids : List Nat}

theorem perm_around {Entry : Type} {added old edited left right : List Entry}
    (same : edited.Perm (added ++ old)) :
    (left ++ edited ++ right).Perm (added ++ (left ++ old ++ right)) := by
  have moved : (left ++ (added ++ old)).Perm (added ++ (left ++ old)) := by
    rw [← List.append_assoc, ← List.append_assoc]
    exact List.perm_append_comm.append_right old
  rw [← List.append_assoc]
  exact ((same.append_left left).trans moved).append_right right

/-- What grows in a hole grows in the whole body. -/
theorem Grown.plug {old edited : Block} (grown : Grown declared sids old edited)
    (layers : List Layer) : Grown declared sids (plug layers old) (plug layers edited) := by
  obtain ⟨left, right, nodes⟩ := plug_nodes layers
  obtain ⟨outside, beyond, scopes⟩ := plug_scopes layers
  refine ⟨?_, ?_, ?_, ?_, plug_eraseGhost layers grown.erased⟩
  · rw [Block.sids, Block.sids, nodes, nodes, List.map_append, List.map_append, List.map_append,
      List.map_append]
    exact perm_around grown.sids
  · intro site member
    rw [bodyCalls, nodes, nodeCalls_append, nodeCalls_append] at member ⊢
    rcases List.mem_append.mp member with first | after
    · rcases List.mem_append.mp first with before | inside
      · exact List.mem_append_left _ (List.mem_append_left _ before)
      · exact List.mem_append_left _ (List.mem_append_right _ (grown.calls site inside))
    · exact List.mem_append_right _ after
  · intro vi member
    rw [scopes] at member ⊢
    rcases List.mem_append.mp member with first | after
    · rcases List.mem_append.mp first with before | inside
      · exact .inr (List.mem_append_left _ (List.mem_append_left _ before))
      · exact (grown.scopes vi inside).imp_right fun found =>
          List.mem_append_left _ (List.mem_append_right _ found)
    · exact .inr (List.mem_append_right _ after)
  · intro slocals fresh unused listed node member
    have within : Fresh declared old.scopes := unused.subset fun vi found => by
      rw [scopes]
      exact List.mem_append_left _ (List.mem_append_right _ found)
    rw [nodes] at listed member
    obtain ⟨first, after⟩ := List.forall_mem_append.mp listed
    obtain ⟨before, inside⟩ := List.forall_mem_append.mp first
    rcases List.mem_append.mp member with first' | after'
    · rcases List.mem_append.mp first' with before' | inside'
      · exact (before node before').append fresh
      · exact grown.listed slocals fresh within inside node inside'
    · exact (after node after').append fresh

theorem filter_withoutGhosts {vars locals : List Varinfo}
    (ghosts : ∀ vi ∈ locals, vi.vghost = true) :
    (vars ++ locals).filter (fun vi => !vi.vghost) = vars.filter fun vi => !vi.vghost := by
  have gone : locals.filter (fun vi => !vi.vghost) = [] :=
    List.filter_eq_nil_iff.mpr fun vi member => by simp [ghosts vi member]
  rw [List.filter_append, gone, List.append_nil]

variable {new : Stmt} {locals : List Varinfo}

/-- The block that holds the target grows by the new statement. -/
theorem grown_of_insert (piece : Piece new locals declared sids) (blocals : List Varinfo)
    (before after : List Stmt) :
    Grown declared sids (.mk blocals (before ++ after))
      (.mk (blocals ++ locals) (before ++ new :: after)) := by
  have spread (vars : List Varinfo) : stmtNodes vars (before ++ new :: after) =
      stmtNodes vars before ++ new.nodes vars ++ stmtNodes vars after := by
    rw [stmtNodes_append, stmtNodes, List.append_assoc]
  have moved (stmts : List Stmt) : List.Forall₂ (Relocated blocals (blocals ++ locals))
    (stmtNodes blocals stmts) (stmtNodes (blocals ++ locals) stmts) := stmts_relocated stmts
  refine ⟨?_, ?_, ?_, ?_, ?_⟩
  · rw [Block.sids, Block.sids, Block.nodes, Block.nodes, spread, stmtNodes_append]
    simp only [List.map_append, piece.sids, relocated_sids (moved _)]
    exact List.perm_append_comm.append_right _ |>.trans (by rw [List.append_assoc])
  · intro site member
    rw [bodyCalls, Block.nodes, spread, nodeCalls_append, nodeCalls_append, piece.calls,
      List.append_nil, relocated_calls (moved _), relocated_calls (moved _)] at member
    rw [bodyCalls, Block.nodes, stmtNodes_append, nodeCalls_append]
    exact member
  · intro vi member
    rw [Block.scopes, stmtScopes_append, stmtScopes] at member
    rw [Block.scopes, stmtScopes_append]
    simp only [List.mem_append] at member ⊢
    have added (found : vi ∈ locals ∨ vi ∈ new.scopes) : vi ∈ declared :=
      piece.scopes vi (List.mem_append.mpr found)
    tauto
  · intro slocals fresh unused listed node member
    have within : Fresh declared blocals :=
      unused.subset fun vi found => List.mem_append_left _ found
    -- A node that was there may stand in the block that has the new locals now.
    have kept (stmts : List Stmt) (inside : ∀ stmt ∈ stmtNodes blocals stmts,
        NodeListed slocals stmt) (found : node ∈ stmtNodes (blocals ++ locals) stmts) :
        NodeListed (slocals ++ declared) node := by
      obtain ⟨origin, there, -, instr, place⟩ := relocated_origin (moved stmts) found
      intro vi initialized
      have once := inside origin there vi (instr ▸ initialized)
      refine ⟨once.1.append fresh, ?_⟩
      rcases place with same | ⟨was, now⟩
      · exact same ▸ once.2
      · rw [now]
        exact (was ▸ once.2).append (fun other declares => within other
          (piece.scopes other (List.mem_append_left _ declares)))
    rw [Block.nodes, stmtNodes_append] at listed
    obtain ⟨first, last⟩ := List.forall_mem_append.mp listed
    rw [Block.nodes, spread] at member
    rcases List.mem_append.mp member with start | later
    · rcases List.mem_append.mp start with earlier | added
      · exact kept before first earlier
      · exact piece.listed slocals blocals fresh within node added
    · exact kept after last later
  · rw [Block.eraseGhost, Block.eraseGhost, filter_withoutGhosts piece.localsGhost,
      eraseStmts_append, eraseStmts_append, eraseStmts, if_pos piece.ghost]

theorem grown_of_filled (piece : Piece new [] declared sids) {hole filled : Block}
    (made : Filled new hole filled) : Grown declared sids hole filled := by
  obtain ⟨blocals, rfl, rfl⟩ := made
  have grown := grown_of_insert piece blocals [] []
  simp only [List.append_nil, List.nil_append] at grown
  exact grown

variable {body edited : Block}

theorem fillElse_grown (piece : Piece new [] declared sids) {target : Nat}
    (made : fillElse target new body = some edited) : Grown declared sids body edited := by
  obtain ⟨layers, hole, filled, -, changed, rfl, rfl⟩ := fillElse_replaces body edited made
  exact (grown_of_filled piece changed).plug layers

theorem exists_target_place {target : Nat} (unique : body.sids.Nodup)
    (inserted : insertInBlock target new locals body = some edited) :
    ∃ layers blocals before stmt after, (∀ layer ∈ layers, layer.shape.plain = true) ∧
      stmt.sid = target ∧ body = plug layers (.mk blocals (before ++ stmt :: after)) ∧
      edited = plug layers (.mk (blocals ++ locals) (before ++ new :: stmt :: after)) := by
  obtain ⟨layers, _, _, plain, ⟨blocals, bstmts, present, rfl, rfl⟩, rfl, rfl⟩ :=
    insertInBlock_replaces body edited inserted
  have inside : (bstmts.map Stmt.sid).Nodup := by
    obtain ⟨left, right, nodes⟩ := plug_nodes layers
    rw [Block.sids, nodes, List.map_append, List.map_append] at unique
    exact (List.Nodup.of_append_right (List.Nodup.of_append_left unique)).sublist (sids_sublist blocals bstmts)
  obtain ⟨before, stmt, after, rfl, same, spliced⟩ := @exists_splice _ new _ present inside
  exact ⟨layers, blocals, before, stmt, after, plain, same, rfl, by rw [spliced]⟩

theorem exists_place {target : Nat} (unique : body.sids.Nodup)
    (inserted : insertInBlock target new locals body = some edited) :
    ∃ layers blocals before after, (∀ layer ∈ layers, layer.shape.plain = true) ∧
      body = plug layers (.mk blocals (before ++ after)) ∧
      edited = plug layers (.mk (blocals ++ locals) (before ++ new :: after)) := by
  obtain ⟨layers, blocals, before, stmt, after, plain, -, rfl, rfl⟩ :=
    exists_target_place unique inserted
  exact ⟨layers, blocals, before, stmt :: after, plain, rfl, rfl⟩

theorem insertInBlock_grown (piece : Piece new locals declared sids) {target : Nat}
    (unique : body.sids.Nodup) (inserted : insertInBlock target new locals body = some edited) :
    Grown declared sids body edited := by
  obtain ⟨layers, blocals, before, after, -, rfl, rfl⟩ := exists_place unique inserted
  exact (grown_of_insert piece blocals before after).plug layers

/-- The removal of the new statement gives the old body back. -/
theorem removeFromBlock_inserted {target : Nat} (unique : body.sids.Nodup)
    (unused : new.sid ∉ body.sids) (inserted : insertInBlock target new [] body = some edited) :
    removeFromBlock [new.sid] edited = body := by
  obtain ⟨layers, blocals, before, after, plain, rfl, rfl⟩ := exists_place unique inserted
  have avoids : Avoids [new.sid] (plug layers (.mk blocals (before ++ after))).nodes := by
    intro node member same
    rw [List.mem_singleton] at same
    exact unused (List.mem_map.mpr ⟨node, member, same⟩)
  have around : Avoids [new.sid] (stmtNodes blocals (before ++ after)) := by
    obtain ⟨left, right, nodes⟩ := plug_nodes layers
    rw [nodes, Avoids.append, Avoids.append] at avoids
    exact avoids.1.2
  rw [stmtNodes_append, Avoids.append] at around
  rw [List.append_nil, removeFromBlock_plug plain avoids, removeFromBlock, removeFromStmts_append,
    removeFromStmts, if_pos List.mem_cons_self, removeFromStmts_eq_self _ _ around.1,
    removeFromStmts_eq_self _ _ around.2]

end Growth

end FramaCMcp.Ghost
