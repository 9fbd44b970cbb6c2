/-
This file proves when inserted ghost code runs on all paths to its target.
-/

import FramaCMcp.Foundation.Detour
import FramaCMcp.Proof.GhostSteps

namespace Cil

variable {reading : Reading}

section Places

variable {edge : Nat × Nat}

theorem mem_edgesTo {sid : Nat} {dest : Option Nat} :
    edge ∈ edgesTo sid dest ↔ edge.1 = sid ∧ dest = some edge.2 := by
  cases dest with
  | none => simp [edgesTo]
  | some later =>
      rw [edgesTo, List.mem_singleton, Prod.ext_iff, Option.some.injEq]
      exact and_congr_right fun _ => eq_comm

def Exits.Has (exits : Exits) (sid : Nat) : Prop :=
  exits.next = some sid ∨ exits.brk = some sid ∨ exits.cont = some sid

theorem stmtsEntry_cons (stmt : Stmt) (rest : List Stmt) (next : Option Nat) :
    stmtsEntry (stmt :: rest) next = some stmt.sid := rfl

theorem stmtsEntry_mem {blocals : List Varinfo} {stmts : List Stmt} {next : Option Nat} {sid : Nat}
    (entry : stmtsEntry stmts next = some sid) :
    sid ∈ sidsOf (stmtNodes blocals stmts) ∨ next = some sid := by
  cases stmts with
  | nil => exact .inr entry
  | cons stmt rest =>
      left
      obtain ⟨instr, inner, nodes⟩ := FramaCMcp.Ghost.nodes_eq_cons blocals stmt
      rw [stmtNodes, nodes]
      exact Option.some.inj entry ▸ List.mem_cons_self

theorem entry_mem {block : Block} {next : Option Nat} {sid : Nat}
    (entry : block.entry next = some sid) : sid ∈ block.sids ∨ next = some sid := by
  rcases block with ⟨blocals, bstmts⟩
  exact stmtsEntry_mem entry

/-- An edge of a part leaves the part only through its exits. -/
def Inside (sids : List Nat) (exits : Exits) (edge : Nat × Nat) : Prop :=
  edge.1 ∈ sids ∧ (edge.2 ∈ sids ∨ exits.Has edge.2)

theorem Inside.mono {sids more : List Nat} {exits : Exits} (inside : Inside sids exits edge)
    (subset : sids ⊆ more) : Inside more exits edge :=
  ⟨subset inside.1, inside.2.imp (fun member => subset member) id⟩

/-- The exits of an inner part are among the statements and the exits of the outer one. -/
theorem Inside.exits {sids : List Nat} {exits inner : Exits} (inside : Inside sids inner edge)
    (outer : ∀ sid, inner.Has sid → sid ∈ sids ∨ exits.Has sid) : Inside sids exits edge :=
  ⟨inside.1, inside.2.elim .inl fun leaves => outer _ leaves⟩

/-- The edges of the statement itself go to its parts and to its exits. -/
theorem inside_edgesTo {sid : Nat} {sids : List Nat} {exits : Exits} {dest : Option Nat}
    (member : edge ∈ edgesTo sid dest)
    (goes : ∀ later, dest = some later → later ∈ sids ∨ exits.Has later) :
    Inside (sid :: sids) exits edge := by
  obtain ⟨same, found⟩ := mem_edgesTo.mp member
  exact ⟨same ▸ List.mem_cons_self, (goes _ found).imp (List.mem_cons_of_mem _) id⟩

theorem Inside.behind {sid : Nat} {sids more : List Nat} {exits : Exits}
    (inside : Inside sids exits edge) (subset : sids ⊆ more) : Inside (sid :: more) exits edge :=
  inside.mono fun _ member => List.mem_cons_of_mem _ (subset member)

theorem entry_goes {block : Block} {exits : Exits} {sids : List Nat} (subset : block.sids ⊆ sids)
    (later : Nat) (entry : block.entry exits.next = some later) :
    later ∈ sids ∨ exits.Has later :=
  (entry_mem entry).imp (fun member => subset member) .inl

mutual

theorem Stmt.flows_inside (blocals : List Varinfo) (exits : Exits) (stmt : Stmt) :
    ∀ edge ∈ stmt.flows reading exits, Inside (sidsOf (stmt.nodes blocals)) exits edge := by
  intro edge member
  cases stmt with
  | instr info instr => exact inside_edgesTo member fun _ next => .inr (.inl next)
  | jump info text =>
      rw [Stmt.flows] at member
      split at member
      · cases member
      · exact inside_edgesTo member fun _ brk => .inr (.inr (.inl brk))
      · exact inside_edgesTo member fun _ cont => .inr (.inr (.inr cont))
      · cases member
  | branch info guard thenBlock elseBlock =>
      have parts : sidsOf ((Stmt.branch info guard thenBlock elseBlock).nodes blocals) =
          info.sid :: (thenBlock.sids ++ elseBlock.sids) := congrArg _ (sidsOf_append _ _)
      have first : thenBlock.sids ⊆ thenBlock.sids ++ elseBlock.sids := List.subset_append_left _ _
      have second : elseBlock.sids ⊆ thenBlock.sids ++ elseBlock.sids :=
        List.subset_append_right _ _
      rw [parts]
      simp only [Stmt.flows, List.mem_append] at member
      rcases member with ((enters | enters) | inner) | inner
      · exact inside_edgesTo enters (entry_goes first)
      · exact inside_edgesTo enters (entry_goes second)
      · exact (thenBlock.flows_inside exits edge inner).behind first
      · exact (elseBlock.flows_inside exits edge inner).behind second
  | switch info subject body =>
      rcases List.mem_append.mp member with leaves | inner
      · split_ifs at leaves
        · cases leaves
        · exact inside_edgesTo leaves fun _ next => .inr (.inl next)
      · apply ((body.flows_inside _ edge inner).behind (List.Subset.refl _)).exits
        rintro sid (next | brk | cont)
        · exact .inr (.inl next)
        · exact .inr (.inl brk)
        · exact .inr (.inr (.inr cont))
  | loop info body =>
      have starts : ∀ later, body.entry none = some later → later ∈ body.sids :=
        fun later entry => (entry_mem entry).resolve_right nofun
      rcases List.mem_append.mp member with enters | inner
      · exact inside_edgesTo enters fun later entry => .inl (starts later entry)
      · apply ((body.flows_inside _ edge inner).behind (List.Subset.refl _)).exits
        rintro sid (next | brk | cont)
        · exact .inl (List.mem_cons_of_mem _ (starts sid next))
        · exact .inr (.inl brk)
        · exact .inl (List.mem_cons_of_mem _ (starts sid cont))
  | block info body =>
      rcases List.mem_append.mp member with enters | inner
      · exact inside_edgesTo enters (entry_goes (List.Subset.refl _))
      · exact (body.flows_inside exits edge inner).behind (List.Subset.refl _)
  | unspecifiedSequence info stmts =>
      rcases List.mem_append.mp member with enters | inner
      · exact inside_edgesTo enters fun later entry => (stmtsEntry_mem entry).imp id .inl
      · exact (stmtsFlows_inside blocals exits stmts edge inner).behind (List.Subset.refl _)
  | tryStmt info body handlers =>
      have parts : sidsOf ((Stmt.tryStmt info body handlers).nodes blocals) =
          info.sid :: (body.sids ++ sidsOf (blockNodes handlers)) := congrArg _ (sidsOf_append _ _)
      have first : body.sids ⊆ body.sids ++ sidsOf (blockNodes handlers) :=
        List.subset_append_left _ _
      rw [parts]
      simp only [Stmt.flows, List.mem_append] at member
      rcases member with (enters | inner) | caught
      · exact inside_edgesTo enters (entry_goes first)
      · exact (body.flows_inside exits edge inner).behind first
      · apply (handlersFlows_inside info.sid exits handlers edge caught).mono
        exact List.cons_subset_cons _ (List.subset_append_right _ _)
termination_by structural stmt

theorem Block.flows_inside (exits : Exits) (block : Block) :
    ∀ edge ∈ block.flows reading exits, Inside block.sids exits edge := by
  rcases block with ⟨blocals, bstmts⟩
  exact stmtsFlows_inside blocals exits bstmts
termination_by structural block

theorem stmtsFlows_inside (blocals : List Varinfo) (exits : Exits) (stmts : List Stmt) :
    ∀ edge ∈ stmtsFlows reading exits stmts, Inside (sidsOf (stmtNodes blocals stmts)) exits edge := by
  intro edge member
  cases stmts with
  | nil => cases member
  | cons stmt rest =>
      rw [stmtNodes, sidsOf_append]
      rcases List.mem_append.mp member with first | later
      · apply ((stmt.flows_inside blocals _ edge first).mono (List.subset_append_left _ _)).exits
        rintro sid (next | brk | cont)
        · exact (stmtsEntry_mem next).imp (List.mem_append_right _) .inl
        · exact .inr (.inr (.inl brk))
        · exact .inr (.inr (.inr cont))
      · exact (stmtsFlows_inside blocals exits rest edge later).mono (List.subset_append_right _ _)
termination_by structural stmts

theorem handlersFlows_inside (sid : Nat) (exits : Exits) (handlers : List Block) :
    ∀ edge ∈ handlersFlows reading sid exits handlers,
      Inside (sid :: sidsOf (blockNodes handlers)) exits edge := by
  intro edge member
  cases handlers with
  | nil => cases member
  | cons block rest =>
      have parts : sidsOf (blockNodes (block :: rest)) = block.sids ++ sidsOf (blockNodes rest) :=
        sidsOf_append _ _
      have first : block.sids ⊆ block.sids ++ sidsOf (blockNodes rest) :=
        List.subset_append_left _ _
      rw [parts]
      simp only [handlersFlows, List.mem_append] at member
      rcases member with (enters | inner) | later
      · exact inside_edgesTo enters (entry_goes first)
      · exact (block.flows_inside exits edge inner).behind first
      · apply (handlersFlows_inside sid exits rest edge later).mono
        exact List.cons_subset_cons _ (List.subset_append_right _ _)
termination_by structural handlers

end

mutual

/-- A jump starts at a statement of the part. -/
theorem Stmt.jumps_inside (blocals : List Varinfo) (stmt : Stmt) :
    ∀ edge ∈ stmt.jumps reading, edge.1 ∈ sidsOf (stmt.nodes blocals) := by
  intro edge member
  cases stmt with
  | instr info instr => cases member
  | jump info text =>
      rw [Stmt.jumps] at member
      split at member
      · rw [List.mem_singleton.mp member]
        exact List.mem_cons_self
      · cases member
  | branch info guard thenBlock elseBlock =>
      apply List.mem_cons_of_mem
      rw [List.map_append]
      exact List.mem_append.mpr ((List.mem_append.mp member).imp
        (thenBlock.jumps_inside edge) (elseBlock.jumps_inside edge))
  | switch info subject body =>
      rcases List.mem_append.mp member with enters | inner
      · obtain ⟨case, _, rfl⟩ := List.mem_map.mp enters
        exact List.mem_cons_self
      · exact List.mem_cons_of_mem _ (body.jumps_inside edge inner)
  | loop info body => exact List.mem_cons_of_mem _ (body.jumps_inside edge member)
  | block info body => exact List.mem_cons_of_mem _ (body.jumps_inside edge member)
  | unspecifiedSequence info stmts =>
      exact List.mem_cons_of_mem _ (stmtsJumps_inside blocals stmts edge member)
  | tryStmt info body handlers =>
      apply List.mem_cons_of_mem
      rw [List.map_append]
      exact List.mem_append.mpr ((List.mem_append.mp member).imp
        (body.jumps_inside edge) (handlersJumps_inside handlers edge))
termination_by structural stmt

theorem Block.jumps_inside (block : Block) : ∀ edge ∈ block.jumps reading, edge.1 ∈ block.sids := by
  rcases block with ⟨blocals, bstmts⟩
  exact stmtsJumps_inside blocals bstmts
termination_by structural block

theorem stmtsJumps_inside (blocals : List Varinfo) (stmts : List Stmt) :
    ∀ edge ∈ stmtsJumps reading stmts, edge.1 ∈ sidsOf (stmtNodes blocals stmts) := by
  intro edge member
  cases stmts with
  | nil => cases member
  | cons stmt rest =>
      rw [stmtNodes, sidsOf_append]
      exact List.mem_append.mpr ((List.mem_append.mp member).imp
        (stmt.jumps_inside blocals edge) (stmtsJumps_inside blocals rest edge))
termination_by structural stmts

theorem handlersJumps_inside (handlers : List Block) :
    ∀ edge ∈ handlersJumps reading handlers, edge.1 ∈ sidsOf (blockNodes handlers) := by
  intro edge member
  cases handlers with
  | nil => cases member
  | cons block rest =>
      rw [blockNodes, sidsOf_append]
      exact List.mem_append.mpr ((List.mem_append.mp member).imp
        (block.jumps_inside edge) (handlersJumps_inside rest edge))
termination_by structural handlers

end

end Places

section Redirection

open Detour

variable {head target : Nat}

def redirectEdge (head target : Nat) (edge : Nat × Nat) : Nat × Nat :=
  (edge.1, redirect head target edge.2)

def Exits.redirect (head target : Nat) (exits : Exits) : Exits where
  next := exits.next.map (Detour.redirect head target)
  brk := exits.brk.map (Detour.redirect head target)
  cont := exits.cont.map (Detour.redirect head target)

theorem Exits.redirect_next (exits : Exits) : (exits.redirect head target).next =
    exits.next.map (Detour.redirect head target) := rfl

theorem edgesTo_redirect (sid : Nat) (dest : Option Nat) :
    edgesTo sid (dest.map (redirect head target)) =
      (edgesTo sid dest).map (redirectEdge head target) := by
  cases dest <;> rfl

theorem redirect_of_ne {sid : Nat} (other : sid ≠ target) : redirect head target sid = sid :=
  if_neg other

theorem stmtsEntry_redirect {blocals : List Varinfo} {stmts : List Stmt}
    (outside : target ∉ sidsOf (stmtNodes blocals stmts)) (next : Option Nat) :
    stmtsEntry stmts (next.map (redirect head target)) =
      (stmtsEntry stmts next).map (redirect head target) := by
  cases stmts with
  | nil => rfl
  | cons stmt rest =>
      have other : stmt.sid ≠ target := by
        rintro rfl
        apply outside
        obtain ⟨instr, inner, nodes⟩ := FramaCMcp.Ghost.nodes_eq_cons blocals stmt
        rw [stmtNodes, nodes]
        exact List.mem_cons_self
      rw [stmtsEntry, stmtsEntry, Option.map_some, redirect_of_ne other]

theorem entry_redirect {block : Block} (outside : target ∉ block.sids) (next : Option Nat) :
    block.entry (next.map (redirect head target)) =
      (block.entry next).map (redirect head target) := by
  rcases block with ⟨blocals, bstmts⟩
  exact stmtsEntry_redirect outside next

/-- The entry of a block that holds another one is not the target. -/
theorem entry_none_redirect {block : Block} (outside : target ∉ block.sids) :
    (block.entry none).map (redirect head target) = block.entry none :=
  (entry_redirect outside none).symm

mutual

theorem Stmt.flows_redirect (blocals : List Varinfo) (exits : Exits) (stmt : Stmt)
    (outside : target ∉ (sidsOf (stmt.nodes blocals)).tail) :
    stmt.flows reading (exits.redirect head target) =
      (stmt.flows reading exits).map (redirectEdge head target) := by
  cases stmt with
  | instr info instr => exact edgesTo_redirect _ _
  | jump info text =>
      rw [Stmt.flows, Stmt.flows]
      split
      · rfl
      · exact edgesTo_redirect _ _
      · exact edgesTo_redirect _ _
      · rfl
  | branch info guard thenBlock elseBlock =>
      have parts : target ∉ thenBlock.sids ++ elseBlock.sids := by
        rw [Block.sids, Block.sids, ← List.map_append]
        exact outside
      rw [List.mem_append, not_or] at parts
      simp only [Stmt.flows, List.map_append, ← edgesTo_redirect, ← entry_redirect parts.1,
        ← entry_redirect parts.2, ← thenBlock.flows_redirect exits parts.1,
        ← elseBlock.flows_redirect exits parts.2]
      rfl
  | switch info subject body =>
      rw [Stmt.flows, Stmt.flows, List.map_append, ← body.flows_redirect _ outside]
      congr 1
      split_ifs
      · rfl
      · exact edgesTo_redirect _ _
  | loop info body =>
      rw [Stmt.flows, Stmt.flows, List.map_append, ← edgesTo_redirect, entry_none_redirect outside,
        ← body.flows_redirect _ outside]
      simp only [Exits.redirect, entry_none_redirect outside]
  | block info body =>
      rw [Stmt.flows, Stmt.flows, List.map_append, ← edgesTo_redirect, ← entry_redirect outside,
        ← body.flows_redirect _ outside]
      rfl
  | unspecifiedSequence info stmts =>
      rw [Stmt.flows, Stmt.flows, List.map_append, ← edgesTo_redirect,
        ← stmtsEntry_redirect outside, ← stmtsFlows_redirect blocals _ stmts outside]
      rfl
  | tryStmt info body handlers =>
      have parts : target ∉ body.sids ++ sidsOf (blockNodes handlers) := by
        rw [Block.sids, sidsOf, ← List.map_append]
        exact outside
      rw [List.mem_append, not_or] at parts
      simp only [Stmt.flows, List.map_append, ← edgesTo_redirect, ← entry_redirect parts.1,
        ← body.flows_redirect exits parts.1, ← handlersFlows_redirect info.sid exits handlers parts.2]
      rfl
termination_by structural stmt

theorem Block.flows_redirect (exits : Exits) (block : Block) (outside : target ∉ block.sids) :
    block.flows reading (exits.redirect head target) =
      (block.flows reading exits).map (redirectEdge head target) := by
  rcases block with ⟨blocals, bstmts⟩
  exact stmtsFlows_redirect blocals exits bstmts outside
termination_by structural block

theorem stmtsFlows_redirect (blocals : List Varinfo) (exits : Exits) (stmts : List Stmt)
    (outside : target ∉ sidsOf (stmtNodes blocals stmts)) :
    stmtsFlows reading (exits.redirect head target) stmts =
      (stmtsFlows reading exits stmts).map (redirectEdge head target) := by
  cases stmts with
  | nil => rfl
  | cons stmt rest =>
      rw [stmtNodes, sidsOf_append, List.mem_append, not_or] at outside
      rw [stmtsFlows, stmtsFlows, List.map_append, ← stmtsFlows_redirect blocals _ rest outside.2,
        ← stmt.flows_redirect blocals _ fun member => outside.1 (List.mem_of_mem_tail member)]
      congr 2
      simp only [Exits.redirect, stmtsEntry_redirect outside.2]
termination_by structural stmts

theorem handlersFlows_redirect (sid : Nat) (exits : Exits) (handlers : List Block)
    (outside : target ∉ sidsOf (blockNodes handlers)) :
    handlersFlows reading sid (exits.redirect head target) handlers =
      (handlersFlows reading sid exits handlers).map (redirectEdge head target) := by
  cases handlers with
  | nil => rfl
  | cons block rest =>
      rw [blockNodes, sidsOf_append, List.mem_append, not_or] at outside
      simp only [handlersFlows, List.map_append, ← edgesTo_redirect,
        ← @entry_redirect _ _ block outside.1, ← block.flows_redirect exits outside.1,
        ← handlersFlows_redirect sid exits rest outside.2]
      rfl
termination_by structural handlers

end

theorem stmtsFlows_append (exits : Exits) (first second : List Stmt) :
    stmtsFlows reading exits (first ++ second) =
      stmtsFlows reading { exits with next := stmtsEntry second exits.next } first ++
        stmtsFlows reading exits second := by
  induction first with
  | nil => rfl
  | cons stmt rest ih =>
      have entry : stmtsEntry (rest ++ second) exits.next =
          stmtsEntry rest (stmtsEntry second exits.next) := by cases rest <;> rfl
      rw [List.cons_append, stmtsFlows, stmtsFlows, ih, entry, List.append_assoc]

theorem stmtsCases_append (first second : List Stmt) :
    stmtsCases reading (first ++ second) =
      stmtsCases reading first ++ stmtsCases reading second :=
  append_of_cons (Stmt.cases reading) rfl (fun _ _ => rfl) first second

theorem stmtsJumps_append (first second : List Stmt) :
    stmtsJumps reading (first ++ second) =
      stmtsJumps reading first ++ stmtsJumps reading second :=
  append_of_cons (Stmt.jumps reading) rfl (fun _ _ => rfl) first second

end Redirection

end Cil

namespace FramaCMcp.Ghost

open Cil Detour

/-- The code flows from its head through its statements to the target. -/
structure DetourCode (reading : Reading) (new : Stmt) (sids : List Nat) (target : Nat)
    (inner : List (Nat × Nat)) : Prop where
  flows : ∀ exits : Exits, exits.next = some target → new.flows reading exits = inner
  cases : new.cases reading = []
  jumps : new.jumps reading = []
  inside : ∀ edge ∈ inner, edge.1 ∈ sids ∧ (edge.2 ∈ sids ∨ edge.2 = target)
  head : new.sid ∈ sids
  leads : Relation.ReflTransGen (fun node later => (node, later) ∈ inner) new.sid target

/-- In the edited block the flows to the target go through the detour. -/
structure Detours (reading : Reading) (head target : Nat) (inner : List (Nat × Nat))
    (old edited : Block) : Prop where
  entry : ∀ next : Option Nat, edited.entry (next.map (redirect head target)) =
    (old.entry next).map (redirect head target)
  flows : ∀ exits : Exits, ∀ edge, edge ∈ edited.flows reading (exits.redirect head target) ↔
    edge ∈ (old.flows reading exits).map (redirectEdge head target) ∨ edge ∈ inner
  cases : edited.cases reading = old.cases reading
  jumps : edited.jumps reading = old.jumps reading

section Edits

variable {reading : Reading} {new : Stmt} {sids : List Nat} {target : Nat}
  {inner : List (Nat × Nat)}

variable {blocals : List Varinfo}

theorem stmt_sid_mem (stmt : Stmt) : stmt.sid ∈ sidsOf (stmt.nodes blocals) := by
  obtain ⟨instr, rest, nodes⟩ := nodes_eq_cons blocals stmt
  rw [nodes]
  exact List.mem_cons_self

/-- A statement with the number of the target holds it nowhere else. -/
theorem not_mem_tail {stmt : Stmt} (same : stmt.sid = target)
    (unique : (sidsOf (stmt.nodes blocals)).Nodup) :
    target ∉ (sidsOf (stmt.nodes blocals)).tail := by
  obtain ⟨instr, rest, nodes⟩ := nodes_eq_cons blocals stmt
  rw [nodes] at unique ⊢
  subst same
  exact (List.nodup_cons.mp unique).1

theorem detours_hole (code : DetourCode reading new sids target inner) {stmt : Stmt}
    (same : stmt.sid = target) (blocals locals : List Varinfo) (before after : List Stmt)
    (unique : (Block.mk blocals (before ++ stmt :: after)).sids.Nodup) :
    Detours reading new.sid target inner (.mk blocals (before ++ stmt :: after))
      (.mk (blocals ++ locals) (before ++ new :: stmt :: after)) := by
  change (sidsOf (stmtNodes blocals (before ++ stmt :: after))).Nodup at unique
  rw [stmtNodes_append, sidsOf_append, stmtNodes, sidsOf_append] at unique
  obtain ⟨_, behind, apart⟩ := nodup_parts unique
  obtain ⟨own, _, beyond⟩ := nodup_parts behind
  have holds : target ∈ sidsOf (stmt.nodes blocals) := same ▸ stmt_sid_mem stmt
  have first : target ∉ sidsOf (stmtNodes blocals before) := fun member =>
    apart target member (List.mem_append_left _ holds)
  have last : target ∉ sidsOf (stmtNodes blocals after) := beyond target holds
  refine ⟨fun next => ?_, fun exits edge => ?_, ?_, ?_⟩
  · cases before with
    | nil =>
        change some new.sid = (some stmt.sid).map _
        rw [same, Option.map_some, redirect, if_pos rfl]
    | cons earlier rest =>
        have other : earlier.sid ≠ target := by
          rintro rfl
          rw [stmtNodes, sidsOf_append] at first
          exact first (List.mem_append_left _ (stmt_sid_mem earlier))
        change some earlier.sid = (some earlier.sid).map _
        rw [Option.map_some, redirect_of_ne other]
  · have front : ({ exits.redirect new.sid target with next := some new.sid } : Exits) =
        ({ exits with next := some target } : Exits).redirect new.sid target := by
      simp [Exits.redirect, redirect]
    have back : ({ exits.redirect new.sid target with
          next := stmtsEntry after (exits.redirect new.sid target).next } : Exits) =
        ({ exits with next := stmtsEntry after exits.next } : Exits).redirect new.sid target := by
      simp [Exits.redirect, stmtsEntry_redirect last]
    simp only [Block.flows, stmtsFlows_append, stmtsFlows, stmtsEntry_cons, List.map_append, same]
    rw [front, back, stmtsFlows_redirect blocals _ before first,
      stmt.flows_redirect blocals _ (not_mem_tail same own), stmtsFlows_redirect blocals _ after last,
      code.flows _ rfl]
    simp only [List.mem_append]
    tauto
  · simp only [Block.cases, stmtsCases_append, stmtsCases, code.cases, List.nil_append]
  · simp only [Block.jumps, stmtsJumps_append, stmtsJumps, code.jumps, List.nil_append]

/-- The statement around the edited block changes in the same way. -/
structure StmtDetours (reading : Reading) (head target : Nat) (inner : List (Nat × Nat))
    (old edited : Stmt) : Prop where
  flows : ∀ exits : Exits, ∀ edge, edge ∈ edited.flows reading (exits.redirect head target) ↔
    edge ∈ (old.flows reading exits).map (redirectEdge head target) ∨ edge ∈ inner
  cases : edited.cases reading = old.cases reading
  jumps : edited.jumps reading = old.jumps reading

variable {head : Nat} {hole filled : Block}

theorem detours_shape (detours : Detours reading head target inner hole filled) {shape : Shape}
    (plain : shape.plain = true) (holds : target ∈ hole.sids)
    (unique : (sidsOf ((shape.fill hole).nodes blocals)).Nodup) :
    StmtDetours reading head target inner (shape.fill hole) (shape.fill filled) := by
  have enters : ∀ sid next, edgesTo sid (filled.entry (next.map (redirect head target))) =
      (edgesTo sid (hole.entry next)).map (redirectEdge head target) := by
    intro sid next
    rw [detours.entry, edgesTo_redirect]
  cases shape with
  | thenOf info guard elseBlock =>
      have parts := nodup_parts ((congrArg List.Nodup (sidsOf_append hole.nodes elseBlock.nodes)).mp
        (List.nodup_cons.mp unique).2)
      have outside : target ∉ elseBlock.sids := parts.2.2 target holds
      refine ⟨fun exits edge => ?_, ?_, ?_⟩
      · simp only [Shape.fill, Stmt.flows, List.map_append, List.mem_append, Exits.redirect_next,
          enters, entry_redirect outside, edgesTo_redirect, detours.flows,
          elseBlock.flows_redirect _ outside]
        tauto
      · simp only [Shape.fill, Stmt.cases, detours.cases]
      · simp only [Shape.fill, Stmt.jumps, detours.jumps]
  | elseOf info guard thenBlock =>
      have parts := nodup_parts ((congrArg List.Nodup (sidsOf_append thenBlock.nodes hole.nodes)).mp
        (List.nodup_cons.mp unique).2)
      have outside : target ∉ thenBlock.sids := fun member => parts.2.2 target member holds
      refine ⟨fun exits edge => ?_, ?_, ?_⟩
      · simp only [Shape.fill, Stmt.flows, List.map_append, List.mem_append, Exits.redirect_next,
          enters, entry_redirect outside, edgesTo_redirect, detours.flows,
          thenBlock.flows_redirect _ outside]
        tauto
      · simp only [Shape.fill, Stmt.cases, detours.cases]
      · simp only [Shape.fill, Stmt.jumps, detours.jumps]
  | switchOf info subject =>
      refine ⟨fun exits edge => ?_, rfl, ?_⟩
      · have own := detours.flows { exits with brk := exits.next } edge
        have default : filled.hasDefault reading = hole.hasDefault reading := by
          rw [Block.hasDefault, Block.hasDefault, detours.cases]
        have leaves : (if hole.hasDefault reading then [] else
            edgesTo info.sid (exits.redirect head target).next) =
            (if hole.hasDefault reading then [] else edgesTo info.sid exits.next).map
              (redirectEdge head target) := by
          split_ifs
          · rfl
          · exact edgesTo_redirect _ _
        simp only [Shape.fill, Stmt.flows, default, leaves, List.map_append, List.mem_append]
        rw [or_assoc, ← own]
        rfl
      · simp only [Shape.fill, Stmt.jumps, detours.jumps, detours.cases]
  | loopOf info =>
      refine ⟨fun exits edge => ?_, ?_, detours.jumps⟩
      · have own := detours.flows ⟨hole.entry none, exits.next, hole.entry none⟩ edge
        have back : filled.entry none = (hole.entry none).map (redirect head target) :=
          detours.entry none
        simp only [Shape.fill, Stmt.flows, List.map_append, List.mem_append]
        rw [or_assoc, ← own, back, edgesTo_redirect]
        rfl
      · simp only [Shape.fill, Stmt.cases, detours.cases]
  | blockOf info =>
      refine ⟨fun exits edge => ?_, ?_, detours.jumps⟩
      · simp only [Shape.fill, Stmt.flows, List.map_append, List.mem_append, Exits.redirect_next,
          enters, detours.flows]
        tauto
      · simp only [Shape.fill, Stmt.cases, detours.cases]
  | tryBody => cases plain
  | tryHandler => cases plain
  | sequenceOf => cases plain

/-- The statement around a block that holds the target is another one. -/
theorem fill_sid_ne {shape : Shape} (plain : shape.plain = true) (holds : target ∈ hole.sids)
    (unique : (sidsOf ((shape.fill hole).nodes blocals)).Nodup) :
    (shape.fill hole).sid ≠ target := by
  rintro same
  subst same
  cases shape with
  | thenOf info guard elseBlock =>
      apply (List.nodup_cons.mp unique).1
      rw [List.map_append]
      exact List.mem_append_left _ holds
  | elseOf info guard thenBlock =>
      apply (List.nodup_cons.mp unique).1
      rw [List.map_append]
      exact List.mem_append_right _ holds
  | switchOf info subject => exact (List.nodup_cons.mp unique).1 holds
  | loopOf info => exact (List.nodup_cons.mp unique).1 holds
  | blockOf info => exact (List.nodup_cons.mp unique).1 holds
  | tryBody => cases plain
  | tryHandler => cases plain
  | sequenceOf => cases plain

theorem mem_fill {shape : Shape} (holds : target ∈ hole.sids) :
    target ∈ sidsOf ((shape.fill hole).nodes blocals) := by
  obtain ⟨left, right, nodes⟩ := shape_nodes blocals shape
  rw [nodes, sidsOf_append, sidsOf_append]
  exact List.mem_append_left _ (List.mem_append_right _ holds)

theorem detours_layer (detours : Detours reading head target inner hole filled) {layer : Layer}
    (plain : layer.shape.plain = true) (holds : target ∈ hole.sids)
    (unique : (layer.fill hole).sids.Nodup) :
    Detours reading head target inner (layer.fill hole) (layer.fill filled) := by
  rcases layer with ⟨blocals, before, shape, after⟩
  change (sidsOf (stmtNodes blocals (before ++ shape.fill hole :: after))).Nodup at unique
  rw [stmtNodes_append, sidsOf_append, stmtNodes, sidsOf_append] at unique
  obtain ⟨_, behind, apart⟩ := nodup_parts unique
  obtain ⟨own, _, beyond⟩ := nodup_parts behind
  have inside : target ∈ sidsOf ((shape.fill hole).nodes blocals) := mem_fill holds
  have first : target ∉ sidsOf (stmtNodes blocals before) := fun member =>
    apart target member (List.mem_append_left _ inside)
  have last : target ∉ sidsOf (stmtNodes blocals after) := beyond target inside
  have stmt := detours_shape detours plain holds own
  have sid : (shape.fill filled).sid = (shape.fill hole).sid :=
    congrArg StmtInfo.sid (shape_info shape filled hole)
  have other : redirect head target (shape.fill hole).sid = (shape.fill hole).sid :=
    redirect_of_ne (fill_sid_ne plain holds own)
  refine ⟨fun next => ?_, fun exits edge => ?_, ?_, ?_⟩
  · cases before with
    | nil =>
        change some (shape.fill filled).sid = (some (shape.fill hole).sid).map _
        rw [sid, Option.map_some, other]
    | cons earlier rest =>
        have apartSid : earlier.sid ≠ target := by
          rintro rfl
          rw [stmtNodes, sidsOf_append] at first
          exact first (List.mem_append_left _ (stmt_sid_mem earlier))
        change some earlier.sid = (some earlier.sid).map _
        rw [Option.map_some, redirect_of_ne apartSid]
  · have front : ({ exits.redirect head target with next := some (shape.fill filled).sid } : Exits) =
        ({ exits with next := some (shape.fill hole).sid } : Exits).redirect head target := by
      simp [Exits.redirect, sid, other]
    have back : ({ exits.redirect head target with
          next := stmtsEntry after (exits.redirect head target).next } : Exits) =
        ({ exits with next := stmtsEntry after exits.next } : Exits).redirect head target := by
      simp [Exits.redirect, stmtsEntry_redirect last]
    simp only [Layer.fill, Block.flows, stmtsFlows_append, stmtsFlows, stmtsEntry_cons,
      List.map_append]
    rw [front, back, stmtsFlows_redirect blocals _ before first,
      stmtsFlows_redirect blocals _ after last]
    simp only [List.mem_append, stmt.flows]
    tauto
  · simp only [Layer.fill, Block.cases, stmtsCases_append, stmtsCases, stmt.cases]
  · simp only [Layer.fill, Block.jumps, stmtsJumps_append, stmtsJumps, stmt.jumps]

theorem detours_plug (detours : Detours reading head target inner hole filled)
    {layers : List Layer} (plain : ∀ layer ∈ layers, layer.shape.plain = true)
    (holds : target ∈ hole.sids) (unique : (plug layers hole).sids.Nodup) :
    Detours reading head target inner (plug layers hole) (plug layers filled) := by
  induction layers with
  | nil => exact detours
  | cons layer rest ih =>
      obtain ⟨first, others⟩ := List.forall_mem_cons.mp plain
      have nodes : ∃ left right, (plug (layer :: rest) hole).nodes =
          left ++ (plug rest hole).nodes ++ right := by
        obtain ⟨left, right, nodes⟩ := layer_nodes layer
        exact ⟨left, right, nodes _⟩
      obtain ⟨left, right, same⟩ := nodes
      have inner : (plug rest hole).sids.Nodup := by
        have whole : (sidsOf (plug (layer :: rest) hole).nodes).Nodup := unique
        rw [same, sidsOf_append, sidsOf_append] at whole
        exact (nodup_parts (nodup_parts whole).1).2.1
      have inside : target ∈ (plug rest hole).sids := by
        obtain ⟨before, after, within⟩ := plug_nodes rest
        change target ∈ sidsOf (plug rest hole).nodes
        rw [within, sidsOf_append, sidsOf_append]
        exact List.mem_append_left _ (List.mem_append_right _ holds)
      exact detours_layer (ih others inner) first inside unique

theorem insertInBlock_detours (code : DetourCode reading new sids target inner)
    {locals : List Varinfo} {body edited : Block} (unique : body.sids.Nodup)
    (inserted : insertInBlock target new locals body = some edited) :
    Detours reading new.sid target inner body edited ∧ target ∈ body.sids := by
  obtain ⟨layers, blocals, before, stmt, after, plain, same, rfl, rfl⟩ :=
    exists_target_place unique inserted
  have holds : target ∈ (Block.mk blocals (before ++ stmt :: after)).sids := by
    change target ∈ sidsOf (stmtNodes blocals (before ++ stmt :: after))
    rw [stmtNodes_append, sidsOf_append, stmtNodes, sidsOf_append]
    exact List.mem_append_right _ (List.mem_append_left _ (same ▸ stmt_sid_mem stmt))
  obtain ⟨left, right, nodes⟩ := plug_nodes layers
  have whole := unique
  change (sidsOf (plug layers _).nodes).Nodup at whole
  rw [nodes, sidsOf_append, sidsOf_append] at whole
  refine ⟨detours_plug (detours_hole code same blocals locals before after
    (nodup_parts (nodup_parts whole).1).2.1) plain holds unique, ?_⟩
  change target ∈ sidsOf (plug layers _).nodes
  rw [nodes, sidsOf_append, sidsOf_append]
  exact List.mem_append_left _ (List.mem_append_right _ holds)

end Edits

/-- Each time control arrives at the target, the code with these statements has just run from its
head. -/
def RunsBefore (reading : Reading) (body : Block) (head : Nat) (sids : List Nat) (target : Nat) :
    Prop :=
  AlwaysPasses (Follows reading body) (body.entry none) head (Set.ofPred (· ∈ sids)) target

/-- Control comes to a goto or to a switch that goes to the target. -/
def JumpedTo (reading : Reading) (body : Block) (target : Nat) : Prop :=
  ∃ node, Reached (Follows reading body) (body.entry none) node ∧
    (node, target) ∈ body.jumps reading

section Bodies

variable {reading : Reading} {new : Stmt} {sids : List Nat} {target : Nat}
  {inner : List (Nat × Nat)} {body edited : Block}

theorem isDetour_of_code (code : DetourCode reading new sids target inner)
    (present : target ∈ body.sids) (fresh : ∀ sid ∈ sids, sid ∉ body.sids)
    (resolved : ∀ edge ∈ body.jumps reading, edge.2 ∈ body.sids) :
    IsDetour (fun node later => (node, later) ∈ body.flows reading ⟨none, none, none⟩)
      (fun node later => (node, later) ∈ body.jumps reading)
      (fun node later => (node, later) ∈ inner) (body.entry none) new.sid
      (Set.ofPred (· ∈ sids)) target where
  enters := fun node entry member => fresh node member ((entry_mem entry).resolve_right nofun)
  flowOutside := by
    intro node later flow
    obtain ⟨own, next⟩ := body.flows_inside _ _ flow
    have inside : later ∈ body.sids := next.resolve_right (by rintro (h | h | h) <;> cases h)
    exact ⟨fun member => fresh _ member own, fun member => fresh _ member inside⟩
  jumpOutside := by
    intro node later jump
    exact ⟨fun member => fresh _ member (body.jumps_inside _ jump),
      fun member => fresh _ member (resolved _ jump)⟩
  innerInside := fun node later goesOn => code.inside _ goesOn
  headInside := code.head
  targetOutside := fun member => fresh _ member present
  leads := code.leads

theorem follows_edited (detours : Detours reading new.sid target inner body edited) :
    Follows reading edited = Redirected new.sid target
      (fun node later => (node, later) ∈ body.flows reading ⟨none, none, none⟩)
      (fun node later => (node, later) ∈ body.jumps reading)
      (fun node later => (node, later) ∈ inner) := by
  have flows := detours.flows ⟨none, none, none⟩
  funext node later
  apply propext
  rw [Follows, detours.jumps]
  constructor
  · rintro (flow | jump)
    · rcases (flows _).mp flow with old | goesOn
      · obtain ⟨⟨before, after⟩, member, same⟩ := List.mem_map.mp old
        obtain ⟨rfl, rfl⟩ := Prod.mk.inj same
        exact .flow member
      · exact .inner goesOn
    · exact .jump jump
  · intro edge
    cases edge with
    | flow member => exact .inl ((flows _).mpr (.inl (List.mem_map.mpr ⟨_, member, rfl⟩)))
    | jump member => exact .inr member
    | inner member => exact .inl ((flows _).mpr (.inr member))

theorem runsBefore_iff (code : DetourCode reading new sids target inner) {locals : List Varinfo}
    (unique : body.sids.Nodup) (inserted : insertInBlock target new locals body = some edited)
    (fresh : ∀ sid ∈ sids, sid ∉ body.sids)
    (resolved : ∀ edge ∈ body.jumps reading, edge.2 ∈ body.sids) :
    RunsBefore reading edited new.sid sids target ↔ ¬ JumpedTo reading body target := by
  obtain ⟨detours, present⟩ := insertInBlock_detours code unique inserted
  have entry : edited.entry none = (body.entry none).map (redirect new.sid target) :=
    detours.entry none
  rw [RunsBefore, follows_edited detours, entry,
    alwaysPasses_iff (isDetour_of_code code present fresh resolved), JumpedTo, not_exists]
  exact forall_congr' fun node => not_and.symm

end Bodies

section Codes

variable {reading : Reading} (target : Nat)

theorem detourCode_instr (sid : Nat) (instr : Instr) :
    DetourCode reading (ghostInstr sid instr) [sid] target [(sid, target)] where
  flows := fun exits next => by rw [ghostInstr, Stmt.flows, next]; rfl
  cases := rfl
  jumps := rfl
  inside := fun edge member => by
    rw [List.mem_singleton.mp member]
    exact ⟨List.mem_singleton_self _, .inr rfl⟩
  head := List.mem_singleton_self _
  leads := .single (List.mem_singleton_self _)

variable [Kernel] (ast : Ast) (line : Nat) (loop : GhostLoop)

/-- Control leaves a ghost loop through its break, and passes the assertion where there is one. -/
def loopFlows : List (Nat × Nat) :=
  [(ast.nextSid + 7, ast.nextSid), (ast.nextSid, ast.nextSid + 5),
    (ast.nextSid + 5, ast.nextSid + 4), (ast.nextSid + 4, ast.nextSid + 2),
    (ast.nextSid + 4, ast.nextSid + 3), (ast.nextSid + 2, ast.nextSid + 1)] ++
    if trim loop.assertPred = "" then
      [(ast.nextSid + 3, target), (ast.nextSid + 1, ast.nextSid + 4)]
    else [(ast.nextSid + 3, ast.nextSid + 6), (ast.nextSid + 1, ast.nextSid + 4),
      (ast.nextSid + 6, target)]

theorem detourCode_loop :
    DetourCode reading (loopCode ast line loop).block (loopSids ast loop) target
      (loopFlows target ast loop) where
  flows := by
    intro exits next
    rw [loopCode, loopFlows]
    split_ifs with plain
    · simp [forceStmtGhost, forceBlockGhost, forceStmtsGhost, mkFor, ghostInstr, Stmt.flows,
        Block.flows, stmtsFlows, Block.entry, stmtsEntry, Stmt.sid, Stmt.info, edgesTo,
        reading.break_eq, next]
    · simp [forceStmtGhost, forceBlockGhost, forceStmtsGhost, mkFor, ghostInstr, Stmt.flows,
        Block.flows, stmtsFlows, Block.entry, stmtsEntry, Stmt.sid, Stmt.info, edgesTo,
        reading.break_eq, next]
  cases := by
    rw [loopCode]
    split_ifs <;> rfl
  jumps := by
    rw [loopCode]
    split_ifs <;> simp [forceStmtGhost, forceBlockGhost, forceStmtsGhost, mkFor, ghostInstr,
      Stmt.jumps, Block.jumps, stmtsJumps, reading.break_eq]
  inside := by
    rw [loopFlows, loopSids]
    split_ifs <;> simp
  head := List.mem_cons_self
  leads := by
    have toBreak : Relation.ReflTransGen
        (fun node later => (node, later) ∈ loopFlows target ast loop)
        (ast.nextSid + 7) (ast.nextSid + 3) := by
      apply Relation.ReflTransGen.head (b := ast.nextSid) (by simp [loopFlows])
      apply Relation.ReflTransGen.head (b := ast.nextSid + 5) (by simp [loopFlows])
      apply Relation.ReflTransGen.head (b := ast.nextSid + 4) (by simp [loopFlows])
      exact .single (by simp [loopFlows])
    apply toBreak.trans
    by_cases plain : trim loop.assertPred = ""
    · exact .single (by simp [loopFlows, plain])
    · apply Relation.ReflTransGen.head (b := ast.nextSid + 6) (by simp [loopFlows, plain])
      exact .single (by simp [loopFlows, plain])

end Codes

section Insertions

variable {ast : Ast} {kf : Varinfo} {fundec : Fundec} {body : Block} {locals : List Varinfo}

/-- The edited function is the one that is found after the edit. -/
theorem getDefinition_commit (vids sids : Nat) (found : ast.getDefinition kf = some fundec) :
    (commitBodyEdit (ast.advance vids sids) kf body locals).getDefinition kf =
      some (bodyEdit body locals fundec) := by
  have here : fundec.svar.vid = kf.vid := by simpa using List.find?_some found
  have blind : (fun other : Fundec => other.svar.vid == kf.vid) ∘
      (fun other => if other.svar.vid = kf.vid then bodyEdit body locals other else other) =
        fun other => other.svar.vid == kf.vid := by
    funext other
    rw [Function.comp_apply]
    split_ifs <;> rfl
  rw [Ast.getDefinition, commitBodyEdit, fundecs_updateFundec, List.find?_map]
  change ((fundecs ast.globals).find? ((fun other : Fundec => other.svar.vid == kf.vid) ∘
    fun other => if other.svar.vid = kf.vid then bodyEdit body locals other else other)).map _ = _
  rw [blind]
  change (ast.getDefinition kf).map _ = _
  rw [found, Option.map_some, if_pos here]
  rfl

/-- These insertions put code before a statement. -/
inductive GhostCode where
  | decl (varName : String) (typ : Typ) (initExp : Exp)
  | assign (targetName : String) (expr : Exp)
  | loop (loop : GhostLoop)

def GhostCode.insertion (kf : Varinfo) (stmt : StmtRef) : GhostCode → Insertion
  | .decl varName typ initExp => .decl kf stmt varName typ initExp
  | .assign targetName expr => .assign kf stmt targetName expr
  | .loop code => .loop kf stmt code

/-- The answer names the statements of the inserted code. The first one is its head. -/
def Inserted.head : Inserted → Nat
  | .variable vid => vid
  | .stmt sid => sid
  | .loop blockSid _ _ _ => blockSid

def Inserted.sids : Inserted → List Nat
  | .variable _ => []
  | .stmt sid => [sid]
  | .loop _ _ _ sids => sids

/-- The edit put code with these new statements before the target in the body. -/
structure Placed (reading : Reading) (ast : Ast) (kf : Varinfo) (fundec : Fundec) (target : Nat)
    (created : Inserted) (later : Ast) : Prop where
  placed : ∃ new locals inner edited, later.getDefinition kf = some edited ∧
    insertInBlock target new locals fundec.sbody = some edited.sbody ∧
    DetourCode reading new created.sids target inner ∧ new.sid = created.head
  fresh : ∀ sid ∈ created.sids, ast.nextSid ≤ sid

variable {reading : Reading} {stmt : StmtRef} {created : Inserted} {later : Ast}

theorem placed_of_instr {instr : Instr} (vids : Nat) (found : ast.getDefinition kf = some fundec)
    (inserted : insertInBlock stmt.sid (ghostInstr ast.nextSid instr) locals fundec.sbody =
      some body) :
    Placed reading ast kf fundec stmt.sid (.stmt ast.nextSid)
      (commitBodyEdit (ast.advance vids 1) kf body locals) where
  placed := ⟨_, _, _, _, getDefinition_commit vids 1 found, inserted,
    detourCode_instr stmt.sid ast.nextSid instr, rfl⟩
  fresh := fun _ member => (List.mem_singleton.mp member).ge

variable [Kernel]

theorem insertGhostDecl_placed {varName : String} {typ : Typ} {initExp : Exp}
    (found : ast.getDefinition kf = some fundec)
    (success : insertGhostDecl ast kf stmt varName typ initExp = (.ok created, later)) :
    Placed reading ast kf fundec stmt.sid created later := by
  rw [insertGhostDecl, found] at success
  dsimp only at success
  split_ifs at success with known
  · cases success
  · split at success
    case h_1 => cases success
    case h_2 body inserted =>
      cases success
      exact placed_of_instr 1 found inserted

theorem insertGhostAssign_placed {targetName : String} {expr : Exp}
    (found : ast.getDefinition kf = some fundec)
    (success : insertGhostAssign ast kf stmt targetName expr = (.ok created, later)) :
    Placed reading ast kf fundec stmt.sid created later := by
  rw [insertGhostAssign, found] at success
  dsimp only at success
  split at success
  case h_1 => cases success
  case h_2 vi target =>
    split at success
    case h_1 => cases success
    case h_2 body inserted =>
      cases success
      exact placed_of_instr 0 found inserted

theorem insertGhostLoop_placed {loop : GhostLoop} (found : ast.getDefinition kf = some fundec)
    (success : insertGhostLoop ast kf stmt loop = (.ok created, later)) :
    Placed reading ast kf fundec stmt.sid created later := by
  rw [insertGhostLoop, found] at success
  dsimp only at success
  split_ifs at success with invalid known
  · cases success
  · cases success
  · split at success
    case h_1 => cases success
    case h_2 edited placed =>
      obtain ⟨body, inserted, rfl⟩ := Option.map_eq_some_iff.mp placed
      split at success
      case h_1 => cases success
      case h_2 =>
        split at success
        case h_1 => cases success
        case h_2 =>
          cases success
          have numbers := (piece_of_loop ast stmt.line loop).sids []
          have detour : DetourCode reading _ _ _ _ := detourCode_loop stmt.sid ast stmt.line loop
          have supplied := (supplied_loop ast stmt.line loop).sids
          rw [← numbers] at detour supplied
          exact ⟨⟨_, _, _, _, getDefinition_commit 1 8 found, inserted, detour, rfl⟩,
            fun sid member => (supplied sid member).1⟩

theorem insertion_placed (code : GhostCode) (found : ast.getDefinition kf = some fundec)
    (success : insert ast (code.insertion kf stmt) = (.ok created, later)) :
    Placed reading ast kf fundec stmt.sid created later := by
  cases code with
  | decl => exact insertGhostDecl_placed found success
  | assign => exact insertGhostAssign_placed found success
  | loop => exact insertGhostLoop_placed found success

/-- The inserted code runs on all paths to the statement where control reaches no goto and no
switch that goes to it. -/
theorem insert_runsBefore_iff (file : CheckedFile) (code : GhostCode)
    (found : file.ast.getDefinition kf = some fundec)
    (success : insert file.ast (code.insertion kf stmt) = (.ok created, later))
    (resolved : ∀ edge ∈ fundec.sbody.jumps reading, edge.2 ∈ fundec.sbody.sids) :
    ∃ edited, later.getDefinition kf = some edited ∧
      (RunsBefore reading edited.sbody created.head created.sids stmt.sid ↔
        ¬ JumpedTo reading fundec.sbody stmt.sid) := by
  have placed : Placed reading _ _ _ _ _ _ := insertion_placed code found success
  obtain ⟨⟨new, locals, inner, edited, after, inserted, detour, head⟩, numbers⟩ := placed
  refine ⟨edited, after, head ▸ ?_⟩
  apply runsBefore_iff detour (file.checked.nodup_sids found) inserted ?_ resolved
  intro sid member present
  have old := file.checked.sids fundec (mem_of_getDefinition found) sid present
  exact absurd old (Nat.not_lt.mpr (numbers sid member))

end Insertions

section Instances

/-- The texts are those that the kernel prints for jumps and labels. -/
def printedReading : Reading where
  jump := fun text =>
    if text = "break" then .brk else if text = "continue" then .cont else .ret
  isCase := fun label => label = "default" || "case ".toList.isPrefixOf label.toList
  isDefault := fun label => label = "default"
  break_eq := rfl

/-- The only statement in the switch has a case label. -/
def switching : Fundec where
  svar := calleeVar
  sformals := [argument]
  slocals := []
  sbody := .mk [] [
    .switch { sid := 0 } (.evar argument) (.mk [] [
      .instr { sid := 1, labels := ["case 1"] } (.skip 4)]),
    .jump { sid := 2 } "return"]

def switchFile : CheckedFile where
  ast := { globals := [.gfun switching], nextVid := 2, nextSid := 3 }
  checked :=
    { definitions := by decide
      sids := by decide
      locals := by decide
      functions := by decide
      callees := by decide
      wellFormed :=
        { sids := by decide
          locals := List.forall_mem_singleton.mpr (listed_of_quiet rfl)
          calls := fun _ member => absurd member List.not_mem_nil } }

def zeroCount : GhostCode := .decl "count" "int" (.const "0")

/-- The return is entered from the switch and from its body. -/
theorem insert_runsBefore_iff_return :
    ∃ edited, (@insert plainKernel switchFile.ast
        (zeroCount.insertion calleeVar ⟨2, 5⟩)).2.getDefinition calleeVar = some edited ∧
      (RunsBefore printedReading edited.sbody 3 [3] 2 ↔
        ¬ JumpedTo printedReading switching.sbody 2) :=
  @insert_runsBefore_iff calleeVar switching printedReading ⟨2, 5⟩ (.stmt 3) _ plainKernel
    switchFile zeroCount rfl rfl (by decide)

/-- The switch goes to its case and leaves the declaration out. -/
theorem not_insert_runsBefore :
    ¬ ∀ (reading : Reading) [Kernel] (file : CheckedFile) (kf : Varinfo) (stmt : StmtRef)
      (code : GhostCode) (fundec : Fundec) (created : Inserted) (later : Ast),
      file.ast.getDefinition kf = some fundec →
      insert file.ast (code.insertion kf stmt) = (.ok created, later) →
      (∀ edge ∈ fundec.sbody.jumps reading, edge.2 ∈ fundec.sbody.sids) →
      ∃ edited, later.getDefinition kf = some edited ∧
        RunsBefore reading edited.sbody created.head created.sids stmt.sid := by
  intro runs
  obtain ⟨edited, found, passes⟩ := @runs printedReading plainKernel switchFile calleeVar ⟨1, 4⟩
    zeroCount switching (.stmt 3) _ rfl rfl (by decide)
  obtain rfl := Option.some.inj found
  have arrival := passes [0] (.step 1 (.start 0 rfl) (.inr (List.mem_singleton_self (0, 1))))
  exact absurd (List.mem_singleton.mp arrival.head_mem) (by decide)

end Instances

end FramaCMcp.Ghost
