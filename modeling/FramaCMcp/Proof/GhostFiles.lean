/-
This file shows that an edit of one function keeps the file well formed, and that the rollbacks give
the globals back.
-/

import FramaCMcp.Proof.GhostBodies

namespace FramaCMcp.Ghost

open Cil

theorem mem_fundecs {globals : List Global} {fundec : Fundec} :
    fundec ∈ fundecs globals ↔ .gfun fundec ∈ globals := by
  constructor
  · intro member
    obtain ⟨global, there, found⟩ := List.mem_filterMap.mp member
    cases global with
    | gfun other =>
        cases found
        exact there
    | _ => cases found
  · exact fun member => List.mem_filterMap.mpr ⟨.gfun fundec, member, rfl⟩

namespace Numbered

variable {ast : Ast} {kf : Varinfo} {fundec : Fundec}

theorem split_fundecs (numbered : Numbered ast) (found : ast.getDefinition kf = some fundec) :
    fundec.svar.vid = kf.vid ∧ ∃ before after, fundecs ast.globals = before ++ fundec :: after ∧
      ∀ other ∈ before ++ after, other.svar.vid ≠ kf.vid := by
  obtain ⟨is, before, after, whole, -⟩ := List.find?_eq_some_iff_append.mp found
  have same : fundec.svar.vid = kf.vid := beq_iff_eq.mp is
  refine ⟨same, before, after, whole, fun other member equal => ?_⟩
  have unique := numbered.definitions
  rw [whole, List.map_append, List.map_cons] at unique
  have absent := (List.nodup_cons.mp (List.nodup_middle.mp unique)).1
  rw [← List.map_append] at absent
  exact absent (List.mem_map.mpr ⟨other, member, equal.trans same.symm⟩)

theorem eq_definition (numbered : Numbered ast) (found : ast.getDefinition kf = some fundec)
    {other : Fundec} (member : other ∈ fundecs ast.globals) (same : other.svar.vid = kf.vid) :
    other = fundec := by
  obtain ⟨-, before, after, whole, others⟩ := numbered.split_fundecs found
  rw [whole] at member
  rcases List.mem_append.mp member with earlier | rest
  · exact absurd same (others other (List.mem_append_left _ earlier))
  · rcases List.mem_cons.mp rest with rfl | later
    · rfl
    · exact absurd same (others other (List.mem_append_right _ later))

end Numbered

section Update

variable {ast : Ast} {kf : Varinfo} {edit : Fundec → Fundec}

theorem fundecs_updateFundec : fundecs (ast.updateFundec kf edit).globals =
    (fundecs ast.globals).map fun fundec =>
      if fundec.svar.vid = kf.vid then edit fundec else fundec := by
  rw [fundecs, fundecs, Ast.updateFundec, List.filterMap_map, List.map_filterMap]
  congr 1
  funext global
  cases global <;> rfl

/-- A reading that does not see the edit reads the same of the edited file. -/
theorem filterMap_updateFundec {Entry : Type} {read : Global → Option Entry}
    (blind : ∀ fundec ∈ fundecs ast.globals, fundec.svar.vid = kf.vid →
      read (.gfun (edit fundec)) = read (.gfun fundec)) :
    (ast.updateFundec kf edit).globals.filterMap read = ast.globals.filterMap read := by
  rw [Ast.updateFundec, List.filterMap_map]
  refine List.filterMap_congr fun global member => ?_
  cases global with
  | gfun fundec =>
      by_cases here : fundec.svar.vid = kf.vid
      · have same := blind fundec (mem_fundecs.mpr member) here
        simp only [Function.comp_apply, if_pos here, same]
      · simp only [Function.comp_apply, if_neg here]
  | _ => rfl

theorem updateFundec_eq_self (keeps : ∀ fundec ∈ fundecs ast.globals, fundec.svar.vid = kf.vid →
    edit fundec = fundec) : (ast.updateFundec kf edit).globals = ast.globals := by
  have same : (ast.updateFundec kf edit).globals.filterMap some = ast.globals.filterMap some :=
    filterMap_updateFundec fun fundec member here => by rw [keeps fundec member here]
  rwa [List.filterMap_some, List.filterMap_some] at same

theorem updateFundec_updateFundec (second : Fundec → Fundec)
    (keeps : ∀ fundec, (edit fundec).svar = fundec.svar) :
    (ast.updateFundec kf edit).updateFundec kf second =
      ast.updateFundec kf fun fundec => second (edit fundec) := by
  rw [Ast.updateFundec, Ast.updateFundec, Ast.updateFundec, List.map_map]
  congr 2
  funext global
  cases global with
  | gfun fundec =>
      by_cases here : fundec.svar.vid = kf.vid
      · simp only [Function.comp_apply, if_pos here, keeps fundec]
      · simp only [Function.comp_apply, if_neg here]
  | _ => rfl

end Update

/-- The new variables and statements have the next numbers. -/
structure Supplied (ast : Ast) (vids sids : Nat) (declared : List Varinfo) (new : List Nat) :
    Prop where
  ghosts : ∀ vi ∈ declared, vi.vghost = true
  vids : ∀ vi ∈ declared, ast.nextVid ≤ vi.vid ∧ vi.vid < ast.nextVid + vids
  sids : ∀ sid ∈ new, ast.nextSid ≤ sid ∧ sid < ast.nextSid + sids
  nodup : new.Nodup

section Commit

variable {ast : Ast} {kf : Varinfo} {fundec : Fundec} {edit : Fundec → Fundec}

/-- The edited function takes the place of the one that was found. -/
theorem split_updateFundec (numbered : Numbered ast) (found : ast.getDefinition kf = some fundec) :
    ∃ before after, fundecs ast.globals = before ++ fundec :: after ∧
      fundecs (ast.updateFundec kf edit).globals = before ++ edit fundec :: after := by
  obtain ⟨here, before, after, whole, others⟩ := numbered.split_fundecs found
  have kept {rest : List Fundec} (inside : ∀ other ∈ rest, other ∈ before ++ after) :
      rest.map (fun other => if other.svar.vid = kf.vid then edit other else other) = rest :=
    (List.map_congr_left fun other member => if_neg (others other (inside other member))).trans
      (List.map_id rest)
  refine ⟨before, after, whole, ?_⟩
  rw [fundecs_updateFundec, whole, List.map_append, List.map_cons, if_pos here,
    kept fun _ => List.mem_append_left _, kept fun _ => List.mem_append_right _]

/-- An edit that keeps the formals of a function keeps its arity. -/
theorem arityOf_updateFundec {vid : Nat} (keeps : ∀ fundec, (edit fundec).svar = fundec.svar)
    (same : ∀ fundec, fundec.svar.vid = vid → fundec.svar.vid = kf.vid →
      fundecArity (edit fundec) = fundecArity fundec) :
    arityOf (ast.updateFundec kf edit).globals vid = arityOf ast.globals vid := by
  have vids (fundec : Fundec) : (if fundec.svar.vid = kf.vid then edit fundec
      else fundec).svar.vid = fundec.svar.vid := by
    split_ifs
    · rw [keeps]
    · rfl
  have defined : (((fundecs (ast.updateFundec kf edit).globals).find? fun fundec =>
      fundec.svar.vid == vid).map fundecArity) =
        (((fundecs ast.globals).find? fun fundec => fundec.svar.vid == vid).map fundecArity) := by
    rw [fundecs_updateFundec, List.find?_map, Option.map_map]
    simp only [Function.comp_def, vids]
    cases found : (fundecs ast.globals).find? fun fundec => fundec.svar.vid == vid with
    | none => rfl
    | some fundec =>
        have here : fundec.svar.vid = vid := beq_iff_eq.mp (List.find?_eq_some_iff_append.mp found).1
        simp only [Option.map_some]
        split_ifs with edited
        · rw [same fundec here edited]
        · rfl
  have declared : (ast.updateFundec kf edit).globals.findSome? (declaredArity vid) =
      ast.globals.findSome? (declaredArity vid) := by
    rw [Ast.updateFundec, List.findSome?_map]
    congr 1
    funext global
    cases global <;> rfl
  rw [arityOf, arityOf, defined, declared]

/-- A file with the same globals and further counters is checked as well. -/
theorem Checked.of_globals {next : Ast} (checked : Checked ast) (same : next.globals = ast.globals)
    (vids : ast.nextVid ≤ next.nextVid) (sids : ast.nextSid ≤ next.nextSid) : Checked next where
  definitions := by rw [same]; exact checked.definitions
  sids := by
    rw [same]
    exact fun fundec member sid inside => (checked.sids fundec member sid inside).trans_le sids
  locals := by
    rw [same]
    exact fun fundec member vi inside => (checked.locals fundec member vi inside).trans_le vids
  functions := by
    rw [same]
    exact fun vi member => (checked.functions vi member).trans_le vids
  callees := by
    rw [same]
    exact fun site member => (checked.callees site member).trans_le vids
  wellFormed := by rw [same]; exact checked.wellFormed

variable {body : Block} {declared : List Varinfo} {new : List Nat} {vids sids : Nat}

def bodyEdit (body : Block) (declared : List Varinfo) (fundec : Fundec) : Fundec :=
  { fundec with sbody := body, slocals := fundec.slocals ++ declared }

theorem split_commit (body : Block) (declared : List Varinfo) (vids sids : Nat)
    (numbered : Numbered ast) (found : ast.getDefinition kf = some fundec) :
    ∃ before after, fundecs ast.globals = before ++ fundec :: after ∧
      fundecs (commitBodyEdit (ast.advance vids sids) kf body declared).globals =
        before ++ bodyEdit body declared fundec :: after :=
  split_updateFundec numbered found

theorem fileSids_commit (numbered : Numbered ast) (found : ast.getDefinition kf = some fundec)
    (grown : Grown declared new fundec.sbody body) :
    (fileSids (commitBodyEdit (ast.advance vids sids) kf body declared).globals).Perm
      (new ++ fileSids ast.globals) := by
  obtain ⟨before, after, whole, edited⟩ := split_commit body declared vids sids numbered found
  have around := @perm_around _ new fundec.sbody.sids body.sids
    (before.flatMap fun fundec => fundec.sbody.sids)
    (after.flatMap fun fundec => fundec.sbody.sids) grown.sids
  rw [fileSids, fileSids, edited, whole]
  simpa only [List.flatMap_append, List.flatMap_cons, List.append_assoc, bodyEdit] using around

theorem fileCalls_commit (numbered : Numbered ast) (found : ast.getDefinition kf = some fundec)
    (grown : Grown declared new fundec.sbody body) :
    ∀ site ∈ fileCalls (commitBodyEdit (ast.advance vids sids) kf body declared).globals,
      site ∈ fileCalls ast.globals := by
  obtain ⟨before, after, whole, edited⟩ := split_commit body declared vids sids numbered found
  intro site member
  rw [fileCalls, edited, List.flatMap_append, List.flatMap_cons] at member
  rw [fileCalls, whole, List.flatMap_append, List.flatMap_cons]
  rcases List.mem_append.mp member with earlier | rest
  · exact List.mem_append_left _ earlier
  · rcases List.mem_append.mp rest with inside | later
    · exact List.mem_append_right _ (List.mem_append_left _ (grown.calls site inside))
    · exact List.mem_append_right _ (List.mem_append_right _ later)

theorem forall_commit {holds : Fundec → Prop} (numbered : Numbered ast)
    (found : ast.getDefinition kf = some fundec)
    (others : ∀ other ∈ fundecs ast.globals, holds other)
    (edited : holds (bodyEdit body declared fundec)) :
    ∀ other ∈ fundecs (commitBodyEdit (ast.advance vids sids) kf body declared).globals,
      holds other := by
  obtain ⟨before, after, whole, split⟩ := split_commit body declared vids sids numbered found
  rw [whole] at others
  rw [split]
  obtain ⟨earlier, later⟩ := List.forall_mem_append.mp others
  exact List.forall_mem_append.mpr
    ⟨earlier, List.forall_mem_cons.mpr ⟨edited, (List.forall_mem_cons.mp later).2⟩⟩

theorem mem_of_getDefinition (found : ast.getDefinition kf = some fundec) :
    fundec ∈ fundecs ast.globals :=
  List.mem_of_find?_eq_some found

theorem Supplied.fresh {vids sids : Nat} (supplied : Supplied ast vids sids declared new)
    {vars : List Varinfo} (below : ∀ vi ∈ vars, vi.vid < ast.nextVid) : Fresh declared vars := by
  intro vi declares member
  obtain ⟨other, inside, same⟩ := List.mem_map.mp member
  have large := (supplied.vids vi declares).1
  have small := below other inside
  omega

/-- An edited body keeps the file numbered. -/
theorem Numbered.commit (numbered : Numbered ast) (found : ast.getDefinition kf = some fundec)
    (grown : Grown declared new fundec.sbody body) (supplied : Supplied ast vids sids declared new) :
    Numbered (commitBodyEdit (ast.advance vids sids) kf body declared) where
  definitions := by
    obtain ⟨before, after, whole, edited⟩ := split_commit body declared vids sids numbered found
    have unique := numbered.definitions
    rw [whole, List.map_append, List.map_cons] at unique
    rw [edited, List.map_append, List.map_cons]
    exact unique
  sids := by
    refine forall_commit numbered found (fun other member sid inside => ?_) fun sid inside => ?_
    · exact (numbered.sids other member sid inside).trans_le (Nat.le_add_right _ _)
    · rcases List.mem_append.mp (grown.sids.mem_iff.mp inside) with added | old
      · exact (supplied.sids sid added).2
      · exact (numbered.sids fundec (mem_of_getDefinition found) sid old).trans_le
          (Nat.le_add_right _ _)
  locals := by
    have old := numbered.locals fundec (mem_of_getDefinition found)
    refine forall_commit numbered found (fun other member vi inside => ?_) fun vi inside => ?_
    · exact (numbered.locals other member vi inside).trans_le (Nat.le_add_right _ _)
    · have known (before : vi ∈ fundec.slocals ++ fundec.sbody.scopes) :
          vi.vid < ast.nextVid + vids := (old vi before).trans_le (Nat.le_add_right _ _)
      rcases List.mem_append.mp inside with listed | within
      · rcases List.mem_append.mp listed with first | added
        · exact known (List.mem_append_left _ first)
        · exact (supplied.vids vi added).2
      · rcases grown.scopes vi within with added | first
        · exact (supplied.vids vi added).2
        · exact known (List.mem_append_right _ first)
  functions := by
    intro vi member
    have same : (commitBodyEdit (ast.advance vids sids) kf body declared).globals.filterMap
        Global.function? = ast.globals.filterMap Global.function? :=
      filterMap_updateFundec fun _ _ _ => rfl
    rw [same] at member
    exact (numbered.functions vi member).trans_le (Nat.le_add_right _ _)
  callees := fun site member =>
    (numbered.callees site (fileCalls_commit numbered found grown site member)).trans_le
      (Nat.le_add_right _ _)

/-- An edited body keeps the file well formed. -/
theorem Checked.commit (checked : Checked ast) (found : ast.getDefinition kf = some fundec)
    (grown : Grown declared new fundec.sbody body) (supplied : Supplied ast vids sids declared new) :
    Checked (commitBodyEdit (ast.advance vids sids) kf body declared) where
  toNumbered := checked.toNumbered.commit found grown supplied
  wellFormed := by
    have numbered := checked.toNumbered
    have member := mem_of_getDefinition found
    constructor
    case sids =>
      rw [(fileSids_commit numbered found grown).nodup_iff, List.nodup_append]
      refine ⟨supplied.nodup, checked.wellFormed.sids, fun sid added other old same => ?_⟩
      obtain ⟨owner, owns, inside⟩ := List.mem_flatMap.mp old
      have small := numbered.sids owner owns other inside
      have large := (supplied.sids sid added).1
      omega
    case locals =>
      refine forall_commit numbered found checked.wellFormed.locals ?_
      have old := numbered.locals fundec member
      exact grown.listed fundec.slocals
        (supplied.fresh fun vi inside => old vi (List.mem_append_left _ inside))
        (supplied.fresh fun vi inside => old vi (List.mem_append_right _ inside))
        (checked.wellFormed.locals fundec member)
    case calls =>
      intro site called
      have same : arityOf (commitBodyEdit (ast.advance vids sids) kf body declared).globals
          site.callee.vid = arityOf ast.globals site.callee.vid :=
        arityOf_updateFundec (fun _ => rfl) fun _ _ _ => rfl
      rw [CallFits, same]
      exact checked.wellFormed.calls site (fileCalls_commit numbered found grown site called)

/-- An edited body leaves the same file without ghost code. -/
theorem eraseFile_commit (numbered : Numbered ast) (found : ast.getDefinition kf = some fundec)
    (grown : Grown declared new fundec.sbody body) (ghosts : ∀ vi ∈ declared, vi.vghost = true) :
    eraseFile (commitBodyEdit (ast.advance vids sids) kf body declared).globals =
      eraseFile ast.globals := by
  refine filterMap_updateFundec fun other member here => ?_
  obtain rfl := numbered.eq_definition found member here
  simp only [eraseGlobal, eraseFundec, withoutGhosts, grown.erased, filter_withoutGhosts ghosts]

end Commit

end FramaCMcp.Ghost
