/-
This file shows for which loops the proposed frame names every place that the loop can write.
-/

import Mathlib.Data.List.Induction
import FramaCMcp.Proof.ProposedFrames

namespace FramaCMcp.Frames

open Accumulation Cil Annotations Coverage CoverageFixpoint

theorem initializedVids_append (first second : List Instr) :
    initializedVids (first ++ second) = initializedVids first ++ initializedVids second := by
  simp [initializedVids]

/-- The text of the last instruction of a body is there or was there before. -/
theorem loopText_append_singleton [Printer] (instrs : List Instr) (instr : Instr) (text : String) :
    LoopText (instrs ++ [instr]) text ↔ LoopText instrs text ∨ ∃ lv ∈ storedLvals instr,
      (∀ vi, lv.host = .var vi → vi.vid ∉ initializedVids instrs) ∧ modifiedLvalName lv = text := by
  constructor
  · rintro ⟨before, item, after, split, stored⟩
    rcases List.eq_nil_or_concat after with rfl | ⟨middle, last, rfl⟩
    · obtain ⟨rfl, same⟩ := List.append_inj' split rfl
      cases same
      exact .inr stored
    · rw [List.concat_eq_append, ← List.cons_append, ← List.append_assoc] at split
      obtain ⟨same, -⟩ := List.append_inj' split rfl
      exact .inl ⟨before, item, middle, same, stored⟩
  · rintro (⟨before, item, after, rfl, stored⟩ | stored)
    · exact ⟨before, item, after ++ [instr], by simp, stored⟩
    · exact ⟨instrs, instr, [], rfl, stored⟩

namespace LoopWrites

theorem mem_modifiedVars_addName (writes : LoopWrites) (added name : String) :
    name ∈ (writes.addName added).modifiedVars ↔
      name ∈ writes.modifiedVars ∨ (name ≠ "" ∧ added = name) := by
  unfold addName
  by_cases skipped : added = "" ∨ added ∈ writes.modifiedVars
  · rw [if_pos skipped]
    refine ⟨.inl, fun either => either.elim id ?_⟩
    rintro ⟨named, rfl⟩
    exact skipped.resolve_left named
  · obtain ⟨named, new⟩ := not_or.mp skipped
    rw [if_neg skipped, List.mem_cons, or_comm, eq_comm]
    exact or_congr_right ⟨fun same => ⟨same ▸ named, same⟩, And.right⟩

/-- A name changes neither the locals nor the callees. -/
theorem addName_frame (writes : LoopWrites) (name : String) :
    (writes.addName name).loopLocalVids = writes.loopLocalVids ∧
      (writes.addName name).callees = writes.callees := by
  unfold addName
  split_ifs <;> exact ⟨rfl, rfl⟩

theorem mem_modifiedVars_addNames (writes : LoopWrites) (names : List String) (name : String) :
    name ∈ (names.foldl addName writes).modifiedVars ↔
      name ∈ writes.modifiedVars ∨ (name ≠ "" ∧ name ∈ names) := by
  rw [holds_foldl (fun writes => name ∈ writes.modifiedVars) addName _
    fun writes own => mem_modifiedVars_addName writes own name]
  refine or_congr_right ⟨?_, fun ⟨named, member⟩ => ⟨name, member, named, rfl⟩⟩
  rintro ⟨_, member, named, rfl⟩
  exact ⟨named, member⟩

theorem addNames_frame (writes : LoopWrites) (names : List String) :
    (names.foldl addName writes).loopLocalVids = writes.loopLocalVids ∧
      (names.foldl addName writes).callees = writes.callees := by
  induction names generalizing writes with
  | nil => exact ⟨rfl, rfl⟩
  | cons name rest ih =>
      obtain ⟨locals, callees⟩ := addName_frame writes name
      rw [List.foldl_cons]
      exact ⟨(ih _).1.trans locals, (ih _).2.trans callees⟩

end LoopWrites

section LoopVisitor

variable [Printer]

theorem modifiedLvalName_ne_empty (lv : Lval) : modifiedLvalName lv ≠ "" := by
  unfold modifiedLvalName
  split_ifs with unnamed
  · exact Printer.ppLval_ne_empty lv
  · exact unnamed

namespace LoopWrites

variable {program : Program}

theorem mem_modifiedVars_addWrite (writes : LoopWrites) (lv : Lval) (name : String) :
    name ∈ (writes.addWrite lv).modifiedVars ↔
      name ∈ writes.modifiedVars ∨ (writes.isLoopLocal lv = false ∧ modifiedLvalName lv = name) := by
  unfold addWrite
  by_cases inside : writes.isLoopLocal lv = true
  · simp [inside]
  · rw [if_neg inside, mem_modifiedVars_addName, Bool.not_eq_true] at *
    refine or_congr_right ⟨fun added => ⟨inside, added.2⟩, fun added => ⟨?_, added.2⟩⟩
    exact added.2 ▸ modifiedLvalName_ne_empty lv

theorem addWrite_frame (writes : LoopWrites) (lv : Lval) :
    (writes.addWrite lv).loopLocalVids = writes.loopLocalVids ∧
      (writes.addWrite lv).callees = writes.callees := by
  unfold addWrite
  split_ifs
  · exact ⟨rfl, rfl⟩
  · exact addName_frame _ _

theorem mem_modifiedVars_addCalleeAssigns (writes : LoopWrites) (vi : Varinfo) (name : String) :
    name ∈ (writes.addCalleeAssigns program vi).modifiedVars ↔ name ∈ writes.modifiedVars ∨
      (name ≠ "" ∧ ∃ kf, kernelFunctionOfVarinfo program vi = some kf ∧
        name ∈ assignsTargets (program.assigns kf)) := by
  unfold addCalleeAssigns
  cases kernelFunctionOfVarinfo program vi with
  | none => simp
  | some kf => simp [mem_modifiedVars_addNames]

theorem addCalleeAssigns_frame (writes : LoopWrites) (vi : Varinfo) :
    (writes.addCalleeAssigns program vi).loopLocalVids = writes.loopLocalVids ∧
      (writes.addCalleeAssigns program vi).callees = addCallee program writes.callees vi := by
  unfold addCalleeAssigns
  cases kernelFunctionOfVarinfo program vi with
  | none => exact ⟨rfl, rfl⟩
  | some kf => exact addNames_frame _ _

theorem mem_loopLocalVids_vinst (writes : LoopWrites) (instr : Instr) (vid : Nat) :
    vid ∈ (writes.vinst program instr).loopLocalVids ↔
      vid ∈ writes.loopLocalVids ∨ ∃ vi, instr.initializedVar = some vi ∧ vi.vid = vid := by
  cases instr with
  | call result callee args line =>
      cases callee <;> cases result <;>
        simp [vinst, addResult, addCalleeAssigns_frame, addWrite_frame, Instr.initializedVar]
  | localInit vi init line =>
      rcases init with values | ⟨callee, args, kind⟩ <;>
        simp [vinst, addLoopLocal, addCalleeAssigns_frame, Instr.initializedVar, or_comm, eq_comm]
  | set lv value line => simp [vinst, addWrite_frame, Instr.initializedVar]
  | _ => simp [vinst, Instr.initializedVar]

theorem mem_callees_vinst (writes : LoopWrites) (instr : Instr) (kf : KernelFunction) :
    kf ∈ (writes.vinst program instr).callees ↔ kf ∈ writes.callees ∨ Calls program instr kf := by
  cases instr with
  | call result callee args line =>
      cases callee <;> cases result <;>
        simp [vinst, addResult, addCalleeAssigns_frame, addWrite_frame, mem_addCallee, Calls,
          Instr.callSite]
  | localInit vi init line =>
      rcases init with values | ⟨callee, args, kind⟩
      · simp [vinst, addLoopLocal, Calls, Instr.callSite]
      · cases kind <;>
          simp [vinst, addLoopLocal, addCalleeAssigns_frame, mem_addCallee, Calls, Instr.callSite]
  | set lv value line => simp [vinst, addWrite_frame, Calls, Instr.callSite]
  | _ => simp [vinst, Calls, Instr.callSite]

/-- This is a text that the clause of a known callee has. -/
def ClauseText (program : Program) (instr : Instr) (name : String) : Prop :=
  ∃ kf, Calls program instr kf ∧ name ∈ assignsTargets (program.assigns kf)

/-- An instruction adds its stores to variables around the loop and the clauses it calls. -/
theorem mem_modifiedVars_vinst (writes : LoopWrites) (instr : Instr) (name : String) :
    name ∈ (writes.vinst program instr).modifiedVars ↔ name ∈ writes.modifiedVars ∨
      (∃ lv ∈ storedLvals instr, writes.isLoopLocal lv = false ∧ modifiedLvalName lv = name) ∨
        (name ≠ "" ∧ ClauseText program instr name) := by
  cases instr with
  | call result callee args line =>
      cases callee <;> cases result <;>
        simp [vinst, addResult, mem_modifiedVars_addCalleeAssigns, mem_modifiedVars_addWrite,
          storedLvals, ClauseText, Calls, Instr.callSite, or_assoc]
  | localInit vi init line =>
      rcases init with values | ⟨callee, args, kind⟩
      · simp [vinst, addLoopLocal, storedLvals, ClauseText, Calls, Instr.callSite]
      · cases kind <;>
          simp [vinst, addLoopLocal, mem_modifiedVars_addCalleeAssigns, storedLvals, ClauseText,
            Calls, Instr.callSite]
  | set lv value line =>
      simp [vinst, mem_modifiedVars_addWrite, storedLvals, ClauseText, Calls, Instr.callSite]
  | _ => simp [vinst, storedLvals, ClauseText, Calls, Instr.callSite]

variable (program)

theorem mem_callees (instrs : List Instr) (kf : KernelFunction) :
    kf ∈ (instrs.foldl (vinst program) {}).callees ↔ ∃ instr ∈ instrs, Calls program instr kf := by
  have gathered := holds_foldl (fun writes => kf ∈ writes.callees) (vinst program) _
    (fun writes instr => mem_callees_vinst writes instr kf) instrs {}
  simpa using gathered

theorem mem_loopLocalVids (instrs : List Instr) (vid : Nat) :
    vid ∈ (instrs.foldl (vinst program) {}).loopLocalVids ↔ vid ∈ initializedVids instrs := by
  have gathered := holds_foldl (fun writes => vid ∈ writes.loopLocalVids) (vinst program) _
    (fun writes instr => mem_loopLocalVids_vinst writes instr vid) instrs {}
  simp only [List.not_mem_nil, false_or] at gathered
  rw [gathered]
  simp only [initializedVids, List.mem_map, List.mem_filterMap]
  constructor
  · rintro ⟨instr, member, vi, found, same⟩
    exact ⟨vi, ⟨instr, member, found⟩, same⟩
  · rintro ⟨vi, ⟨instr, member, found⟩, same⟩
    exact ⟨instr, member, vi, found, same⟩

theorem isLoopLocal_eq_false (instrs : List Instr) (lv : Lval) :
    (instrs.foldl (vinst program) {}).isLoopLocal lv = false ↔
      ∀ vi, lv.host = .var vi → vi.vid ∉ initializedVids instrs := by
  unfold isLoopLocal
  cases lv.host with
  | var vi => simp [mem_loopLocalVids]
  | _ => simp

theorem mem_modifiedVars (instrs : List Instr) (name : String) :
    name ∈ (instrs.foldl (vinst program) {}).modifiedVars ↔
      LoopText instrs name ∨ (name ≠ "" ∧ ∃ instr ∈ instrs, ClauseText program instr name) := by
  induction instrs using List.reverseRecOn with
  | nil => simp [LoopText]
  | append_singleton instrs instr ih =>
      rw [List.foldl_append, List.foldl_cons, List.foldl_nil, mem_modifiedVars_vinst, ih,
        loopText_append_singleton]
      simp only [isLoopLocal_eq_false, List.mem_append, List.mem_singleton, or_and_right,
        exists_or, exists_eq_left, and_or_left]
      exact or_or_or_comm

end LoopWrites

end LoopVisitor

/-- A proposal is added to those that were made before. -/
theorem frames_loopFrame (annotations : Json) (proposals : Proposals) (loopEffect : Json) :
    (loopFrame annotations proposals loopEffect).frames =
      proposals.frames ++ (loopFrame annotations {} loopEffect).frames := by
  unfold loopFrame
  cases (loopEffect.get "stmt_id").bind Json.asI64 with
  | none => simp
  | some stmtId =>
      dsimp only
      cases extendWithCalleeAssigns (modifiedVars loopEffect) loopEffect with
      | error reason => simp
      | ok targets =>
          dsimp only
          split_ifs <;> simp

/-- A callee without a list ends the frame. -/
theorem frames_of_error {annotations loopEffect : Json} {stmtId : Int} {reason : String}
    (found : (loopEffect.get "stmt_id").bind Json.asI64 = some stmtId)
    (failed : extendWithCalleeAssigns (modifiedVars loopEffect) loopEffect = .error reason) :
    (loopFrame annotations {} loopEffect).frames = [] := by
  unfold loopFrame
  rw [found]
  dsimp only
  rw [failed]

theorem frames_of_ok {annotations loopEffect : Json} {stmtId : Int} {targets : List String}
    (found : (loopEffect.get "stmt_id").bind Json.asI64 = some stmtId)
    (extended : extendWithCalleeAssigns (modifiedVars loopEffect) loopEffect = .ok targets) :
    (loopFrame annotations {} loopEffect).frames =
      if (sortDedup targets).isEmpty ∨
          alreadyAnnotated annotations "assigns" (some ("#k" ++ toString stmtId)) then []
      else [⟨stmtId, sortDedup targets⟩] := by
  unfold loopFrame
  rw [found]
  dsimp only
  rw [extended]
  dsimp only
  split_ifs <;> rfl

theorem mem_frames_foldl (annotations : Json) (effects : List Json) (frame : LoopFrame) :
    frame ∈ (effects.foldl (loopFrame annotations) {}).frames ↔
      ∃ effect ∈ effects, frame ∈ (loopFrame annotations {} effect).frames := by
  have gathered := holds_foldl (fun proposals => frame ∈ proposals.frames) (loopFrame annotations)
    (fun effect => frame ∈ (loopFrame annotations {} effect).frames)
    (fun proposals effect => by rw [frames_loopFrame, List.mem_append]) effects {}
  exact gathered.trans (or_iff_right List.not_mem_nil)

section LoopFrame

variable [Printer] (program : Program)

theorem mem_frames_loopFrames (fundec : Fundec) (annotations : Json) (frame : LoopFrame) :
    frame ∈ (loopFrames (getLoopEffects program fundec) annotations {}).frames ↔
      ∃ loop ∈ fundec.loops,
        frame ∈ (loopFrame annotations {} (loopEffectToJson program loop)).frames := by
  rw [loopFrames, getLoopEffects, asArray_arr, Option.getD_some, mem_frames_foldl]
  simp only [List.mem_map, exists_exists_and_eq_and]

theorem items_loopCallees (sid : Nat) (writes : LoopWrites) :
    items (writes.result program sid) "callee_assigns" =
      writes.callees.reverse.map (calleeAssignsToJson program) := by
  simp [items, LoopWrites.result, List.lookup_cons]

theorem modifiedVars_result (sid : Nat) (writes : LoopWrites) :
    modifiedVars (writes.result program sid) = writes.modifiedVars.reverse := by
  simp [modifiedVars, items, LoopWrites.result, List.lookup_cons, List.filterMap_map,
    Function.comp_def]

theorem stmtId_result (sid : Nat) (small : sid < 2 ^ 62) (writes : LoopWrites) :
    ((writes.result program sid).get "stmt_id").bind Json.asI64 = some (sid : Int) := by
  have found : (writes.result program sid).get "stmt_id" = some (.num sid) := rfl
  rw [found, Option.bind_some, Json.asI64, if_pos]
  omega

/-- A loop lists nothing exactly where neither its body nor a callee has a text for it. -/
theorem listsNothing_iff {instrs : List Instr} (accepted : ¬HasRefusedCallee program instrs) :
    ListsNothing program instrs ↔
      ∀ text, ¬(LoopText instrs text ∨ CalleeText program instrs text) := by
  constructor
  · rintro ⟨silent, unknown⟩ text (own | ⟨instr, member, site, called, targets, finite, -⟩)
    · exact silent text own
    · obtain ⟨kf, found, -⟩ := finiteTargets_eq_some.mp finite
      rw [unknown instr member site called] at found
      cases found
  · intro silent
    refine ⟨fun text own => silent text (.inl own), fun instr member site called => ?_⟩
    by_contra known
    obtain ⟨kf, found⟩ := Option.ne_none_iff_exists'.mp known
    refine accepted ⟨instr, member, site, called, kf, found, fun targets clause => ?_⟩
    by_contra nonempty
    obtain ⟨target, inClause⟩ := List.exists_mem_of_ne_nil targets nonempty
    exact silent (Printer.ppTerm target) (.inr ⟨instr, member, site, called, targets,
      finiteTargets_eq_some.mpr ⟨kf, found, clause⟩, target, inClause, rfl⟩)

/-- The clauses that the visitor names are the clauses that the server reads. -/
theorem calleeText_of_clauseText {instrs : List Instr}
    (accepted : ¬HasRefusedCallee program instrs) {text : String}
    (named : ∃ instr ∈ instrs, LoopWrites.ClauseText program instr text) :
    CalleeText program instrs text := by
  obtain ⟨instr, member, kf, ⟨site, called, found⟩, listed⟩ := named
  cases clause : program.assigns kf with
  | writesAny =>
      refine absurd ⟨instr, member, site, called, kf, found, fun targets finite => ?_⟩ accepted
      rw [clause] at finite
      cases finite
  | writes targets =>
      rw [clause] at listed
      exact ⟨instr, member, site, called, targets, finiteTargets_eq_some.mpr ⟨kf, found, clause⟩,
        List.mem_map.mp listed⟩

/-- A loop that calls such a function gets no frame. -/
theorem frames_refused (annotations : Json) (loop : Cil.Loop) (small : loop.sid < 2 ^ 62)
    (refused : HasRefusedCallee program loop.body.instrs) :
    (loopFrame annotations {} (loopEffectToJson program loop)).frames = [] := by
  obtain ⟨reason, failed⟩ := extendWithCalleeAssigns_error
    (modifiedVars (loopEffectToJson program loop)) (loopEffectToJson program loop) (by
      rw [loopEffectToJson, items_loopCallees]
      exact (exists_kind_ne_list (LoopWrites.mem_callees program _)).mpr refused)
  exact frames_of_error (stmtId_result program loop.sid small _) failed

/-- Every other loop gets one, unless it needs none or has its own. -/
theorem frames_accepted (annotations : Json) (loop : Cil.Loop) (small : loop.sid < 2 ^ 62)
    (accepted : ¬HasRefusedCallee program loop.body.instrs) :
    ((ListsNothing program loop.body.instrs ∨ HasOwnFrame annotations loop) ∧
      (loopFrame annotations {} (loopEffectToJson program loop)).frames = []) ∨
    ¬(ListsNothing program loop.body.instrs ∨ HasOwnFrame annotations loop) ∧ ∃ targets,
      (∀ text, text ∈ targets ↔
        LoopText loop.body.instrs text ∨ CalleeText program loop.body.instrs text) ∧
      (loopFrame annotations {} (loopEffectToJson program loop)).frames =
        [⟨loop.sid, targets⟩] := by
  have known := LoopWrites.mem_callees program loop.body.instrs
  have callees : items (loopEffectToJson program loop) "callee_assigns" = _ :=
    items_loopCallees program loop.sid _
  have extended := extendWithCalleeAssigns_ok (modifiedVars (loopEffectToJson program loop))
    (loopEffectToJson program loop) (by
      rw [callees]
      have all := (exists_kind_ne_list known).not.mpr accepted
      push Not at all
      exact all)
  have listed : ∀ text, text ∈ sortDedup (modifiedVars (loopEffectToJson program loop) ++
      (items (loopEffectToJson program loop) "callee_assigns").flatMap assignsTexts) ↔
        LoopText loop.body.instrs text ∨ CalleeText program loop.body.instrs text := by
    intro text
    rw [mem_sortDedup, List.mem_append, callees, loopEffectToJson, modifiedVars_result,
      List.mem_reverse, LoopWrites.mem_modifiedVars, mem_calleeTexts known accepted, or_assoc]
    refine or_congr_right (or_iff_right_of_imp fun named => ?_)
    exact calleeText_of_clauseText program accepted named.2
  have frames := @frames_of_ok annotations _ _ _
    (stmtId_result program loop.sid small _) extended
  generalize sortDedup _ = targets at listed frames
  have silent : targets.isEmpty = true ↔ ListsNothing program loop.body.instrs := by
    rw [listsNothing_iff program accepted, List.isEmpty_iff, List.eq_nil_iff_forall_not_mem]
    exact forall_congr' fun text => (listed text).not
  by_cases skipped : targets.isEmpty = true ∨ HasOwnFrame annotations loop
  · exact .inl ⟨skipped.imp_left silent.mp, frames.trans (if_pos skipped)⟩
  · exact .inr ⟨fun either => skipped (either.imp_left silent.mpr), targets, listed,
      frames.trans (if_neg skipped)⟩

end LoopFrame

section LoopSafety

variable [Printer] (program : Program) (execution : Execution) (fundec : CheckedFundec)

theorem ppLval_modifiedLval (lv : Lval) : Printer.ppLval (modifiedLval lv) = modifiedLvalName lv := by
  unfold modifiedLval modifiedLvalName
  split_ifs with unnamed
  · rfl
  · cases host : lv.host with
    | var vi =>
        rw [lvalBase, host] at unnamed ⊢
        exact Printer.ppLval_ofVar vi unnamed
    | _ =>
        rw [lvalBase, host] at unnamed
        exact absurd rfl unnamed

/-- The frame shows each lvalue through which the loop writes a place that outlives it. -/
theorem loopText_of_visible {loop : Cil.Loop} {instr : Instr} (member : instr ∈ loop.body.instrs)
    {lv : Lval} (stored : lv ∈ writtenLvals instr) {machine : Machine} {memory : Memory}
    {place : Place} (within : place ∈ lv.region machine memory) (seen : OutlivesLoop loop place) :
    LoopText loop.body.instrs (Printer.ppLval (modifiedLval lv)) := by
  rw [ppLval_modifiedLval]
  rcases List.mem_append.mp stored with store | initial
  · obtain ⟨before, after, split⟩ := List.append_of_mem member
    refine ⟨before, instr, after, split, lv, store, ?_, rfl⟩
    intro vi host early
    refine (seen vi (Lval.base_of_mem_region host within)).2 ?_
    rw [split, initializedVids_append]
    exact List.mem_append_left _ early
  · obtain ⟨vi, initialized, rfl⟩ := List.mem_map.mp initial
    refine absurd ?_ (seen vi ((Lval.mem_region_ofVar vi place).mp within)).2
    exact List.mem_map.mpr ⟨vi, List.mem_filterMap.mpr ⟨instr, member,
      Option.mem_toList.mp initialized⟩, rfl⟩

/-- A proposed frame belongs to the loop that it names. -/
theorem frame_of_loop {loop : Cil.Loop} (known : loop ∈ fundec.loops) (annotations : Json)
    (frame : LoopFrame) :
    (frame ∈ (loopFrames (getLoopEffects program fundec.toFundec) annotations {}).frames ∧
      frame.stmtId = loop.sid) ↔
    frame ∈ (loopFrame annotations {} (loopEffectToJson program loop)).frames := by
  have named : ∀ other ∈ fundec.loops,
      frame ∈ (loopFrame annotations {} (loopEffectToJson program other)).frames →
        frame.stmtId = other.sid := by
    intro other present proposed
    have small := fundec.smallLoops other present
    by_cases refused : HasRefusedCallee program other.body.instrs
    · rw [frames_refused program annotations other small refused] at proposed
      cases proposed
    · rcases frames_accepted program annotations other small refused with
        ⟨-, frames⟩ | ⟨-, targets, -, frames⟩
      · rw [frames] at proposed
        cases proposed
      · rw [frames] at proposed
        rw [List.mem_singleton.mp proposed]
  rw [mem_frames_loopFrames]
  constructor
  · rintro ⟨⟨other, present, proposed⟩, same⟩
    have ids : other.sid = loop.sid := by
      exact_mod_cast (named other present proposed).symm.trans same
    rwa [← List.inj_on_of_nodup_map fundec.distinctLoops present known ids]
  · exact fun proposed => ⟨⟨loop, known, proposed⟩, named loop known proposed⟩

/-- The frame of one loop is safe exactly under the condition for loops. -/
theorem loopFrameSafe_iff (annotations : Json) {loop : Cil.Loop} (known : loop ∈ fundec.loops) :
    LoopFrameSafe program execution fundec.toFundec annotations loop ↔
      LoopCondition program execution fundec.toFundec annotations loop := by
  have small := fundec.smallLoops loop known
  have exactly := frame_of_loop program fundec known annotations
  have unproposed : (loopFrame annotations {} (loopEffectToJson program loop)).frames = [] →
      LoopFrameSafe program execution fundec.toFundec annotations loop := by
    intro quiet
    have absent : ∀ frame ∈ (loopFrames (getLoopEffects program fundec.toFundec) annotations
        {}).frames, frame.stmtId ≠ loop.sid := by
      intro frame proposed same
      have here := (exactly frame).mp ⟨proposed, same⟩
      rw [quiet] at here
      cases here
    exact ⟨fun frame proposed same => absurd same (absent frame proposed), fun _ => absent⟩
  by_cases accepted : HasRefusedCallee program loop.body.instrs
  · exact iff_of_true (unproposed (frames_refused program annotations loop small accepted))
      (.inl accepted)
  rcases frames_accepted program annotations loop small accepted with
    ⟨skipped, frames⟩ | ⟨skipped, targets, listed, frames⟩
  · exact iff_of_true (unproposed frames)
      (.inr (skipped.elim (fun silent => .inr (.inl silent)) .inl))
  have proposed := (exactly ⟨loop.sid, targets⟩).mpr (by rw [frames]; exact List.mem_singleton_self _)
  constructor
  · intro safe
    have bounded : ¬IsUnbounded program loop.body.instrs := fun unbounded =>
      safe.refused unbounded _ proposed.1 proposed.2
    refine .inr (.inr (.inr ⟨fun instr member => ?_, ?_⟩))
    · by_contra opens
      exact bounded ⟨instr, member, .inl (Bool.not_eq_false _ ▸ opens)⟩
    · exact writesNamed_of_namesWrites (finiteTargets_ne_none bounded)
        (safe.listed _ proposed.1 proposed.2) fun text member => (listed text).mp member
  · intro condition
    obtain ⟨closed, named⟩ := ((condition.resolve_left accepted).resolve_left
      fun annotated => skipped (.inr annotated)).resolve_left fun silent => skipped (.inl silent)
    constructor
    · intro frame member same
      have here := (exactly frame).mp ⟨member, same⟩
      rw [frames] at here
      rw [List.mem_singleton.mp here]
      exact namesWrites_of_writesNamed closed named
        (fun instr member lv stored memory place within seen =>
          loopText_of_visible member stored within seen)
        fun text => (listed text).mpr
    · rintro ⟨instr, member, opens | ⟨site, called, missing⟩⟩
      · rw [closed instr member] at opens
        cases opens
      · exact absurd missing (named.finite instr member site called)

end LoopSafety

section Sample

/-- A variable prints as its name and a read pointer with a star. -/
def starText : Lhost → Offset → String
  | .var vi, .noOffset => if vi.vname = "" then "?" else vi.vname
  | .mem (.lval (.var vi) .noOffset), .noOffset => "*" ++ vi.vname
  | _, _ => "?"

def starTerm : Exp → String
  | .lval host offset => starText host offset
  | _ => "?"

theorem starText_ne_empty (host : Lhost) (offset : Offset) : starText host offset ≠ "" := by
  unfold starText
  split
  · split_ifs with unnamed
    · decide
    · exact unnamed
  · intro empty
    have length := congrArg String.length empty
    rw [String.length_append] at length
    simp at length
  · decide

@[reducible] def starPrinter : Printer where
  ppLval lv := starText lv.host lv.offset
  ppTerm := starTerm
  ppLval_ofVar _ named := if_neg named
  ppLval_ne_empty lv := starText_ne_empty lv.host lv.offset

def sampleGlobal : Varinfo := { vid := 1, vname := "g", vglob := true }

def sampleFormal : Varinfo := { vid := 2, vname := "p", vtype := "int *" }

def sampleCallee : Varinfo := { vid := 3, vname := "set", vtype := "void (int *p)", vglob := true }

/-- The callee states that it assigns what its formal points to. -/
def sampleProgram : Program where
  get vi := if vi.vid = 3 then some 3 else none
  findByName _ := none
  name _ := "set"
  formals _ := [sampleFormal]
  assigns _ := .writes [.lval (.mem (.evar sampleFormal)) .noOffset]

def sampleCall : Instr :=
  .call none (.var sampleCallee) [.addrOf (.var sampleGlobal) .noOffset] 1

/-- The caller passes the address of a global. -/
def sampleCaller : CheckedFundec where
  svar := { vid := 4, vname := "caller", vtype := "void (void)", vglob := true }
  sformals := []
  slocals := []
  sbody := .mk [] [.instr { sid := 1 } sampleCall]
  distinctLoops := List.nodup_nil
  smallLoops _ known := absurd known List.not_mem_nil

/-- The call is the first statement, so neither the way of control nor what instructions do matters. -/
def sampleExecution : Execution where
  machine := ⟨fun _ => ∅, fun _ _ => ∅, fun _ _ _ => ∅⟩
  reading := ⟨fun text => if text = "break" then .brk else .ret, fun _ => false, fun _ => false, rfl⟩
  effect _ before after := after = before
  takes _ _ := True

/-- The text of the formal does not name the global. -/
theorem not_starText_names (machine : Machine) {host : Lhost} {offset : Offset}
    (same : starText host offset = "*p") :
    (⟨.var sampleGlobal, []⟩ : Place) ∉ Lval.region machine (fun _ => none) ⟨host, offset⟩ := by
  intro within
  unfold starText at same
  split at same
  · split_ifs at same with unnamed
    · exact absurd same (by decide)
    · have base := Lval.base_of_mem_region rfl within
      cases base
      exact absurd same (by decide)
  · obtain ⟨root, ⟨_, _, _, _, read⟩, -⟩ := within
    cases read
  · exact absurd same (by decide)

/-- No reading of the listed text reaches the global. -/
theorem not_denotes_global :
    ¬@Denotes sampleExecution starPrinter (functionSubject sampleCaller.toFundec) (fun _ => none) "*p"
      ⟨.var sampleGlobal, []⟩ := by
  rintro (⟨lv, same, -, within⟩ | ⟨term, same, -, within⟩)
  · exact not_starText_names _ same within
  · cases term with
    | lval host offset => exact not_starText_names _ same within
    | _ => exact absurd same (show "?" ≠ "*p" by decide)

end Sample

end FramaCMcp.Frames
