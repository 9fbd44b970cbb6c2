/-
This file says when a list of texts names every place that a body can write, and shows for which
functions the proposed frame does so.
-/

import FramaCMcp.Construction.WriteEffects
import FramaCMcp.Foundation.Accumulation
import FramaCMcp.Proof.CoverageFixpoint

namespace FramaCMcp.Frames

open Accumulation Cil Annotations Coverage CoverageFixpoint

/-- An indirect call and inline assembly write places that no clause lists. -/
def isOpaque : Instr → Bool
  | .call _ (.var _) _ _ => false
  | .call _ _ _ _ => true
  | .asm _ => true
  | _ => false

def storedLvals : Instr → List Lval
  | .set lv _ _ => [lv]
  | .call result _ _ _ => result.toList
  | _ => []

def writtenLvals (instr : Instr) : List Lval :=
  storedLvals instr ++ (instr.initializedVar).toList.map Lval.ofVar

def initializedVids (instrs : List Instr) : List Nat :=
  (instrs.filterMap Instr.initializedVar).map Varinfo.vid

/-- The kernel numbers the statements of a body. -/
structure CheckedFundec extends Fundec where
  distinctLoops : (toFundec.loops.map Cil.Loop.sid).Nodup
  smallLoops : ∀ loop ∈ toFundec.loops, loop.sid < 2 ^ 62

def finiteTargets (program : Program) (site : CallSite) : Option (List Exp) :=
  (kernelFunctionOfVarinfo program site.callee).bind fun kf =>
    match program.assigns kf with
    | .writesAny => none
    | .writes targets => some targets

def bindings (program : Program) (site : CallSite) : List (Varinfo × Exp) :=
  match kernelFunctionOfVarinfo program site.callee with
  | some kf => (program.formals kf).zip site.actuals
  | none => []

section Meaning

variable (program : Program) (machine : Machine) (memory : Memory)

/-- A call writes what the clause of the callee names once its formals are replaced by the
arguments. Without a finite clause it may write anything. -/
def SiteWrites (site : CallSite) (place : Place) : Prop :=
  ∀ targets, finiteTargets program site = some targets → ∃ target ∈ targets,
    place ∈ (target.replaceTarget (bindings program site)).region machine memory

/-- An instruction can write this place. -/
def Writes (instr : Instr) (place : Place) : Prop :=
  isOpaque instr = true ∨ (∃ lv ∈ writtenLvals instr, place ∈ lv.region machine memory) ∨
    ∃ site, instr.callSite = some site ∧ SiteWrites program machine memory site place

end Meaning

section Runs

/-- This is what the operations compute, what an instruction does to a memory, and which way control
takes in it. -/
structure Execution where
  machine : Machine
  reading : Reading
  effect : Instr → Memory → Memory → Prop
  takes : Nat × Nat → Memory → Prop

variable (execution : Execution)

def Execution.Runs (node : Node) (before after : Memory) : Prop :=
  match node.instr with
  | some instr => execution.effect instr before after
  | none => after = before

/-- Control enters a body in the first memory and comes to a statement in some memory. -/
inductive Reaches (body : Block) (first : Memory) : Node → Memory → Prop where
  | enters {node : Node} (known : node ∈ body.nodes)
      (entry : body.entry none = some node.info.sid) : Reaches body first node first
  | goes {node later : Node} {before after : Memory} (reached : Reaches body first node before)
      (known : later ∈ body.nodes)
      (follows : Follows execution.reading body node.info.sid later.info.sid)
      (runs : execution.Runs node before after)
      (taken : execution.takes (node.info.sid, later.info.sid) after) :
      Reaches body first later after

/-- A frame is about the writes of a body. It is read in the memory in which control enters the
body, with the variables of its own scope. -/
structure Subject where
  body : Block
  entered : Memory → Prop
  sees : Varinfo → Prop
  visible : Place → Prop

/-- A local variable of the running function is gone when it returns. -/
def CallerVisible (place : Place) : Prop := ∀ vi, place.base = .var vi → vi.vglob = true

/-- A variable that the loop declares or initializes is gone when the loop ends. -/
def OutlivesLoop (loop : Cil.Loop) (place : Place) : Prop :=
  ∀ vi, place.base = .var vi → vi ∉ loop.body.scopes ∧ vi.vid ∉ initializedVids loop.body.instrs

/-- The contract of a function names globals and formals, as they are before its body runs. -/
def functionSubject (fundec : Fundec) : Subject where
  body := fundec.sbody
  entered _ := True
  sees vi := vi.vglob = true ∨ vi ∈ fundec.sformals
  visible := CallerVisible

/-- The clause of a loop may also name the locals around the loop. Each pass of the loop reads it
when it starts. -/
def loopSubject (fundec : Fundec) (loop : Cil.Loop) : Subject where
  body := loop.body
  entered first := ∃ initial node, Reaches execution fundec.sbody initial node first ∧
    loop.body.entry none = some node.info.sid
  sees vi := vi.vglob = true ∨ vi ∈ fundec.sformals ∨ vi ∈ loop.scope
  visible := OutlivesLoop loop

/-- Control comes to this instruction of the body. -/
def Visits (subject : Subject) (first : Memory) (instr : Instr) (memory : Memory) : Prop :=
  subject.entered first ∧
    ∃ node, Reaches execution subject.body first node memory ∧ node.instr = some instr

/-- A text names this place where control enters the body. -/
def Denotes [Printer] (subject : Subject) (first : Memory) (text : String) (place : Place) : Prop :=
  (∃ lv : Lval, Printer.ppLval lv = text ∧ (∀ vi ∈ lv.varinfos, subject.sees vi) ∧
    place ∈ lv.region execution.machine first) ∨
  ∃ term : Exp, Printer.ppTerm term = text ∧ (∀ vi ∈ term.varinfos, subject.sees vi) ∧
    place ∈ term.region execution.machine first

end Runs

/-- Nothing finite is known about what this body writes. -/
def IsUnbounded (program : Program) (instrs : List Instr) : Prop :=
  ∃ instr ∈ instrs, isOpaque instr = true ∨
    ∃ site, instr.callSite = some site ∧ finiteTargets program site = none

/-- Each place that the body can write and that is visible afterwards is named by a listed text. -/
def NamesWrites [Printer] (program : Program) (execution : Execution) (subject : Subject)
    (texts : List String) : Prop :=
  ∀ first instr memory, Visits execution subject first instr memory →
    ∀ place, Writes program execution.machine memory instr place → subject.visible place →
      ∃ text ∈ texts, Denotes execution subject first text place

section Safety

variable [Printer] (program : Program) (execution : Execution) (fundec : Fundec)

structure FunctionFrameSafe : Prop where
  listed : ∀ targets, functionFrame (getWriteEffects program fundec) = .writes targets →
    NamesWrites program execution (functionSubject fundec) targets
  refused : IsUnbounded program fundec.sbody.instrs →
    ∃ reason, functionFrame (getWriteEffects program fundec) = .unknown reason

structure LoopFrameSafe (annotations : Json) (loop : Cil.Loop) : Prop where
  listed : ∀ frame ∈ (loopFrames (getLoopEffects program fundec) annotations {}).frames,
    frame.stmtId = loop.sid →
      NamesWrites program execution (loopSubject execution fundec loop) frame.targets
  refused : IsUnbounded program loop.body.instrs →
    ∀ frame ∈ (loopFrames (getLoopEffects program fundec) annotations {}).frames,
      frame.stmtId ≠ loop.sid

end Safety

section Condition

variable [Printer] (program : Program) (execution : Execution) (fundec : Fundec)

/-- These are the clauses of the callees as their own functions read them. -/
def CalleeText (instrs : List Instr) (text : String) : Prop :=
  ∃ instr ∈ instrs, ∃ site, instr.callSite = some site ∧
    ∃ targets, finiteTargets program site = some targets ∧
      ∃ target ∈ targets, Printer.ppTerm target = text

def FunctionText (instrs : List Instr) (text : String) : Prop :=
  ∃ instr ∈ instrs, ∃ lv ∈ writtenLvals instr,
    (lvalTouchesGlobal lv = true ∨ lvalBase lv = "") ∧ Printer.ppLval lv = text

/-- The visitor of a loop knows the variables that were initialized before it came here. -/
def LoopText (instrs : List Instr) (text : String) : Prop :=
  ∃ before instr after, instrs = before ++ instr :: after ∧ ∃ lv ∈ storedLvals instr,
    (∀ vi, lv.host = .var vi → vi.vid ∉ initializedVids before) ∧ modifiedLvalName lv = text

/-- The frame of a loop shows a named variable as a whole. -/
def modifiedLval (lv : Lval) : Lval := if lvalBase lv = "" then lv else ⟨lv.host, .noOffset⟩

/-- The lvalue can be read where control enters the body, and names the same place there. -/
def NamedAtEntry (subject : Subject) (first : Memory) (lv : Lval) (place : Place) : Prop :=
  (∀ vi ∈ lv.varinfos, subject.sees vi) ∧ place ∈ lv.region execution.machine first

/-- A visible place that a call writes, or a store whose lvalue names another place at the entry,
is also named there by a text of the body or by a clause of a callee that is read as it stands. -/
structure WritesNamed (subject : Subject) (own : String → Prop) (shown : Lval → Lval) : Prop where
  finite : ∀ instr ∈ subject.body.instrs, ∀ site, instr.callSite = some site →
    finiteTargets program site ≠ none
  moved : ∀ first instr memory, Visits execution subject first instr memory →
    ∀ lv ∈ writtenLvals instr, ∀ place ∈ lv.region execution.machine memory,
      subject.visible place → ¬NamedAtEntry execution subject first (shown lv) place →
        ∃ text, (own text ∨ CalleeText program subject.body.instrs text) ∧
          Denotes execution subject first text place
  called : ∀ first instr memory, Visits execution subject first instr memory →
    ∀ site, instr.callSite = some site → ∀ targets, finiteTargets program site = some targets →
      ∀ target ∈ targets, ∀ place ∈
        (target.replaceTarget (bindings program site)).region execution.machine memory,
      subject.visible place → ∃ text, (own text ∨ CalleeText program subject.body.instrs text) ∧
        Denotes execution subject first text place

/-- A callee that the table holds has no clause or a clause without targets. -/
def HasRefusedCallee (instrs : List Instr) : Prop :=
  ∃ instr ∈ instrs, ∃ site, instr.callSite = some site ∧
    ∃ kf, kernelFunctionOfVarinfo program site.callee = some kf ∧
      ∀ targets, program.assigns kf = .writes targets → targets = []

def FunctionCondition : Prop :=
  (∃ instr ∈ fundec.sbody.instrs, isOpaque instr = true) ∨
    HasRefusedCallee program fundec.sbody.instrs ∨
    WritesNamed program execution (functionSubject fundec) (FunctionText fundec.sbody.instrs) id

/-- The body of the loop stores to nothing and calls nothing that is known. -/
def ListsNothing (instrs : List Instr) : Prop :=
  (∀ text, ¬LoopText instrs text) ∧ ∀ instr ∈ instrs, ∀ site, instr.callSite = some site →
    kernelFunctionOfVarinfo program site.callee = none

def HasOwnFrame (annotations : Json) (loop : Cil.Loop) : Prop :=
  alreadyAnnotated annotations "assigns" (some ("#k" ++ toString (loop.sid : Int))) = true

def LoopCondition (annotations : Json) (loop : Cil.Loop) : Prop :=
  HasRefusedCallee program loop.body.instrs ∨ HasOwnFrame annotations loop ∨
    ListsNothing program loop.body.instrs ∨
    (∀ instr ∈ loop.body.instrs, isOpaque instr = false) ∧
      WritesNamed program execution (loopSubject execution fundec loop)
        (LoopText loop.body.instrs) modifiedLval

end Condition

@[simp] theorem asArray_arr (list : List Json) : (Json.arr list).asArray = some list := rfl

section Extension

/-- The frame is given up exactly where some callee has no finite list. -/
theorem extendWithCalleeAssigns_ok (targets : List String) (effects : Json)
    (lists : ∀ callee ∈ items effects "callee_assigns", assignsKind callee = "list") :
    extendWithCalleeAssigns targets effects =
      .ok (targets ++ (items effects "callee_assigns").flatMap assignsTexts) := by
  unfold extendWithCalleeAssigns
  generalize items effects "callee_assigns" = callees at lists
  induction callees generalizing targets with
  | nil => simp [pure, Except.pure]
  | cons callee rest ih =>
      obtain ⟨first, others⟩ := List.forall_mem_cons.mp lists
      rw [List.foldlM_cons, if_pos first]
      exact (ih _ others).trans (by rw [List.flatMap_cons, List.append_assoc])

theorem extendWithCalleeAssigns_error (targets : List String) (effects : Json)
    (refused : ∃ callee ∈ items effects "callee_assigns", assignsKind callee ≠ "list") :
    ∃ reason, extendWithCalleeAssigns targets effects = .error reason := by
  unfold extendWithCalleeAssigns
  generalize items effects "callee_assigns" = callees at refused
  induction callees generalizing targets with
  | nil => simp at refused
  | cons callee rest ih =>
      rw [List.foldlM_cons]
      by_cases first : assignsKind callee = "list"
      · rw [if_pos first]
        obtain ⟨other, member, different⟩ := refused
        rcases List.mem_cons.mp member with rfl | member
        · exact absurd first different
        · exact ih _ ⟨other, member, different⟩
      · rw [if_neg first]
        exact ⟨_, rfl⟩

end Extension

section Reading

variable [Printer] (program : Program)

theorem visibleTarget_directWrite (line : Nat) (lv : Lval) (text : String) :
    visibleTarget (directWriteToJson line lv) = some text ↔
      (lvalTouchesGlobal lv = true ∨ lvalBase lv = "") ∧ Printer.ppLval lv = text := by
  simp [visibleTarget, directWriteToJson, Annotations.text, List.lookup_cons, Json.asBool]

theorem assignsKind_calleeAssigns (kf : KernelFunction) :
    assignsKind (calleeAssignsToJson program kf) = "list" ↔
      ∃ targets, program.assigns kf = .writes targets ∧ targets ≠ [] := by
  cases clause : program.assigns kf with
  | writesAny =>
      simp [assignsKind, calleeAssignsToJson, assignsToJson, clause, Annotations.text,
        List.lookup_cons]
  | writes targets =>
      cases targets with
      | nil =>
          simp [assignsKind, calleeAssignsToJson, assignsToJson, clause, Annotations.text,
            List.lookup_cons]
      | cons target rest =>
          simp [assignsKind, calleeAssignsToJson, assignsToJson, clause, Annotations.text,
            List.lookup_cons]

theorem assignsTexts_calleeAssigns (kf : KernelFunction) (targets : List Exp)
    (clause : program.assigns kf = .writes targets) :
    assignsTexts (calleeAssignsToJson program kf) = targets.map Printer.ppTerm := by
  simp [assignsTexts, calleeAssignsToJson, assignsToJson, clause, items, Annotations.text,
    List.lookup_cons, List.filterMap_map, Function.comp_def, List.filterMap_eq_map']

end Reading

theorem mem_addCallee (program : Program) (callees : List KernelFunction) (vi : Varinfo) (kf : KernelFunction) :
    kf ∈ addCallee program callees vi ↔
      kf ∈ callees ∨ kernelFunctionOfVarinfo program vi = some kf := by
  unfold addCallee
  cases kernelFunctionOfVarinfo program vi with
  | none => simp
  | some found =>
      by_cases known : found ∈ callees
      · simp only [if_pos known, Option.some.injEq]
        exact ⟨.inl, fun either => either.elim id fun same => same ▸ known⟩
      · simp [if_neg known, or_comm, eq_comm]

def Calls (program : Program) (instr : Instr) (kf : KernelFunction) : Prop :=
  ∃ site, instr.callSite = some site ∧ kernelFunctionOfVarinfo program site.callee = some kf

/-- A clause of a callee is finite exactly where the kernel knows the callee and its clause. -/
theorem finiteTargets_eq_some {program : Program} {site : CallSite} {targets : List Exp} :
    finiteTargets program site = some targets ↔
      ∃ kf, kernelFunctionOfVarinfo program site.callee = some kf ∧
        program.assigns kf = .writes targets := by
  unfold finiteTargets
  cases kernelFunctionOfVarinfo program site.callee with
  | none => simp
  | some kf => cases clause : program.assigns kf <;> simp [clause]

section Visitors

variable [Printer] {program : Program}

namespace WriteEffects

theorem mem_callees_vinst (effects : WriteEffects) (instr : Instr) (kf : KernelFunction) :
    kf ∈ (effects.vinst program instr).callees ↔ kf ∈ effects.callees ∨ Calls program instr kf := by
  cases instr with
  | call result callee args line =>
      cases callee <;> cases result <;>
        simp [vinst, addResult, addWrite, addCallee, addUnresolved, mem_addCallee, Calls, Instr.callSite]
  | localInit vi init line =>
      rcases init with values | ⟨callee, args, kind⟩
      · simp [vinst, addWrite, Calls, Instr.callSite]
      · cases kind <;> simp [vinst, addWrite, addCallee, mem_addCallee, Calls, Instr.callSite]
  | _ => simp [vinst, addWrite, addUnresolved, Calls, Instr.callSite]

def line : Instr → Nat
  | .set _ _ line => line
  | .call _ _ _ line => line
  | .localInit _ _ line => line
  | .asm line => line
  | .skip line => line
  | .codeAnnot line => line

theorem mem_writes_vinst (effects : WriteEffects) (instr : Instr) (write : Json) :
    write ∈ (effects.vinst program instr).writes ↔ write ∈ effects.writes ∨
      ∃ lv ∈ writtenLvals instr, directWriteToJson (line instr) lv = write := by
  cases instr with
  | call result callee args line =>
      cases callee <;> cases result <;>
        simp [vinst, addResult, addWrite, addCallee, addUnresolved, writtenLvals, storedLvals,
          Instr.initializedVar, WriteEffects.line, or_comm, eq_comm]
  | localInit vi init line =>
      rcases init with values | ⟨callee, args, kind⟩ <;>
        simp [vinst, addWrite, addCallee, writtenLvals, storedLvals, Instr.initializedVar,
          WriteEffects.line, or_comm, eq_comm]
  | _ =>
      simp [vinst, addWrite, addUnresolved, writtenLvals, storedLvals, Instr.initializedVar,
        WriteEffects.line, or_comm, eq_comm]

theorem unresolved_vinst (effects : WriteEffects) (instr : Instr) :
    (effects.vinst program instr).unresolved ≠ [] ↔
      effects.unresolved ≠ [] ∨ isOpaque instr = true := by
  cases instr with
  | call result callee args line =>
      cases callee <;> cases result <;>
        simp [vinst, addResult, addWrite, addCallee, addUnresolved, isOpaque]
  | localInit vi init line =>
      rcases init with values | ⟨callee, args, kind⟩ <;>
        simp [vinst, addWrite, addCallee, isOpaque]
  | _ => simp [vinst, addWrite, addUnresolved, isOpaque]

variable (program)

theorem mem_callees (instrs : List Instr) (kf : KernelFunction) :
    kf ∈ (instrs.foldl (vinst program) {}).callees ↔ ∃ instr ∈ instrs, Calls program instr kf := by
  have gathered := holds_foldl (fun effects => kf ∈ effects.callees) (vinst program) _
    (fun effects instr => mem_callees_vinst effects instr kf) instrs {}
  simpa using gathered

theorem mem_writes (instrs : List Instr) (write : Json) :
    write ∈ (instrs.foldl (vinst program) {}).writes ↔
      ∃ instr ∈ instrs, ∃ lv ∈ writtenLvals instr, directWriteToJson (line instr) lv = write := by
  have gathered := holds_foldl (fun effects => write ∈ effects.writes) (vinst program) _
    (fun effects instr => mem_writes_vinst effects instr write) instrs {}
  simpa using gathered

theorem unresolved_ne_nil (instrs : List Instr) :
    (instrs.foldl (vinst program) {}).unresolved ≠ [] ↔ ∃ instr ∈ instrs, isOpaque instr = true := by
  have gathered := holds_foldl (fun effects => effects.unresolved ≠ []) (vinst program) _
    unresolved_vinst instrs {}
  simpa using gathered

end WriteEffects

/-- A frame is refused for its callees exactly where one of them has no list. -/
theorem exists_kind_ne_list {instrs : List Instr} {callees : List KernelFunction}
    (known : ∀ kf, kf ∈ callees ↔ ∃ instr ∈ instrs, Calls program instr kf) :
    (∃ callee ∈ callees.reverse.map (calleeAssignsToJson program), assignsKind callee ≠ "list") ↔
      HasRefusedCallee program instrs := by
  simp only [List.mem_map, List.mem_reverse, known, exists_exists_and_eq_and, ne_eq,
    assignsKind_calleeAssigns]
  constructor
  · rintro ⟨kf, ⟨instr, member, site, called, found⟩, refused⟩
    refine ⟨instr, member, site, called, kf, found, fun targets clause => ?_⟩
    by_contra nonempty
    exact refused ⟨targets, clause, nonempty⟩
  · rintro ⟨instr, member, site, called, kf, found, refused⟩
    exact ⟨kf, ⟨instr, member, site, called, found⟩, fun ⟨targets, clause, nonempty⟩ =>
      nonempty (refused targets clause)⟩

/-- The texts of the callees are the clauses as their own functions read them. -/
theorem mem_calleeTexts {instrs : List Instr} {callees : List KernelFunction}
    (known : ∀ kf, kf ∈ callees ↔ ∃ instr ∈ instrs, Calls program instr kf)
    (accepted : ¬HasRefusedCallee program instrs) (text : String) :
    text ∈ (callees.reverse.map (calleeAssignsToJson program)).flatMap assignsTexts ↔
      CalleeText program instrs text := by
  simp only [List.mem_flatMap, List.mem_map, List.mem_reverse, known, exists_exists_and_eq_and]
  constructor
  · rintro ⟨kf, ⟨instr, member, site, called, found⟩, listed⟩
    cases clause : program.assigns kf with
    | writesAny =>
        refine absurd ⟨instr, member, site, called, kf, found, fun targets finite => ?_⟩ accepted
        rw [clause] at finite
        cases finite
    | writes targets =>
        rw [assignsTexts_calleeAssigns program kf targets clause] at listed
        exact ⟨instr, member, site, called, targets, finiteTargets_eq_some.mpr ⟨kf, found, clause⟩,
          List.mem_map.mp listed⟩
  · rintro ⟨instr, member, site, called, targets, finite, listed⟩
    obtain ⟨kf, found, clause⟩ := finiteTargets_eq_some.mp finite
    refine ⟨kf, ⟨instr, member, site, called, found⟩, ?_⟩
    rw [assignsTexts_calleeAssigns program kf targets clause]
    exact List.mem_map.mpr listed

end Visitors

section FunctionFrame

variable [Printer] (program : Program) (fundec : Fundec)

theorem items_writes (effects : WriteEffects) :
    items (effects.result program) "writes" = effects.writes.reverse := by
  simp [items, WriteEffects.result]

theorem items_calleeAssigns (effects : WriteEffects) :
    items (effects.result program) "callee_assigns" =
      effects.callees.reverse.map (calleeAssignsToJson program) := by
  simp [items, WriteEffects.result, List.lookup_cons]

theorem items_unresolved (effects : WriteEffects) :
    items (effects.result program) "unresolved" = effects.unresolved.reverse := by
  simp [items, WriteEffects.result, List.lookup_cons]

theorem mem_visibleTargets (instrs : List Instr) (text : String) :
    text ∈ (instrs.foldl (WriteEffects.vinst program) {}).writes.reverse.filterMap visibleTarget ↔
      FunctionText instrs text := by
  simp only [List.mem_filterMap, List.mem_reverse, WriteEffects.mem_writes]
  constructor
  · rintro ⟨_, ⟨instr, member, lv, written, rfl⟩, shown⟩
    exact ⟨instr, member, lv, written, (visibleTarget_directWrite _ lv text).mp shown⟩
  · rintro ⟨instr, member, lv, written, shown⟩
    exact ⟨_, ⟨instr, member, lv, written, rfl⟩, (visibleTarget_directWrite _ lv text).mpr shown⟩

theorem functionFrame_refused
    (given : (∃ instr ∈ fundec.sbody.instrs, isOpaque instr = true) ∨
      HasRefusedCallee program fundec.sbody.instrs) :
    ∃ reason, functionFrame (getWriteEffects program fundec) = .unknown reason := by
  unfold functionFrame getWriteEffects
  rw [items_writes, items_unresolved]
  by_cases refused : HasRefusedCallee program fundec.sbody.instrs
  · obtain ⟨reason, failed⟩ := extendWithCalleeAssigns_error
      (((fundec.sbody.instrs.foldl (WriteEffects.vinst program) {}).writes.reverse).filterMap
        visibleTarget)
      ((fundec.sbody.instrs.foldl (WriteEffects.vinst program) {}).result program)
      (by
        rw [items_calleeAssigns]
        exact (exists_kind_ne_list (WriteEffects.mem_callees program _)).mpr refused)
    rw [failed]
    exact ⟨reason, rfl⟩
  · have found := (WriteEffects.unresolved_ne_nil program _).mpr (given.resolve_right refused)
    cases extendWithCalleeAssigns _ _ with
    | error reason => exact ⟨reason, rfl⟩
    | ok targets => exact ⟨_, if_neg (by simpa using found)⟩

theorem functionFrame_listed
    (closed : ¬∃ instr ∈ fundec.sbody.instrs, isOpaque instr = true)
    (accepted : ¬HasRefusedCallee program fundec.sbody.instrs) :
    ∃ targets, functionFrame (getWriteEffects program fundec) = .writes targets ∧
      ∀ text, text ∈ targets ↔ FunctionText fundec.sbody.instrs text ∨
        CalleeText program fundec.sbody.instrs text := by
  have known := WriteEffects.mem_callees program fundec.sbody.instrs
  have none := (WriteEffects.unresolved_ne_nil program fundec.sbody.instrs).not.mpr closed
  unfold functionFrame getWriteEffects
  rw [items_writes, items_unresolved, extendWithCalleeAssigns_ok _ _ (by
    rw [items_calleeAssigns]
    have all := (exists_kind_ne_list known).not.mpr accepted
    push Not at all
    exact all)]
  refine ⟨_, if_pos (by simpa using none), fun text => ?_⟩
  rw [mem_sortDedup, List.mem_append, items_calleeAssigns, mem_visibleTargets,
    mem_calleeTexts known accepted]

end FunctionFrame

section Visits

mutual

theorem stmt_filterMap_instr (blocals : List Varinfo) (stmt : Stmt) :
    (stmt.nodes blocals).filterMap Node.instr = stmt.instrs := by
  cases stmt with
  | instr => rfl
  | jump => rfl
  | branch info guard thenBlock elseBlock =>
      simp [Stmt.nodes, Stmt.instrs, block_filterMap_instr]
  | switch info subject body => simp [Stmt.nodes, Stmt.instrs, block_filterMap_instr]
  | loop info body => simp [Stmt.nodes, Stmt.instrs, block_filterMap_instr]
  | block info body => simp [Stmt.nodes, Stmt.instrs, block_filterMap_instr]
  | unspecifiedSequence info stmts => simp [Stmt.nodes, Stmt.instrs, stmts_filterMap_instr]
  | tryStmt info body handlers =>
      simp [Stmt.nodes, Stmt.instrs, block_filterMap_instr, blocks_filterMap_instr]
termination_by structural stmt

theorem block_filterMap_instr (block : Block) :
    block.nodes.filterMap Node.instr = block.instrs := by
  rcases block with ⟨blocals, bstmts⟩
  exact stmts_filterMap_instr blocals bstmts
termination_by structural block

theorem stmts_filterMap_instr (blocals : List Varinfo) (stmts : List Stmt) :
    (stmtNodes blocals stmts).filterMap Node.instr = stmtInstrs stmts := by
  cases stmts with
  | nil => rfl
  | cons stmt rest =>
      rw [stmtNodes, stmtInstrs, List.filterMap_append, stmt_filterMap_instr,
        stmts_filterMap_instr]
termination_by structural stmts

theorem blocks_filterMap_instr (blocks : List Block) :
    (blockNodes blocks).filterMap Node.instr = blockInstrs blocks := by
  cases blocks with
  | nil => rfl
  | cons block rest =>
      rw [blockNodes, blockInstrs, List.filterMap_append, block_filterMap_instr,
        blocks_filterMap_instr]
termination_by structural blocks

end

variable {execution : Execution}

theorem Reaches.known {body : Block} {first memory : Memory} {node : Node}
    (reached : Reaches execution body first node memory) : node ∈ body.nodes := by
  cases reached with
  | enters known => exact known
  | goes _ known => exact known

/-- Control comes to instructions of the body only. -/
theorem Visits.mem {subject : Subject} {first memory : Memory} {instr : Instr}
    (visits : Visits execution subject first instr memory) : instr ∈ subject.body.instrs := by
  obtain ⟨-, node, reached, found⟩ := visits
  rw [← block_filterMap_instr]
  exact List.mem_filterMap.mpr ⟨node, reached.known, found⟩

end Visits

section Coverage

variable [Printer] {program : Program} {execution : Execution} {subject : Subject}
  {own : String → Prop} {shown : Lval → Lval} {texts : List String}

theorem namesWrites_of_writesNamed (closed : ∀ instr ∈ subject.body.instrs, isOpaque instr = false)
    (named : WritesNamed program execution subject own shown)
    (direct : ∀ instr ∈ subject.body.instrs, ∀ lv ∈ writtenLvals instr, ∀ memory,
      ∀ place ∈ lv.region execution.machine memory, subject.visible place →
        own (Printer.ppLval (shown lv)))
    (listed : ∀ text, own text ∨ CalleeText program subject.body.instrs text → text ∈ texts) :
    NamesWrites program execution subject texts := by
  intro first instr memory visits place written seen
  rcases written with opens | ⟨lv, stored, within⟩ | ⟨site, called, writes⟩
  · exact absurd opens (by simp [closed instr visits.mem])
  · by_cases stays : NamedAtEntry execution subject first (shown lv) place
    · have mine := direct instr visits.mem lv stored memory place within seen
      exact ⟨_, listed _ (.inl mine), .inl ⟨shown lv, rfl, stays⟩⟩
    · obtain ⟨text, known, denotes⟩ := named.moved first instr memory visits lv stored place within
        seen stays
      exact ⟨text, listed text known, denotes⟩
  · obtain ⟨targets, finite⟩ := Option.ne_none_iff_exists'.mp (named.finite instr visits.mem site called)
    obtain ⟨target, inClause, within⟩ := writes targets finite
    obtain ⟨text, known, denotes⟩ := named.called first instr memory visits site called targets finite
      target inClause place within seen
    exact ⟨text, listed text known, denotes⟩

theorem writesNamed_of_namesWrites
    (finite : ∀ instr ∈ subject.body.instrs, ∀ site, instr.callSite = some site →
      finiteTargets program site ≠ none)
    (names : NamesWrites program execution subject texts)
    (listed : ∀ text ∈ texts, own text ∨ CalleeText program subject.body.instrs text) :
    WritesNamed program execution subject own shown := by
  refine ⟨finite, ?_, ?_⟩
  · intro first instr memory visits lv stored place within seen _
    obtain ⟨text, inList, denotes⟩ := names first instr memory visits place
      (.inr (.inl ⟨lv, stored, within⟩)) seen
    exact ⟨text, listed text inList, denotes⟩
  · intro first instr memory visits site called targets clause target inClause place within seen
    have written : Writes program execution.machine memory instr place := by
      refine .inr (.inr ⟨site, called, fun other same => ⟨target, ?_, within⟩⟩)
      rw [← Option.some.inj (clause.symm.trans same)]
      exact inClause
    obtain ⟨text, inList, denotes⟩ := names first instr memory visits place written seen
    exact ⟨text, listed text inList, denotes⟩

end Coverage

/-- A body whose writes are bounded calls functions with finite clauses only. -/
theorem finiteTargets_ne_none {program : Program} {instrs : List Instr}
    (bounded : ¬IsUnbounded program instrs) (instr : Instr) (member : instr ∈ instrs)
    (site : CallSite) (called : instr.callSite = some site) : finiteTargets program site ≠ none :=
  fun missing => bounded ⟨instr, member, .inr ⟨site, called, missing⟩⟩

section FunctionSafety

variable [Printer] (program : Program) (execution : Execution) (fundec : Fundec)

/-- The frame shows each lvalue through which the function writes a visible place. -/
theorem functionText_of_visible {instr : Instr} (member : instr ∈ fundec.sbody.instrs) {lv : Lval}
    (stored : lv ∈ writtenLvals instr) {machine : Machine} {memory : Memory} {place : Place}
    (within : place ∈ lv.region machine memory) (seen : CallerVisible place) :
    FunctionText fundec.sbody.instrs (Printer.ppLval lv) := by
  refine ⟨instr, member, lv, stored, ?_, rfl⟩
  cases host : lv.host with
  | var vi =>
      refine .inl ?_
      rw [lvalTouchesGlobal, host]
      exact seen vi (Lval.base_of_mem_region host within)
  | _ => exact .inr (by rw [lvalBase, host])

theorem functionFrameSafe_iff :
    FunctionFrameSafe program execution fundec ↔ FunctionCondition program execution fundec := by
  by_cases given : (∃ instr ∈ fundec.sbody.instrs, isOpaque instr = true) ∨
      HasRefusedCallee program fundec.sbody.instrs
  · obtain ⟨reason, refused⟩ := functionFrame_refused program fundec given
    refine iff_of_true ⟨fun targets made => ?_, fun _ => ⟨reason, refused⟩⟩
      (given.imp_right .inl)
    rw [refused] at made
    cases made
  obtain ⟨noneOpaque, accepted⟩ := not_or.mp given
  obtain ⟨targets, made, listed⟩ := functionFrame_listed program fundec noneOpaque accepted
  have closed : ∀ instr ∈ fundec.sbody.instrs, isOpaque instr = false := by
    simpa using noneOpaque
  constructor
  · intro safe
    have bounded : ¬IsUnbounded program fundec.sbody.instrs := fun open_ => by
      obtain ⟨reason, refused⟩ := safe.refused open_
      rw [made] at refused
      cases refused
    exact .inr (.inr (writesNamed_of_namesWrites (finiteTargets_ne_none bounded)
      (safe.listed targets made) fun text member => (listed text).mp member))
  · intro condition
    have named := (condition.resolve_left noneOpaque).resolve_left accepted
    refine ⟨fun other same => ?_, ?_⟩
    · rw [← Frame.writes.inj (made.symm.trans same)]
      exact namesWrites_of_writesNamed closed named
        (fun instr member lv stored memory place within seen =>
          functionText_of_visible fundec member stored within seen)
        fun text => (listed text).mpr
    · rintro ⟨instr, member, opens | ⟨site, called, missing⟩⟩
      · exact absurd ⟨instr, member, opens⟩ noneOpaque
      · exact absurd missing (named.finite instr member site called)

end FunctionSafety

end FramaCMcp.Frames
