/-
This file gathers the writes and the callees of a function and of its loops and proposes their
frames.
-/

import FramaCMcp.Construction.Cil
import FramaCMcp.Construction.Clauses
import FramaCMcp.Construction.Coverage

namespace FramaCMcp.Frames

open Cil

/-- The kernel knows a function by the number of its variable. -/
abbrev KernelFunction := Nat

/-- These are the assigns of all behaviors of a contract together. -/
inductive Assigns where
  | writesAny
  | writes (targets : List Exp)

/-- The function table of the kernel is asked for a variable and then for its name. -/
structure Program where
  get : Varinfo → Option KernelFunction
  findByName : String → Option KernelFunction
  name : KernelFunction → String
  formals : KernelFunction → List Varinfo
  assigns : KernelFunction → Assigns

/-- The kernel prints a whole variable as its name. -/
class Printer where
  ppLval : Lval → String
  ppTerm : Exp → String
  ppLval_ofVar : ∀ vi, vi.vname ≠ "" → ppLval (.ofVar vi) = vi.vname
  ppLval_ne_empty : ∀ lv, ppLval lv ≠ ""

variable [Printer]

/-- A write through a pointer touches a global where any variable of it is one. -/
def lvalTouchesGlobal (lv : Lval) : Bool :=
  match lv.host with
  | .var vi => vi.vglob
  | _ => lv.varinfos.any Varinfo.vglob

def lvalBase (lv : Lval) : String :=
  match lv.host with
  | .var vi => vi.vname
  | _ => ""

def modifiedLvalName (lv : Lval) : String :=
  if lvalBase lv = "" then Printer.ppLval lv else lvalBase lv

def assignsToJson : Assigns → Json
  | .writesAny => .obj [("kind", .str "any"), ("assigns", .arr [])]
  | .writes entries => .obj [
      ("kind", .str (if entries.isEmpty then "nothing" else "list")),
      ("assigns", .arr (entries.map fun target =>
        .obj [("target", .str (Printer.ppTerm target))]))]

def calleeAssignsToJson (program : Program) (kf : KernelFunction) : Json :=
  .obj [("function", .str (program.name kf)), ("assigns", assignsToJson (program.assigns kf))]

def kernelFunctionOfVarinfo (program : Program) (vi : Varinfo) : Option KernelFunction :=
  (program.get vi).or (program.findByName vi.vname)

/-- A function that the table does not hold is passed over. -/
def addCallee (program : Program) (callees : List KernelFunction) (vi : Varinfo) :
    List KernelFunction :=
  match kernelFunctionOfVarinfo program vi with
  | some kf => if kf ∈ callees then callees else kf :: callees
  | none => callees

def directWriteToJson (line : Nat) (lv : Lval) : Json :=
  .obj [("line", .num line), ("target", .str (Printer.ppLval lv)), ("base", .str (lvalBase lv)),
    ("global", .bool (lvalTouchesGlobal lv))]

/-- The visitor of a function keeps the newest entry first. -/
structure WriteEffects where
  writes : List Json := []
  callees : List KernelFunction := []
  unresolved : List Json := []

namespace WriteEffects

def addWrite (effects : WriteEffects) (line : Nat) (lv : Lval) : WriteEffects :=
  { effects with writes := directWriteToJson line lv :: effects.writes }

def addCallee (effects : WriteEffects) (program : Program) (vi : Varinfo) : WriteEffects :=
  { effects with callees := Frames.addCallee program effects.callees vi }

def addUnresolved (effects : WriteEffects) (kind : String) (line : Nat) : WriteEffects :=
  { effects with
    unresolved := .obj [("kind", .str kind), ("line", .num line)] :: effects.unresolved }

def addResult (effects : WriteEffects) (line : Nat) : Option Lval → WriteEffects
  | some lv => effects.addWrite line lv
  | none => effects

def vinst (program : Program) (effects : WriteEffects) : Instr → WriteEffects
  | .set lv _ line => effects.addWrite line lv
  | .call result (.var vi) _ line => (effects.addResult line result).addCallee program vi
  | .call result _ _ line => (effects.addResult line result).addUnresolved "indirect_call" line
  | .asm line => effects.addUnresolved "inline_asm" line
  | .localInit vi (.consInit callee _ _) line =>
      (effects.addWrite line (.ofVar vi)).addCallee program callee
  | .localInit vi (.assignInit _) line => effects.addWrite line (.ofVar vi)
  | .skip _ => effects
  | .codeAnnot _ => effects

def result (program : Program) (effects : WriteEffects) : Json :=
  .obj [("writes", .arr effects.writes.reverse),
    ("callee_assigns", .arr (effects.callees.reverse.map (calleeAssignsToJson program))),
    ("unresolved", .arr effects.unresolved.reverse)]

end WriteEffects

def getWriteEffects (program : Program) (fundec : Fundec) : Json :=
  (fundec.sbody.instrs.foldl (WriteEffects.vinst program) {}).result program

def assignsTargets : Assigns → List String
  | .writesAny => ["\\everything"]
  | .writes entries => entries.map Printer.ppTerm

/-- The visitor of a loop names each changed variable once and leaves out the variables that the
loop has initialized. -/
structure LoopWrites where
  modifiedVars : List String := []
  loopLocalVids : List Nat := []
  callees : List KernelFunction := []

namespace LoopWrites

def addName (writes : LoopWrites) (name : String) : LoopWrites :=
  if name = "" ∨ name ∈ writes.modifiedVars then writes
  else { writes with modifiedVars := name :: writes.modifiedVars }

def isLoopLocal (writes : LoopWrites) (lv : Lval) : Bool :=
  match lv.host with
  | .var vi => vi.vid ∈ writes.loopLocalVids
  | _ => false

def addWrite (writes : LoopWrites) (lv : Lval) : LoopWrites :=
  if writes.isLoopLocal lv then writes else writes.addName (modifiedLvalName lv)

def addResult (writes : LoopWrites) : Option Lval → LoopWrites
  | some lv => writes.addWrite lv
  | none => writes

def addLoopLocal (writes : LoopWrites) (vi : Varinfo) : LoopWrites :=
  { writes with loopLocalVids := vi.vid :: writes.loopLocalVids }

def addCalleeAssigns (writes : LoopWrites) (program : Program) (vi : Varinfo) : LoopWrites :=
  let listed := { writes with callees := Frames.addCallee program writes.callees vi }
  match kernelFunctionOfVarinfo program vi with
  | some kf => (assignsTargets (program.assigns kf)).foldl addName listed
  | none => listed

def vinst (program : Program) (writes : LoopWrites) : Instr → LoopWrites
  | .set lv _ _ => writes.addWrite lv
  | .call result (.var vi) _ _ => (writes.addResult result).addCalleeAssigns program vi
  | .call result _ _ _ => writes.addResult result
  | .localInit vi (.consInit callee _ _) _ =>
      (writes.addLoopLocal vi).addCalleeAssigns program callee
  | .localInit vi (.assignInit _) _ => writes.addLoopLocal vi
  | .asm _ => writes
  | .skip _ => writes
  | .codeAnnot _ => writes

def result (program : Program) (sid : Nat) (writes : LoopWrites) : Json :=
  .obj [("stmt_id", .num sid),
    ("modified_vars", .arr (writes.modifiedVars.reverse.map .str)),
    ("callee_assigns", .arr (writes.callees.reverse.map (calleeAssignsToJson program)))]

end LoopWrites

def loopEffectToJson (program : Program) (loop : Loop) : Json :=
  (loop.body.instrs.foldl (LoopWrites.vinst program) {}).result program loop.sid

def getLoopEffects (program : Program) (fundec : Fundec) : Json :=
  .arr (fundec.loops.map (loopEffectToJson program))

end FramaCMcp.Frames

namespace FramaCMcp.Frames

open Annotations Coverage

inductive Frame where
  | writes (targets : List String)
  | unknown (reason : String)

def items (value : Json) (key : String) : List Json :=
  ((value.get key).bind Json.asArray).getD []

def noFiniteAssigns (name : String) : String :=
  name ++ " states no finite assigns, so what this writes through it is unknown." ++
    "                  Give " ++ name ++ " an assigns clause first, then ask again."

def assignsKind (callee : Json) : String :=
  (((callee.get "assigns").bind fun assigns => text assigns "kind")).getD "any"

def assignsTexts (callee : Json) : List String :=
  (((callee.get "assigns").map fun assigns => items assigns "assigns").getD []).filterMap
    fun write => text write "target"

/-- The first callee without a finite list stops the frame. -/
def extendWithCalleeAssigns (targets : List String) (effects : Json) :
    Except String (List String) :=
  (items effects "callee_assigns").foldlM (fun targets callee =>
    if assignsKind callee = "list" then .ok (targets ++ assignsTexts callee)
    else .error (noFiniteAssigns (textOr callee "function" "a callee"))) targets

/-- A write without a base goes through a pointer. -/
def visibleTarget (write : Json) : Option String := do
  let target ← text write "target"
  let base ← text write "base"
  if (write.get "global").bind Json.asBool = some true ∨ base = "" then some target else none

def notEnumerable (kinds : List String) : String :=
  "This function contains " ++ Text.join kinds " and " ++
    " that the effect analysis cannot enumerate, so what it " ++
    "writes is unknown. Name the frame by hand, or give the indirect target a contract " ++
    "the caller can see."

def functionFrame (writes : Json) : Frame :=
  match extendWithCalleeAssigns ((items writes "writes").filterMap visibleTarget) writes with
  | .error reason => .unknown reason
  | .ok targets =>
      let unresolved := items writes "unresolved"
      if unresolved.isEmpty then .writes (sortDedup targets)
      else .unknown (notEnumerable (unresolved.filterMap fun entry => text entry "kind"))

def alreadyAnnotated (annotations : Json) (kind : String) (kinstrMarker : Option String) : Bool :=
  (annotations.asArray.getD []).any fun annotation =>
    text annotation "kind" == some kind && text annotation "kinstr_marker" == kinstrMarker

structure LoopFrame where
  stmtId : Int
  targets : List String
  deriving DecidableEq

structure Proposals where
  frames : List LoopFrame := []
  notProposed : List Json := []

def loopAssignsRefused (stmtId : Int) (reason : String) : Json := .obj [
  ("kind", .str "loop_assigns"), ("stmt_id", .num stmtId), ("reason", .str reason)]

def loopInvariantMissing (stmtId : Int) : Json := .obj [
  ("kind", .str "loop_invariant"), ("stmt_id", .num stmtId),
  ("reason", .str ("A loop invariant states what the body maintains, which the AST " ++
    "does not determine. Two are usually needed: the bound on the " ++
    "induction variable, readable off the loop guard, and the relation " ++
    "between the accumulator and what it accumulates."))]

def modifiedVars (loopEffect : Json) : List String :=
  (items loopEffect "modified_vars").filterMap Json.asStr

/-- A loop with nothing to list and a loop with a frame of its own get no proposal. -/
def loopFrame (annotations : Json) (proposals : Proposals) (loopEffect : Json) : Proposals :=
  match (loopEffect.get "stmt_id").bind Json.asI64 with
  | none => proposals
  | some stmtId =>
      let marker := "#k" ++ toString stmtId
      match extendWithCalleeAssigns (modifiedVars loopEffect) loopEffect with
      | .error reason => { proposals with
          notProposed := proposals.notProposed ++ [loopAssignsRefused stmtId reason] }
      | .ok targets =>
          if (sortDedup targets).isEmpty ∨ alreadyAnnotated annotations "assigns" (some marker) then
            proposals
          else {
            frames := proposals.frames ++ [⟨stmtId, sortDedup targets⟩]
            notProposed := proposals.notProposed ++
              if alreadyAnnotated annotations "loop_invariant" (some marker) then []
              else [loopInvariantMissing stmtId] }

def loopFrames (loops annotations : Json) (proposals : Proposals) : Proposals :=
  (loops.asArray.getD []).foldl (loopFrame annotations) proposals

end FramaCMcp.Frames
