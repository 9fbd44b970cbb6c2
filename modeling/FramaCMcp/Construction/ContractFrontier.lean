/-
This file lists the functions that the contracts of a program still lack.
-/

import FramaCMcp.Foundation.Json
import FramaCMcp.Foundation.OrderedMap
import FramaCMcp.Foundation.StableSort
import FramaCMcp.Foundation.Fixpoint
import Mathlib.Data.Prod.Lex
import Mathlib.Data.String.Basic

namespace FramaCMcp.ContractFrontier

open StableSort

structure Location where
  unknown : Bool
  file : String
  line : Int
  col : Int

def locToJson (loc : Location) : Json :=
  if loc.unknown then .null
  else .obj [("file", .str loc.file), ("line", .num loc.line), ("col", .num loc.col)]

/-- The kernel tells its functions apart by the number of their variable. -/
abbrev KernelFunction := Nat

structure Varinfo where
  vid : Nat
  vname : String

/-- These are the parts of a body that the visitor looks at, in its order. -/
inductive Visit where
  | stmt (sid : Int)
  | call (callee : Varinfo)
  | callThrough (printed : String) (loc : Location)
  | consInit (callee : Varinfo)

def Visit.callee : Visit → Option Varinfo
  | .call callee | .consInit callee => some callee
  | .stmt _ | .callThrough _ _ => none

/-- The kernel knows each function that has a body or that a body calls. -/
structure Program where
  functions : List KernelFunction
  distinct : functions.Nodup
  name : KernelFunction → String
  location : KernelFunction → Location
  definition : KernelFunction → Option (List Visit)
  emptyFunspec : KernelFunction → Bool
  known : ∀ kf, (definition kf).isSome = true → kf ∈ functions
  registered : ∀ kf ∈ functions, ∀ body, definition kf = some body →
    ∀ visit ∈ body, ∀ callee, visit.callee = some callee → callee.vid ∈ functions

variable (program : Program)

def kernelFunctionOfVarinfo (vi : Varinfo) : Option KernelFunction :=
  program.functions.find? (· == vi.vid) <|>
    program.functions.find? fun kf => program.name kf == vi.vname

section Callees

/-- The lists of the visitor grow at their front. -/
structure Visitor where
  currentSid : Int := -1
  callees : List KernelFunction := []
  unresolved : List Json := []

def addCallee (visitor : Visitor) (vi : Varinfo) : Visitor :=
  match kernelFunctionOfVarinfo program vi with
  | some kf =>
      if visitor.callees.any (kf == ·) then visitor
      else { visitor with callees := kf :: visitor.callees }
  | none => visitor

def addUnresolved (visitor : Visitor) (loc : Location) (printed : String) : Visitor :=
  { visitor with
    unresolved := .obj [("sid", .num visitor.currentSid), ("loc", locToJson loc),
      ("callee", .str printed)] :: visitor.unresolved }

def visitBody (visitor : Visitor) : Visit → Visitor
  | .stmt sid => { visitor with currentSid := sid }
  | .call callee | .consInit callee => addCallee program visitor callee
  | .callThrough printed loc => addUnresolved visitor loc printed

/-- A function without a body calls nothing. -/
def directCallInfo (kf : KernelFunction) : List KernelFunction × List Json :=
  match program.definition kf with
  | some body =>
      let visitor := body.foldl (visitBody program) {}
      (visitor.callees.reverse, visitor.unresolved.reverse)
  | none => ([], [])

end Callees

def kfIsDefined (kf : KernelFunction) : Bool := (program.definition kf).isSome

def kfHasContract (kf : KernelFunction) : Bool := !program.emptyFunspec kf

/-- The fold of the kernel puts the later functions in front. -/
def defined : List KernelFunction :=
  program.functions.foldl (fun acc kf => if kfIsDefined program kf then kf :: acc else acc) []

/-- Each defined function is walked once. -/
def callInfo : OrderedMap Nat (List KernelFunction × List Json) :=
  (defined program).foldl (fun acc kf => acc.insert kf (directCallInfo program kf)) OrderedMap.empty

def callInfoOf (kf : KernelFunction) : List KernelFunction × List Json :=
  ((callInfo program).lookup kf).getD ([], [])

section Callers

def addCaller (acc : OrderedMap Nat (List KernelFunction)) (caller callee : KernelFunction) :
    OrderedMap Nat (List KernelFunction) :=
  if caller == callee then acc
  else
    let previous := (acc.lookup callee).getD []
    if previous.any (caller == ·) then acc else acc.insert callee (caller :: previous)

def callersTable : OrderedMap Nat (List KernelFunction) :=
  (defined program).foldl
    (fun acc caller => (callInfoOf program caller).1.foldl (fun acc callee =>
      addCaller acc caller callee) acc) OrderedMap.empty

def callersOf (kf : KernelFunction) : List KernelFunction :=
  ((callersTable program).lookup kf).getD []

end Callers

def contracted : OrderedSet Nat :=
  (defined program).foldl (fun acc kf => if kfHasContract program kf then acc.add kf else acc)
    OrderedMap.empty

theorem mem_defined (kf : KernelFunction) : kf ∈ defined program ↔ kfIsDefined program kf = true := by
  have fold (functions acc : List KernelFunction) :
      kf ∈ functions.foldl (fun acc kf => if kfIsDefined program kf then kf :: acc else acc) acc ↔
        kf ∈ acc ∨ kf ∈ functions ∧ kfIsDefined program kf = true := by
    induction functions generalizing acc with
    | nil => simp
    | cons other functions ih =>
        rw [List.foldl_cons, ih]
        by_cases same : kf = other
        · subst same
          split_ifs with test <;> simp [test]
        · split_ifs <;> simp [same]
  rw [defined, fold]
  constructor
  · rintro (inside | ⟨_, test⟩)
    · cases inside
    · exact test
  · exact fun test => .inr ⟨program.known kf test, test⟩

/-- The search goes down to the defined functions. -/
def frontierSearch : Worklist.Search KernelFunction where
  next kf := (callInfoOf program kf).1
  admitted := kfIsDefined program
  nodes := defined program
  covered kf admitted := (mem_defined program kf).mpr admitted

/-- The contracted functions start in the queue, and they are not reached by that. -/
def walk : Worklist.State KernelFunction :=
  (frontierSearch program).run
    ((defined program).filter fun kf => (contracted program).contains kf)

def frontierFunctionToJson (kf : KernelFunction) (callers : List KernelFunction) : Json :=
  .obj [("function", .str (program.name kf)), ("loc", locToJson (program.location kf)),
    ("called_by", .arr (callers.map fun caller => .str (program.name caller)))]

def unresolvedSiteToJson (kf : KernelFunction) (site : Json) : Json :=
  match site with
  | .obj fields => .obj (("function", .str (program.name kf)) :: fields)
  | other => other

/-- The reached functions without a contract stand in the order of their places. -/
def missing : List KernelFunction :=
  sortByKey (fun kf => toLex ((program.location kf).file,
      toLex ((program.location kf).line, program.name kf)))
    ((defined program).filter fun kf =>
      (walk program).reached.contains kf && !(contracted program).contains kf)

/-- Only the bodies that the walk read can hide a function. -/
def unresolved : List Json :=
  (sortByKey program.name ((defined program).filter fun kf => (walk program).walked.contains kf)).flatMap
    fun kf => (callInfoOf program kf).2.map (unresolvedSiteToJson program kf)

def getContractFrontier : Json :=
  .obj [("contracted_count", .num (contracted program).keys.length),
    ("defined_count", .num (defined program).length),
    ("missing_count", .num (missing program).length),
    ("missing", .arr ((missing program).map fun kf =>
      frontierFunctionToJson program kf (callersOf program kf))),
    ("unresolved_call_sites", .arr (unresolved program)),
    ("call_graph_complete", .bool (unresolved program).isEmpty)]

end FramaCMcp.ContractFrontier
