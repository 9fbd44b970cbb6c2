/-
This file lets several workers take functions from the scheduler at once and shows that they verify
the program callees first and never get stuck.
-/

import FramaCMcp.Proof.ProgramSchedule

namespace FramaCMcp.ProgramStep

open Digraph Relation Conclusion Store StoreRun Topo CalleeContracts

/-- The workers pass the functions they took as the functions in progress, and the stored ones are
listed in the order of their stores. -/
structure Crew where
  session : Session := {}
  claimed : List String := []
  stored : List String := []

/-- This function may be verified after those before it. -/
def CalleesBefore (program : Program) (before : List String) (function : String) : Prop :=
  ∀ callee, Calls (callgraphByName program).1 (callgraphByName program).2 function callee →
    callee ∈ before ∨
      SameComponent (callgraphByName program).1 (callgraphByName program).2 function callee

section Machine

variable [UnicodeTables] [Sha256] (tarjanScc : DiGraph String → List (List Nat))
  (program : Program)

/-- A worker takes the function that the scheduler names, stores its verified conclusion without
making another one stale, or gives it up. -/
inductive CrewStep : Crew → Crew → Prop where
  | claim (crew : Crew) (answer : StepAnswer) (function : String)
      (asked : verifyProgramStep tarjanScc program crew.session.conclusions crew.claimed =
        some answer) (named : NamesFunction answer.nextAction function) :
      CrewStep crew { crew with claimed := function :: crew.claimed }
  | store (crew : Crew) (update : FunctionConclusionUpdate)
      (claimed : update.function ∈ crew.claimed) (asks : update.status = some .verified)
      (valid : validateVerifiedConclusion (mergeUpdate crew.session.conclusions update) = none)
      (kept : MakesNothingStale crew.session.conclusions update) :
      CrewStep crew ⟨step crew.session update, crew.claimed.erase update.function,
        crew.stored ++ [update.function]⟩
  | abandon (crew : Crew) (function : String) :
      CrewStep crew { crew with claimed := crew.claimed.erase function }

/-- Whatever is stored is verified, and whatever is claimed may be verified now. -/
structure CrewInvariant (crew : Crew) : Prop where
  marks : Environment.EnvironmentMarked crew.session
  verified : AllVerified crew.session
  named : VerifiedOrStale crew.session
  stored : ∀ function, function ∈ crew.stored ↔ IsVerified crew.session.conclusions function
  distinct : crew.stored.Nodup
  claims : crew.claimed.Nodup
  fresh : ∀ function ∈ crew.claimed, function ∉ crew.stored
  ready : ∀ function ∈ crew.claimed, CalleesBefore program crew.stored function
  ordered : ∀ before function after, crew.stored = before ++ function :: after →
    CalleesBefore program before function

end Machine

section Answers

variable {tarjanScc : DiGraph String → List (List Nat)} {program : Program} {session : Session}

theorem nextAction_done (blocked : List String) (ready : List ReadyFunc)
    (inProgress : List String) : nextAction true blocked ready inProgress = doneAction := rfl

theorem not_namesFunction_doneAction (function : String) :
    ¬ NamesFunction doneAction function := by
  intro named
  have absent : doneAction.pointer ["args", "function"] = none := rfl
  rw [NamesFunction, absent] at named
  cases named

theorem verifyProgramStep_claimed (strong : StrongComponents
      (buildGraph (callgraphByName program).1 (callgraphByName program).2)
      (tarjanScc (buildGraph (callgraphByName program).1 (callgraphByName program).2)))
    (stale : VerifiedOrStale session) (verified : AllVerified session) (claimed : List String) :
    ∃ answer ready inProgress,
      verifyProgramStep tarjanScc program session.conclusions claimed = some answer ∧
      (∀ function, function ∈ ready.map ReadyFunc.function ↔
        Ready (callgraphByName program).1 (callgraphByName program).2
          (OrderedMap.keys (functionsWith isDone session.conclusions)) claimed function) ∧
      answer.nextAction = nextAction (!(definedFunctions program).isEmpty &&
        (definedFunctions program).all
          (OrderedMap.keys (functionsWith isDone session.conclusions)).contains) []
            ready inProgress := by
  have named := fun name entry found => (stale name entry found).1
  have started : ∀ name, name ∈ OrderedMap.keys (OrderedSet.addAll
      (functionsWith isInProgress session.conclusions) claimed) ↔ name ∈ claimed := by
    intro name
    rw [OrderedSet.mem_keys_addAll, mem_functionsWith isInProgress _ named, or_iff_left]
    rintro ⟨entry, found, status⟩
    simp [isInProgress, verified name entry found] at status
  have blocked : OrderedMap.keys (functionsWith isBlocked session.conclusions) = [] := by
    apply List.eq_nil_iff_forall_not_mem.mpr
    intro function member
    obtain ⟨entry, found, status⟩ := (mem_functionsWith isBlocked _ named function).mp member
    simp [isBlocked, verified function entry found] at status
  obtain ⟨ready, computed, listed⟩ := computeReadyFunctions_spec tarjanScc strong
    (OrderedMap.keys (functionsWith isDone session.conclusions))
    (OrderedMap.keys (OrderedSet.addAll
      (functionsWith isInProgress session.conclusions) claimed))
  have answered : ∃ answer, verifyProgramStep tarjanScc program session.conclusions claimed =
      some answer ∧ answer.nextAction = nextAction (!(definedFunctions program).isEmpty &&
        (definedFunctions program).all
          (OrderedMap.keys (functionsWith isDone session.conclusions)).contains) [] ready
            (OrderedMap.keys (OrderedSet.addAll
              (functionsWith isInProgress session.conclusions) claimed)) := by
    rw [verifyProgramStep, getReadyFunctions, computed]
    refine ⟨_, rfl, ?_⟩
    simp only [blocked]
  obtain ⟨answer, same, action⟩ := answered
  refine ⟨answer, ready, _, same, fun function => (listed function).trans ?_, action⟩
  simp only [Ready, started]

theorem mem_done (stale : VerifiedOrStale session) (function : String) :
    function ∈ OrderedMap.keys (functionsWith isDone session.conclusions) ↔
      IsVerified session.conclusions function := by
  rw [mem_functionsWith isDone _ fun name entry found => (stale name entry found).1]
  simp [IsVerified, isDone]

/-- A named function is ready, and an answer without one is the last. -/
theorem ready_of_named {function : String} {ready : List ReadyFunc} {inProgress : List String}
    {allDone : Bool} (named : NamesFunction (nextAction allDone [] ready inProgress) function) :
    allDone = false ∧ function ∈ ready.map ReadyFunc.function := by
  cases allDone with
  | true =>
      rw [nextAction_done] at named
      exact absurd named (not_namesFunction_doneAction function)
  | false =>
      rw [nextAction_unblocked] at named
      refine ⟨rfl, ?_⟩
      cases ready with
      | nil => exact absurd named (not_namesFunction_waitAction inProgress function)
      | cons first rest =>
          obtain rfl := (namesFunction_sandboxAction first.function function).mp named
          exact List.mem_map_of_mem List.mem_cons_self

end Answers

theorem CalleesBefore.mono {program : Program} {before after : List String} {function : String}
    (holds : CalleesBefore program before function) (part : before ⊆ after) :
    CalleesBefore program after function :=
  fun callee calls => (holds callee calls).imp_left fun member => part member

/-- The accepted store verifies its own function and keeps the others verified. -/
theorem isVerified_store [UnicodeTables] [Sha256] {session : Session}
    {update : FunctionConclusionUpdate} (asks : update.status = some .verified)
    (valid : validateVerifiedConclusion (mergeUpdate session.conclusions update) = none)
    (marks : Environment.EnvironmentMarked session)
    (kept : MakesNothingStale session.conclusions update) (function : String) :
    IsVerified (step session update).conclusions function ↔
      function = update.function ∨ IsVerified session.conclusions function := by
  obtain ⟨next, accepted, same⟩ := step_of_valid session update valid
  rw [same]
  by_cases own : function = update.function
  · subst own
    refine iff_of_true ⟨_, accepted.stored, ?_⟩ (.inl rfl)
    rw [mergeUpdate_status, asks]
    rfl
  · rw [or_iff_right own]
    constructor
    · intro after
      obtain ⟨entry, found, status⟩ := after
      rw [accepted.others function own] at found
      obtain ⟨old, present, rfl⟩ := Option.map_eq_some_iff.mp found
      exact ⟨old, present, (markedEntry_verified _ _ _ _ status).1⟩
    · intro before
      obtain ⟨entry, present, status⟩ := before
      refine ⟨markedEntry session.conclusions update function entry, ?_, ?_⟩
      · rw [accepted.others function own, present]
        rfl
      · exact markedEntry_stays_verified _ _ _ _ own present status
          (marks.fresh function entry present status).2.2 kept

theorem CrewInvariant.start (program : Program) : CrewInvariant program {} where
  marks := Environment.environmentMarked_empty
  verified := fun _ _ found => nomatch found
  named := fun _ _ found => nomatch found
  stored function := iff_of_false List.not_mem_nil (by
    intro verified
    obtain ⟨entry, found, -⟩ := verified
    cases found)
  distinct := List.nodup_nil
  claims := List.nodup_nil
  fresh function member := by cases member
  ready function member := by cases member
  ordered before function after split := by
    exact absurd split.symm (List.append_ne_nil_of_right_ne_nil before (List.cons_ne_nil _ _))

section Invariant

variable {tarjanScc : DiGraph String → List (List Nat)} {program : Program} {crew next : Crew}

section Store

variable [UnicodeTables] [Sha256]

theorem CrewInvariant.store (inv : CrewInvariant program crew)
    {update : FunctionConclusionUpdate} (claimed : update.function ∈ crew.claimed)
    (asks : update.status = some .verified)
    (valid : validateVerifiedConclusion (mergeUpdate crew.session.conclusions update) = none)
    (kept : MakesNothingStale crew.session.conclusions update) :
    CrewInvariant program ⟨step crew.session update, crew.claimed.erase update.function,
      crew.stored ++ [update.function]⟩ where
  marks := Environment.environmentMarked_step _ update inv.marks
  verified := allVerified_step _ update asks inv.marks kept inv.verified
  named := verifiedOrStale_step _ update asks inv.named
  stored function := by
    rw [isVerified_store asks valid inv.marks kept, List.mem_append, List.mem_singleton,
      inv.stored, or_comm]
  distinct := by
    rw [List.nodup_append]
    refine ⟨inv.distinct, List.nodup_singleton _, ?_⟩
    intro other member last lastMember
    rw [List.mem_singleton.mp lastMember]
    rintro rfl
    exact inv.fresh _ claimed member
  claims := inv.claims.erase _
  fresh function member := by
    obtain ⟨different, before⟩ := inv.claims.mem_erase_iff.mp member
    rw [List.mem_append, List.mem_singleton, not_or]
    exact ⟨inv.fresh function before, different⟩
  ready function member :=
    (inv.ready function (List.mem_of_mem_erase member)).mono (List.subset_append_left _ _)
  ordered before function after split := by
    rcases List.eq_nil_or_concat after with rfl | ⟨rest, last, rfl⟩
    · obtain ⟨same, rest⟩ := List.append_inj' split rfl
      obtain rfl := List.head_eq_of_cons_eq rest
      exact same ▸ inv.ready _ claimed
    · rw [List.concat_eq_append, ← List.cons_append, ← List.append_assoc] at split
      exact inv.ordered before function rest (List.append_inj' split rfl).1

end Store

variable (strong : StrongComponents
  (buildGraph (callgraphByName program).1 (callgraphByName program).2)
  (tarjanScc (buildGraph (callgraphByName program).1 (callgraphByName program).2)))

include strong

/-- A function that a worker takes is neither taken nor verified, and its callees are. -/
theorem CrewInvariant.claim (inv : CrewInvariant program crew) {answer : StepAnswer}
    {function : String}
    (asked : verifyProgramStep tarjanScc program crew.session.conclusions crew.claimed =
      some answer) (named : NamesFunction answer.nextAction function) :
    CrewInvariant program { crew with claimed := function :: crew.claimed } := by
  obtain ⟨other, ready, inProgress, computed, listed, action⟩ :=
    verifyProgramStep_claimed strong inv.named inv.verified crew.claimed
  obtain rfl := Option.some.inj (asked.symm.trans computed)
  rw [action] at named
  obtain ⟨declared, notDone, notClaimed, callees⟩ := (listed function).mp (ready_of_named named).2
  have unstored : function ∉ crew.stored := by
    rw [inv.stored, ← mem_done inv.named]
    exact notDone
  have before : CalleesBefore program crew.stored function := by
    intro callee calls
    refine (callees callee calls).imp (fun finished => ?_) And.left
    rw [inv.stored, ← mem_done inv.named]
    exact finished
  exact { inv with
    claims := List.nodup_cons.mpr ⟨notClaimed, inv.claims⟩
    fresh := List.forall_mem_cons.mpr ⟨unstored, inv.fresh⟩
    ready := List.forall_mem_cons.mpr ⟨before, inv.ready⟩ }

/-- When all are verified the scheduler says so, whatever is still in progress. -/
theorem CrewInvariant.answer_done (inv : CrewInvariant program crew)
    (some : definedFunctions program ≠ [])
    (all : ∀ function ∈ definedFunctions program, function ∈ crew.stored) :
    ∃ answer, verifyProgramStep tarjanScc program crew.session.conclusions crew.claimed =
      .some answer ∧ answer.nextAction = doneAction := by
  obtain ⟨answer, ready, inProgress, computed, -, action⟩ :=
    verifyProgramStep_claimed strong inv.named inv.verified crew.claimed
  have finished : (definedFunctions program).all
      (OrderedMap.keys (functionsWith isDone crew.session.conclusions)).contains = true := by
    rw [List.all_eq_true]
    intro function defined
    rw [List.contains_iff_mem, mem_done inv.named, ← inv.stored]
    exact all function defined
  rw [finished, List.isEmpty_eq_false_iff.mpr some] at action
  exact ⟨answer, computed, action.trans (nextAction_done [] ready inProgress)⟩

variable [UnicodeTables] [Sha256]

theorem CrewStep.invariant (taken : CrewStep tarjanScc program crew next)
    (inv : CrewInvariant program crew) : CrewInvariant program next := by
  cases taken with
  | claim answer function asked named => exact inv.claim strong asked named
  | store update claimed asks valid kept => exact inv.store claimed asks valid kept
  | abandon function =>
      exact { inv with
        claims := inv.claims.erase function
        fresh := fun other member => inv.fresh other (List.mem_of_mem_erase member)
        ready := fun other member => inv.ready other (List.mem_of_mem_erase member) }

theorem CrewInvariant.run (run : ReflTransGen (CrewStep tarjanScc program) {} crew) :
    CrewInvariant program crew := by
  induction run with
  | refl => exact .start program
  | tail _ taken ih => exact taken.invariant strong ih

/-- Without a function in progress the scheduler names one until all are verified. -/
theorem CrewInvariant.exists_claim (inv : CrewInvariant program crew)
    (listed : ∀ function ∈ definedFunctions program, function ∈ (callgraphByName program).1)
    (idle : crew.claimed = []) {function : String} (defined : function ∈ definedFunctions program)
    (unstored : function ∉ crew.stored) :
    ∃ named, CrewStep tarjanScc program crew { crew with claimed := [named] } := by
  obtain ⟨answer, ready, inProgress, computed, isReady, action⟩ :=
    verifyProgramStep_claimed strong inv.named inv.verified crew.claimed
  have notDone : function ∉ OrderedMap.keys (functionsWith isDone crew.session.conclusions) := by
    rw [mem_done inv.named, ← inv.stored]
    exact unstored
  have unfinished : (definedFunctions program).all
      (OrderedMap.keys (functionsWith isDone crew.session.conclusions)).contains = false := by
    rw [List.all_eq_false]
    refine ⟨function, defined, ?_⟩
    rw [List.contains_iff_mem]
    exact notDone
  rw [unfinished, Bool.and_false, nextAction_unblocked] at action
  obtain ⟨least, leastReady⟩ := exists_ready (callgraphByName program).1
    (callgraphByName program).2 _ ⟨function, listed function defined, notDone⟩
  rw [← idle, ← isReady] at leastReady
  cases ready with
  | nil => cases leastReady
  | cons first rest =>
      have taken := CrewStep.claim crew answer first.function computed (by
        rw [action]
        exact (namesFunction_sandboxAction _ _).mpr rfl)
      rw [idle] at taken
      exact ⟨first.function, taken⟩

end Invariant

/-- However the workers take functions, store their conclusions and give them up, each function is
verified once and after its callees, no two at work depend on each other unless they are recursive,
and the scheduler names a function until it says that all are verified. -/
theorem crewRun_verifies [UnicodeTables] [Sha256] (tarjanScc : DiGraph String → List (List Nat))
    (program : Program) (strong : StrongComponents
      (buildGraph (callgraphByName program).1 (callgraphByName program).2)
      (tarjanScc (buildGraph (callgraphByName program).1 (callgraphByName program).2)))
    (listed : ∀ function ∈ definedFunctions program, function ∈ (callgraphByName program).1)
    {crew : Crew} (run : ReflTransGen (CrewStep tarjanScc program) {} crew) :
    (crew.stored.Nodup ∧
      (∀ function, function ∈ crew.stored ↔ IsVerified crew.session.conclusions function) ∧
      ∀ before function after, crew.stored = before ++ function :: after →
        CalleesBefore program before function) ∧
    (crew.claimed.Nodup ∧ ∀ function ∈ crew.claimed, function ∉ crew.stored ∧
      CalleesBefore program crew.stored function ∧ ∀ other ∈ crew.claimed,
        Calls (callgraphByName program).1 (callgraphByName program).2 function other →
          SameComponent (callgraphByName program).1 (callgraphByName program).2 function other) ∧
    (crew.claimed = [] → (∃ function ∈ definedFunctions program, function ∉ crew.stored) →
      ∃ named, CrewStep tarjanScc program crew { crew with claimed := [named] }) ∧
    (definedFunctions program ≠ [] →
      (∀ function ∈ definedFunctions program, function ∈ crew.stored) →
      ∃ answer, verifyProgramStep tarjanScc program crew.session.conclusions crew.claimed =
        some answer ∧ answer.nextAction = doneAction) := by
  have inv := CrewInvariant.run strong run
  refine ⟨⟨inv.distinct, inv.stored, inv.ordered⟩, ⟨inv.claims, ?_⟩, ?_, inv.answer_done strong⟩
  · intro function claimed
    refine ⟨inv.fresh function claimed, inv.ready function claimed, fun other also calls => ?_⟩
    exact (inv.ready function claimed other calls).resolve_left (inv.fresh other also)
  · intro idle unfinished
    obtain ⟨function, defined, unstored⟩ := unfinished
    exact inv.exists_claim strong listed idle defined unstored

/-- One function calls two others. -/
def forkProgram : Program where
  functions := HashMap.ofList [("f", ⟨"f", true⟩), ("g", ⟨"g", true⟩), ("h", ⟨"h", true⟩)]
  callgraphVertices := [⟨"f", "#F1"⟩, ⟨"g", "#F2"⟩, ⟨"h", "#F3"⟩]
  callgraphEdges := [⟨"#F1", "#F2"⟩, ⟨"#F1", "#F3"⟩]

theorem forkProgram_strong : StrongComponents (buildGraph (callgraphByName forkProgram).1
    (callgraphByName forkProgram).2) [[1], [2], [0]] :=
  .of_rank (2 - ·) (by decide) (by decide) (by decide) (by decide) (by decide)

/-- Two workers take the callees, one proof is stored, the other one is given up and taken again. -/
theorem crewRun_verifies_example :
    let _ : UnicodeTables := .ascii
    let _ : Sha256 := zeroDigests
    ∃ crew : Crew, ReflTransGen (CrewStep (fun _ => [[1], [2], [0]]) forkProgram) {} crew ∧
      crew.stored = ["h"] ∧ IsVerified crew.session.conclusions "h" ∧
      ∃ named, CrewStep (fun _ => [[1], [2], [0]]) forkProgram crew
        { crew with claimed := [named] } := by
  intro tables digests
  have first : CrewStep (fun _ => [[1], [2], [0]]) forkProgram {} { claimed := ["g"] } :=
    .claim {} _ "g" rfl rfl
  have second : CrewStep (fun _ => [[1], [2], [0]]) forkProgram { claimed := ["g"] }
      { claimed := ["h", "g"] } := .claim { claimed := ["g"] } _ "h" rfl rfl
  have valid := valid_of_evidence ∅ (provedStore "h" []) rfl rfl rfl rfl
  have store : CrewStep (fun _ => [[1], [2], [0]]) forkProgram { claimed := ["h", "g"] } _ :=
    .store _ (provedStore "h" []) List.mem_cons_self rfl valid
      fun name entry different found => nomatch found
  have run := (((ReflTransGen.single first).tail second).tail store).tail (.abandon _ "g")
  obtain ⟨⟨-, verified, -⟩, -, next, -⟩ := crewRun_verifies (fun _ => [[1], [2], [0]]) forkProgram
    forkProgram_strong (by decide) run
  exact ⟨_, run, rfl, (verified "h").mp (by decide), next rfl ⟨"f", by decide, by decide⟩⟩

end FramaCMcp.ProgramStep
