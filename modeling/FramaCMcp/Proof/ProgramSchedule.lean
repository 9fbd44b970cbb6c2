/-
This file says when the scheduler names a function and when it waits for a stale conclusion.
-/

import FramaCMcp.Construction.ProgramStep
import FramaCMcp.Proof.ReadyFunctions
import FramaCMcp.Proof.Reverification

namespace FramaCMcp.ProgramStep

open Digraph Conclusion Store StoreRun Topo CalleeContracts WrittenReceipt
  Reverification

def IsVerified (conclusions : Conclusions) (function : String) : Prop :=
  ∃ entry, conclusions.lookup function = some entry ∧ entry.status = .verified

def NamesFunction (action : Json) (function : String) : Prop :=
  action.pointer ["args", "function"] = some (.str function)

/-- No function is ready, and work in progress must be awaited. -/
def AwaitsProgress (action : Json) : Prop :=
  action.get "blockers" = some (textList ["no_ready_functions"])

/-- While something is unfinished the answer names an unfinished function and awaits nothing. -/
def WaitsForNobody (tarjanScc : DiGraph String → List (List Nat)) (program : Program)
    (conclusions : Conclusions) : Prop :=
  (∃ function ∈ definedFunctions program, ¬ IsVerified conclusions function) →
    ∃ answer function, verifyProgramStep tarjanScc program conclusions [] = some answer ∧
      NamesFunction answer.nextAction function ∧ ¬ IsVerified conclusions function ∧
      ¬ AwaitsProgress answer.nextAction

/-- Nothing was stored for the function, and its callees are verified or recursive with it. -/
def Startable (program : Program) (conclusions : Conclusions) (function : String) : Prop :=
  conclusions.lookup function = none ∧ function ∈ (callgraphByName program).1 ∧
    ∀ callee, Calls (callgraphByName program).1 (callgraphByName program).2 function callee →
      IsVerified conclusions callee ∨
        SameComponent (callgraphByName program).1 (callgraphByName program).2 function callee ∧
          OnCycle (callgraphByName program).1 (callgraphByName program).2 function

/-- The store keeps the recorded contract and environment of each other verified conclusion. -/
def MakesNothingStale [Sha256] (conclusions : Conclusions) (update : FunctionConclusionUpdate) :
    Prop :=
  ∀ name entry, name ≠ update.function → conclusions.lookup name = some entry →
    entry.status = .verified →
    (∀ recorded, entry.calleeSpecHashes.lookup update.function = some recorded →
      recorded = specsHash
        (update.specs.getD (storedEntry conclusions update.function).specs)) ∧
    ∀ receipt recorded, update.proofReceipt = some receipt →
      entry.proofEnvHash = some recorded → recorded = proofEnvironmentHash receipt

/-- Each conclusion is kept under its own name and is verified or was verified before. -/
def VerifiedOrStale (session : Session) : Prop :=
  ∀ name entry, session.conclusions.lookup name = some entry →
    entry.function = name ∧ (entry.status = .verified ∨ entry.status = .inProgress)

/-- Each stored conclusion is verified. -/
def AllVerified (session : Session) : Prop :=
  ∀ name entry, session.conclusions.lookup name = some entry → entry.status = .verified

theorem mem_listConclusions (conclusions : Conclusions) (entry : FunctionVerificationState) :
    entry ∈ listConclusions conclusions ↔ ∃ name, conclusions.lookup name = some entry := by
  rw [listConclusions, List.mem_map]
  constructor
  · intro listed
    obtain ⟨⟨name, value⟩, member, rfl⟩ := listed
    exact ⟨name, (HashMap.mem_entries_iff conclusions name value).mp member⟩
  · intro stored
    obtain ⟨name, found⟩ := stored
    exact ⟨⟨name, entry⟩, (HashMap.mem_entries_iff conclusions name entry).mpr found, rfl⟩

theorem mem_functionsWith (test : VerificationStatus → Bool) (conclusions : Conclusions)
    (named : ∀ name entry, conclusions.lookup name = some entry → entry.function = name)
    (function : String) :
    function ∈ OrderedMap.keys (functionsWith test conclusions) ↔
      ∃ entry, conclusions.lookup function = some entry ∧ test entry.status = true := by
  rw [functionsWith, OrderedSet.mem_keys_addAll]
  simp only [List.mem_map, List.mem_filter, mem_listConclusions]
  constructor
  · intro listed
    rcases listed with ⟨entry, ⟨⟨name, found⟩, passes⟩, rfl⟩ | absent
    · exact ⟨entry, named name entry found ▸ found, passes⟩
    · exact nomatch absent
  · intro stored
    obtain ⟨entry, found, passes⟩ := stored
    exact .inl ⟨entry, ⟨⟨function, found⟩, passes⟩, named function entry found⟩

theorem markEnvironment_status (function current name : String)
    (entry : FunctionVerificationState) :
    (markEnvironment function current name entry).status = entry.status ∨
      (markEnvironment function current name entry).status = demote entry.status := by
  unfold markEnvironment
  split_ifs
  · exact .inl rfl
  · split
    · exact .inl rfl
    · split_ifs
      · exact .inl rfl
      · exact .inr rfl

theorem markCaller_status (function current name : String) (entry : FunctionVerificationState) :
    (markCaller function current name entry).status = entry.status ∨
      (markCaller function current name entry).status = demote entry.status := by
  unfold markCaller
  split_ifs
  · exact .inl rfl
  · split
    · exact .inl rfl
    · simp only
      split_ifs
      · exact .inr rfl
      · exact .inl rfl

section Marks

variable [Sha256] (conclusions : Conclusions) (update : FunctionConclusionUpdate) (name : String)
  (entry : FunctionVerificationState)

theorem markedEntry_status :
    (markedEntry conclusions update name entry).status = entry.status ∨
      (markedEntry conclusions update name entry).status = demote entry.status := by
  have idempotent : demote (demote entry.status) = demote entry.status := by
    cases entry.status <;> rfl
  unfold markedEntry
  cases update.proofReceipt with
  | none => exact markCaller_status _ _ name entry
  | some receipt =>
      have first := markEnvironment_status update.function (proofEnvironmentHash receipt) name entry
      rcases markCaller_status update.function (specsHash (mergeUpdate conclusions update).specs)
        name (markEnvironment update.function (proofEnvironmentHash receipt) name entry) with
        kept | demoted
      · simpa only [kept] using first
      · right
        rcases first with same | lower
        · rw [demoted, same]
        · rw [demoted, lower, idempotent]

/-- A verified conclusion under the same contract and environment stays verified. -/
theorem markedEntry_stays_verified (different : name ≠ update.function)
    (found : conclusions.lookup name = some entry) (verified : entry.status = .verified)
    (fresh : entry.staleDependencies = []) (kept : MakesNothingStale conclusions update) :
    (markedEntry conclusions update name entry).status = .verified := by
  obtain ⟨contract, environment⟩ := kept name entry different found verified
  have caller : ∀ other : FunctionVerificationState, KeepsEvidence entry other →
      other.status = .verified → other.staleDependencies = [] →
      (markCaller update.function (specsHash (mergeUpdate conclusions update).specs) name
        other).status = .verified := by
    intro other same status empty
    rw [markCaller, if_neg different, same.calleeSpecHashes]
    cases hash : entry.calleeSpecHashes.lookup update.function with
    | none => exact status
    | some recorded =>
        rw [mergeUpdate_specs, ← contract recorded hash]
        simp [markers, empty, status]
  unfold markedEntry
  cases supplied : update.proofReceipt with
  | none => exact caller entry ⟨rfl, rfl, rfl, rfl, rfl, rfl, rfl⟩ verified fresh
  | some receipt =>
      refine caller (markEnvironment update.function (proofEnvironmentHash receipt) name entry)
        (markEnvironment_keeps _ _ _ _) ?_ ?_
      · rw [markEnvironment, if_neg different]
        cases hash : entry.proofEnvHash with
        | none => exact verified
        | some recorded =>
            simp only
            rw [if_pos (environment receipt recorded supplied hash)]
            exact verified
      · rw [markEnvironment_staleDependencies]
        exact fresh

end Marks

theorem mergeUpdate_named [Sha256] {session : Session} (update : FunctionConclusionUpdate)
    (named : ∀ name entry, session.conclusions.lookup name = some entry → entry.function = name) :
    (mergeUpdate session.conclusions update).function = update.function := by
  rw [mergeUpdate_function]
  rcases Environment.storedEntry_cases session.conclusions update.function with stored | empty
  · exact named update.function _ stored
  · rw [empty]
    rfl

section Runs

variable [UnicodeTables] [Sha256]

theorem verifiedOrStale_step (session : Session) (update : FunctionConclusionUpdate)
    (asks : update.status = some .verified) (before : VerifiedOrStale session) :
    VerifiedOrStale (step session update) := by
  rcases step_cases session update with same | ⟨next, accepted, same⟩
  · rw [same]
    exact before
  · rw [same]
    intro name entry found
    rcases accepted.entry_cases found with ⟨rfl, rfl⟩ | ⟨own, old, present, rfl⟩
    · refine ⟨mergeUpdate_named update fun name entry found => (before name entry found).1, .inl ?_⟩
      rw [mergeUpdate_status, asks]
      rfl
    · obtain ⟨named, status⟩ := before name old present
      refine ⟨(markedEntry_keeps _ _ _ _).function.trans named, ?_⟩
      rcases markedEntry_status session.conclusions update name old with kept | demoted
      · rw [kept]
        exact status
      · rw [demoted]
        rcases status with verified | started
        · exact .inr (by rw [verified]; rfl)
        · exact .inr (by rw [started]; rfl)

theorem run_verifiedOrStale (updates : List FunctionConclusionUpdate)
    (asks : ∀ update ∈ updates, update.status = some .verified) :
    VerifiedOrStale (run updates) := by
  refine run_invariant_of_steps VerifiedOrStale (fun _ _ found => nomatch found) updates ?_
  intro taken next part before
  exact verifiedOrStale_step _ next (asks next (part.subset (by simp))) before

theorem allVerified_step (session : Session) (update : FunctionConclusionUpdate)
    (asks : update.status = some .verified)
    (marks : Environment.EnvironmentMarked session)
    (kept : MakesNothingStale session.conclusions update) (before : AllVerified session) :
    AllVerified (step session update) := by
  rcases step_cases session update with same | ⟨next, accepted, same⟩
  · rw [same]
    exact before
  · rw [same]
    intro name entry found
    rcases accepted.entry_cases found with ⟨rfl, rfl⟩ | ⟨own, old, present, rfl⟩
    · rw [mergeUpdate_status, asks]
      rfl
    · have verified := before name old present
      exact markedEntry_stays_verified session.conclusions update name old own present verified
        (marks.fresh name old present verified).2.2 kept

/-- No store of the run makes another verified conclusion stale. -/
def RunMakesNothingStale (updates : List FunctionConclusionUpdate) : Prop :=
  ∀ taken next, taken ++ [next] <+: updates → MakesNothingStale (run taken).conclusions next

theorem run_allVerified (updates : List FunctionConclusionUpdate)
    (asks : ∀ update ∈ updates, update.status = some .verified)
    (kept : RunMakesNothingStale updates) : AllVerified (run updates) := by
  refine run_invariant_of_steps AllVerified (fun _ _ found => nomatch found) updates ?_
  intro taken next part before
  have marks := run_invariant Environment.EnvironmentMarked Environment.environmentMarked_empty
    Environment.environmentMarked_step taken
  exact allVerified_step _ next (asks next (part.subset (by simp))) marks (kept taken next part)
    before

end Runs

/-- The trimming leaves an action without blocked functions as it is. -/
theorem nextAction_unblocked (ready : List ReadyFunc) (inProgress : List String) :
    nextAction false [] ready inProgress = match ready with
      | first :: _ => sandboxAction first.function
      | [] => waitAction inProgress := by
  cases ready <;> rfl

theorem namesFunction_sandboxAction (named function : String) :
    NamesFunction (sandboxAction named) function ↔ named = function := by
  have args : (sandboxAction named).pointer ["args", "function"] = some (.str named) := rfl
  rw [NamesFunction, args]
  simp

theorem not_namesFunction_waitAction (inProgress : List String) (function : String) :
    ¬ NamesFunction (waitAction inProgress) function := by
  intro named
  have absent : (waitAction inProgress).pointer ["args", "function"] = none := rfl
  rw [NamesFunction, absent] at named
  cases named

theorem not_awaitsProgress_sandboxAction (function : String) :
    ¬ AwaitsProgress (sandboxAction function) := by
  intro awaits
  have empty : (sandboxAction function).get "blockers" = some (.arr []) := rfl
  rw [AwaitsProgress, empty] at awaits
  exact absurd awaits (by simp [textList])

section Answers

variable {tarjanScc : DiGraph String → List (List Nat)} {program : Program} {session : Session}

theorem ready_iff_startable (stale : VerifiedOrStale session) (function : String) :
    Ready (callgraphByName program).1 (callgraphByName program).2
      (OrderedMap.keys (functionsWith isDone session.conclusions))
      (OrderedMap.keys (OrderedSet.addAll (functionsWith isInProgress session.conclusions) []))
      function ↔ Startable program session.conclusions function := by
  have named := fun name entry found => (stale name entry found).1
  have done : ∀ name, name ∈ OrderedMap.keys (functionsWith isDone session.conclusions) ↔
      IsVerified session.conclusions name := by
    intro name
    rw [mem_functionsWith isDone _ named]
    simp [IsVerified, isDone]
  have started : ∀ name, name ∈ OrderedMap.keys (OrderedSet.addAll
      (functionsWith isInProgress session.conclusions) []) ↔
        ∃ entry, session.conclusions.lookup name = some entry ∧ entry.status = .inProgress := by
    intro name
    rw [OrderedSet.mem_keys_addAll, mem_functionsWith isInProgress _ named]
    simp [isInProgress]
  have fresh : ¬ IsVerified session.conclusions function ∧ (¬ ∃ entry,
      session.conclusions.lookup function = some entry ∧ entry.status = .inProgress) ↔
        session.conclusions.lookup function = none := by
    cases found : session.conclusions.lookup function with
    | none => simp [IsVerified, found]
    | some entry =>
        rcases (stale function entry found).2 with status | status
        · simp [IsVerified, found, status]
        · simp [IsVerified, found, status]
  simp only [Ready, Startable, done, started, ← fresh]
  tauto

/-- While something is unfinished the first ready function is named, or progress is awaited. -/
theorem verifyProgramStep_unfinished (strong : StrongComponents
      (buildGraph (callgraphByName program).1 (callgraphByName program).2)
      (tarjanScc (buildGraph (callgraphByName program).1 (callgraphByName program).2)))
    (stale : VerifiedOrStale session)
    (unfinished : ∃ function ∈ definedFunctions program,
      ¬ IsVerified session.conclusions function) :
    ∃ answer ready inProgress,
      verifyProgramStep tarjanScc program session.conclusions [] = some answer ∧
      (∀ function, function ∈ ready.map ReadyFunc.function ↔
        Startable program session.conclusions function) ∧
      answer.nextAction = nextAction false [] ready inProgress := by
  have named := fun name entry found => (stale name entry found).1
  obtain ⟨ready, computed, listed⟩ := computeReadyFunctions_spec tarjanScc strong
    (OrderedMap.keys (functionsWith isDone session.conclusions))
    (OrderedMap.keys (OrderedSet.addAll (functionsWith isInProgress session.conclusions) []))
  have blocked : OrderedMap.keys (functionsWith isBlocked session.conclusions) = [] := by
    apply List.eq_nil_iff_forall_not_mem.mpr
    intro function member
    obtain ⟨entry, found, status⟩ := (mem_functionsWith isBlocked _ named function).mp member
    rcases (stale function entry found).2 with verified | started
    · simp [isBlocked, verified] at status
    · simp [isBlocked, started] at status
  have pending : (!(definedFunctions program).isEmpty && (definedFunctions program).all
      (OrderedMap.keys (functionsWith isDone session.conclusions)).contains) = false := by
    obtain ⟨function, defined, unverified⟩ := unfinished
    rw [Bool.and_eq_false_iff]
    right
    rw [List.all_eq_false]
    refine ⟨function, defined, ?_⟩
    rw [List.contains_iff_mem, mem_functionsWith isDone _ named]
    simpa [IsVerified, isDone] using unverified
  have answered : ∃ answer, verifyProgramStep tarjanScc program session.conclusions [] =
      some answer ∧ answer.nextAction = nextAction false [] ready (OrderedMap.keys
        (OrderedSet.addAll (functionsWith isInProgress session.conclusions) [])) := by
    rw [verifyProgramStep, getReadyFunctions, computed]
    refine ⟨_, rfl, ?_⟩
    simp only [blocked, pending]
  obtain ⟨answer, same, action⟩ := answered
  exact ⟨answer, ready, _, same, fun function =>
    (listed function).trans (ready_iff_startable stale function), action⟩

/-- While something is unfinished the answer names a function exactly where one is startable. -/
theorem waitsForNobody_iff (strong : StrongComponents
      (buildGraph (callgraphByName program).1 (callgraphByName program).2)
      (tarjanScc (buildGraph (callgraphByName program).1 (callgraphByName program).2)))
    (stale : VerifiedOrStale session) :
    WaitsForNobody tarjanScc program session.conclusions ↔
      ((∃ function ∈ definedFunctions program, ¬ IsVerified session.conclusions function) →
        ∃ function, Startable program session.conclusions function) := by
  refine imp_congr_right fun unfinished => ?_
  obtain ⟨answer, ready, inProgress, computed, listed, action⟩ :=
    verifyProgramStep_unfinished strong stale unfinished
  rw [nextAction_unblocked] at action
  constructor
  · intro answered
    obtain ⟨other, function, same, names, -, -⟩ := answered
    obtain rfl := Option.some.inj (computed.symm.trans same)
    cases ready with
    | nil =>
        rw [action] at names
        exact absurd names (not_namesFunction_waitAction inProgress function)
    | cons first rest => exact ⟨first.function, (listed first.function).mp (by simp)⟩
  · intro startable
    obtain ⟨function, startable⟩ := startable
    cases ready with
    | nil => exact absurd ((listed function).mpr startable) (by simp)
    | cons first rest =>
        have head := (listed first.function).mp (by simp)
        refine ⟨answer, first.function, computed, ?_, ?_, ?_⟩
        · rw [action]
          exact (namesFunction_sandboxAction _ _).mpr rfl
        · simp [IsVerified, head.1]
        · rw [action]
          exact not_awaitsProgress_sandboxAction _

theorem exists_startable (listed : ∀ function ∈ definedFunctions program,
      function ∈ (callgraphByName program).1) (stale : VerifiedOrStale session)
    (verified : AllVerified session)
    (unfinished : ∃ function ∈ definedFunctions program,
      ¬ IsVerified session.conclusions function) :
    ∃ function, Startable program session.conclusions function := by
  have named := fun name entry found => (stale name entry found).1
  have idle : OrderedMap.keys (OrderedSet.addAll
      (functionsWith isInProgress session.conclusions) []) = [] := by
    apply List.eq_nil_iff_forall_not_mem.mpr
    intro function member
    rw [OrderedSet.mem_keys_addAll, mem_functionsWith isInProgress _ named] at member
    rcases member with member | ⟨entry, found, status⟩
    · cases member
    · simp [isInProgress, verified function entry found] at status
  obtain ⟨function, defined, unverified⟩ := unfinished
  have pending : function ∉ OrderedMap.keys (functionsWith isDone session.conclusions) := by
    rw [mem_functionsWith isDone _ named]
    simpa [IsVerified, isDone] using unverified
  obtain ⟨least, ready⟩ := exists_ready (callgraphByName program).1 (callgraphByName program).2 _
    ⟨function, listed function defined, pending⟩
  rw [← idle] at ready
  exact ⟨least, (ready_iff_startable stale least).mp ready⟩

end Answers

/-- After verified stores alone the scheduler names a function exactly where everything is verified
or something is startable, and it always does while no store makes another conclusion stale. -/
theorem verifyProgramStep_waitsForNobody_iff [UnicodeTables] [Sha256]
    (tarjanScc : DiGraph String → List (List Nat)) (program : Program)
    (strong : StrongComponents
      (buildGraph (callgraphByName program).1 (callgraphByName program).2)
      (tarjanScc (buildGraph (callgraphByName program).1 (callgraphByName program).2)))
    (updates : List FunctionConclusionUpdate)
    (asks : ∀ update ∈ updates, update.status = some .verified) :
    (WaitsForNobody tarjanScc program (run updates).conclusions ↔
      ((∀ function ∈ definedFunctions program, IsVerified (run updates).conclusions function) ∨
        ∃ function, Startable program (run updates).conclusions function)) ∧
    ((∀ function ∈ definedFunctions program, function ∈ (callgraphByName program).1) →
      RunMakesNothingStale updates → ∀ reached, reached <+: updates →
        WaitsForNobody tarjanScc program (run reached).conclusions) := by
  constructor
  · rw [waitsForNobody_iff strong (run_verifiedOrStale updates asks)]
    by_cases finished : ∀ function ∈ definedFunctions program,
        IsVerified (run updates).conclusions function
    · refine iff_of_true ?_ (.inl finished)
      intro unfinished
      obtain ⟨function, defined, unverified⟩ := unfinished
      exact absurd (finished function defined) unverified
    · have unfinished : ∃ function ∈ definedFunctions program,
          ¬ IsVerified (run updates).conclusions function := by
        simpa using finished
      constructor
      · intro answered
        exact .inr (answered unfinished)
      · intro startable _
        exact startable.resolve_left finished
  · intro listed kept reached part
    have asked : ∀ update ∈ reached, update.status = some .verified :=
      fun update member => asks update (part.subset member)
    have stale := run_verifiedOrStale reached asked
    have verified := run_allVerified reached asked fun taken next shorter =>
      kept taken next (shorter.trans part)
    exact (waitsForNobody_iff strong stale).mpr (exists_startable listed stale verified)

/-- The function calls nothing, and its proof is stored. -/
def provedStore [Sha256] (function : String) (specs : List AnnotationEntry) :
    FunctionConclusionUpdate where
  function := function
  status := some .verified
  specs := some specs
  wpSummary := some ⟨1, 1, 0, 0, 0⟩
  callees := some []
  proofReceipt := some (writtenReceipt (provedBody function) "")

def callerProgram : Program where
  functions := HashMap.ofList [("f", ⟨"f", true⟩), ("g", ⟨"g", true⟩)]
  callgraphVertices := [⟨"f", "#F1"⟩, ⟨"g", "#F2"⟩]
  callgraphEdges := [⟨"#F1", "#F2"⟩]

theorem callerProgram_strong : StrongComponents (buildGraph (callgraphByName callerProgram).1
    (callgraphByName callerProgram).2) [[1], [0]] :=
  .of_rank (1 - ·) (by decide) (by decide) (by decide) (by decide) (by decide)

/-- The store of the callee is accepted in each session that keeps its name. -/
theorem provedStore_stored [UnicodeTables] [Sha256] (session : Session)
    (specs : List AnnotationEntry)
    (named : (storedEntry session.conclusions "g").function = "g") :
    IsVerified (step session (provedStore "g" specs)).conclusions "g" ∧
      specsHashForFunction (step session (provedStore "g" specs)).conclusions "g" =
        specsHash specs ∧
      ∀ entry, session.conclusions.lookup "f" = some entry → ∃ after,
        (step session (provedStore "g" specs)).conclusions.lookup "f" = some after ∧
          KeepsEvidence entry after := by
  have valid := valid_of_evidence session.conclusions (provedStore "g" specs) named rfl rfl rfl
  obtain ⟨next, accepted, same⟩ := step_of_valid session _ valid
  rw [same]
  refine ⟨⟨_, accepted.stored, mergeUpdate_status _ _⟩, ?_, ?_⟩
  · exact specsHashForFunction_accepted _ _ _ accepted "g"
  · intro entry found
    refine ⟨_, ?_, markedEntry_keeps session.conclusions (provedStore "g" specs) "f" entry⟩
    rw [accepted.others "f" (by simp [provedStore]), found]
    rfl

/-- These stores prove the callee, its caller and then the callee under other specs. -/
def callerThenCallee [Sha256] : List FunctionConclusionUpdate :=
  [provedStore "g" [], callerStore] ++ [provedStore "g" [zeroClause]]

theorem callerThenCallee_asks [Sha256] :
    ∀ update ∈ callerThenCallee, update.status = some .verified := by
  simp [callerThenCallee, provedStore, callerStore]

theorem storedEntry_named [UnicodeTables] [Sha256] (updates : List FunctionConclusionUpdate)
    (asks : ∀ update ∈ updates, update.status = some .verified) (function : String) :
    (storedEntry (run updates).conclusions function).function = function := by
  rcases Environment.storedEntry_cases (run updates).conclusions function with stored | empty
  · exact (run_verifiedOrStale updates asks function _ stored).1
  · rw [empty]
    rfl

/-- The last store verifies the callee and makes its caller stale. -/
theorem callerThenCallee_stale [UnicodeTables] [Sha256]
    (different : specsHash [] ≠ specsHash [zeroClause]) :
    IsVerified (run callerThenCallee).conclusions "g" ∧
      ∃ entry, (run callerThenCallee).conclusions.lookup "f" = some entry ∧
        entry.status ≠ .verified := by
  have first := provedStore_stored (run []) [] rfl
  have proved := callerStore_proved (run [provedStore "g" []])
    (storedEntry_named _ (by simp [provedStore]) "f")
  have second := provedStore_stored (run [provedStore "g" [], callerStore]) [zeroClause]
    (storedEntry_named _ (by simp [provedStore, callerStore]) "g")
  obtain ⟨verified, current, kept⟩ := second
  obtain ⟨entry, found, same⟩ := kept _ proved.found
  have recorded : entry.calleeSpecHashes.lookup "g" = some (specsHash []) := by
    rw [same.calleeSpecHashes, proved.hash]
    exact congrArg some first.2.1
  have demoted := demotedBy_of_changed [provedStore "g" [], callerStore]
    (provedStore "g" [zeroClause]) "f" entry ⟨_, proved.found, proved.verified⟩ found
    (by simp [provedStore]) (specsHash []) recorded (fun equal => different
      (equal.trans current))
  rw [callerThenCallee, run_append]
  exact ⟨verified, entry, found, demoted.demoted⟩

/-- Nothing is startable while the stale caller is the only unfinished function. -/
theorem callerThenCallee_not_startable [UnicodeTables] [Sha256]
    (different : specsHash [] ≠ specsHash [zeroClause]) (function : String) :
    ¬ Startable callerProgram (run callerThenCallee).conclusions function := by
  intro startable
  obtain ⟨⟨callee, stored, -⟩, caller, found, -⟩ := callerThenCallee_stale different
  obtain ⟨unstored, declared, -⟩ := startable
  rcases List.mem_pair.mp declared with rfl | rfl
  · exact absurd (unstored.symm.trans found) (by simp)
  · exact absurd (unstored.symm.trans stored) (by simp)

/-- The scheduler awaits progress while nobody works on anything. -/
theorem not_verifyProgramStep_waitsForNobody :
    ¬ ∀ [UnicodeTables] [Sha256] (tarjanScc : DiGraph String → List (List Nat))
      (program : Program), StrongComponents
        (buildGraph (callgraphByName program).1 (callgraphByName program).2)
        (tarjanScc (buildGraph (callgraphByName program).1 (callgraphByName program).2)) →
      ∀ updates : List FunctionConclusionUpdate,
        (∀ update ∈ updates, update.status = some .verified) →
        WaitsForNobody tarjanScc program (run updates).conclusions := by
  intro waits
  have stale := @callerThenCallee_stale .ascii zeroDigests zeroDigests_ne
  obtain ⟨-, entry, found, unverified⟩ := stale
  have answered := @waits .ascii zeroDigests (fun _ => [[1], [0]]) callerProgram
    callerProgram_strong (@callerThenCallee zeroDigests) (@callerThenCallee_asks zeroDigests)
  have kept := @run_verifiedOrStale .ascii zeroDigests (@callerThenCallee zeroDigests)
    (@callerThenCallee_asks zeroDigests)
  rw [waitsForNobody_iff callerProgram_strong kept] at answered
  obtain ⟨function, startable⟩ := answered ⟨"f", by decide, by
    intro verified
    obtain ⟨other, same, status⟩ := verified
    obtain rfl := Option.some.inj (found.symm.trans same)
    exact unverified status⟩
  exact @callerThenCallee_not_startable .ascii zeroDigests zeroDigests_ne function startable

/-- The last store of the example makes the proved caller stale. -/
theorem verifyProgramStep_waitsForNobody_iff_example :
    (WaitsForNobody (fun _ => [[1], [0]]) callerProgram
        (@run .ascii zeroDigests (@callerThenCallee zeroDigests)).conclusions ↔
      ((∀ function ∈ definedFunctions callerProgram, IsVerified
          (@run .ascii zeroDigests (@callerThenCallee zeroDigests)).conclusions function) ∨
        ∃ function, Startable callerProgram
          (@run .ascii zeroDigests (@callerThenCallee zeroDigests)).conclusions function)) ∧
    ((∀ function ∈ definedFunctions callerProgram,
        function ∈ (callgraphByName callerProgram).1) →
      @RunMakesNothingStale .ascii zeroDigests (@callerThenCallee zeroDigests) →
      ∀ reached, reached <+: @callerThenCallee zeroDigests →
        WaitsForNobody (fun _ => [[1], [0]]) callerProgram
          (@run .ascii zeroDigests reached).conclusions) :=
  @verifyProgramStep_waitsForNobody_iff .ascii zeroDigests (fun _ => [[1], [0]]) callerProgram
    callerProgram_strong (@callerThenCallee zeroDigests) (@callerThenCallee_asks zeroDigests)

end FramaCMcp.ProgramStep
