/-
This file says what one accepted store changes, and follows a session over its stores.
-/

import Mathlib.Data.List.Induction
import FramaCMcp.Construction.Store

namespace FramaCMcp.StoreRun

open Conclusion Store

/-- The marks of a conclusion leave its specs and its evidence alone. -/
structure KeepsEvidence (before after : FunctionVerificationState) : Prop where
  function : after.function = before.function
  specs : after.specs = before.specs
  callees : after.callees = before.callees
  calleeSpecHashes : after.calleeSpecHashes = before.calleeSpecHashes
  wpSummary : after.wpSummary = before.wpSummary
  proofReceipt : after.proofReceipt = before.proofReceipt
  proofEnvHash : after.proofEnvHash = before.proofEnvHash

theorem KeepsEvidence.trans {first second third : FunctionVerificationState}
    (start : KeepsEvidence first second) (next : KeepsEvidence second third) :
    KeepsEvidence first third where
  function := next.function.trans start.function
  specs := next.specs.trans start.specs
  callees := next.callees.trans start.callees
  calleeSpecHashes := next.calleeSpecHashes.trans start.calleeSpecHashes
  wpSummary := next.wpSummary.trans start.wpSummary
  proofReceipt := next.proofReceipt.trans start.proofReceipt
  proofEnvHash := next.proofEnvHash.trans start.proofEnvHash

theorem demote_ne_verified (status : VerificationStatus) : demote status ≠ .verified := by
  cases status <;> decide

theorem markEnvironment_self (name current : String) (entry : FunctionVerificationState) :
    markEnvironment name current name entry = entry := if_pos rfl

theorem markCaller_self (name current : String) (entry : FunctionVerificationState) :
    markCaller name current name entry = entry := if_pos rfl

theorem markEnvironment_keeps (function current name : String)
    (entry : FunctionVerificationState) :
    KeepsEvidence entry (markEnvironment function current name entry) := by
  unfold markEnvironment
  split_ifs
  · exact ⟨rfl, rfl, rfl, rfl, rfl, rfl, rfl⟩
  · split
    · exact ⟨rfl, rfl, rfl, rfl, rfl, rfl, rfl⟩
    · split_ifs <;> exact ⟨rfl, rfl, rfl, rfl, rfl, rfl, rfl⟩

theorem markCaller_keeps (function current name : String) (entry : FunctionVerificationState) :
    KeepsEvidence entry (markCaller function current name entry) := by
  unfold markCaller
  split_ifs
  · exact ⟨rfl, rfl, rfl, rfl, rfl, rfl, rfl⟩
  · split <;> exact ⟨rfl, rfl, rfl, rfl, rfl, rfl, rfl⟩

theorem markEnvironment_staleDependencies (function current name : String)
    (entry : FunctionVerificationState) :
    (markEnvironment function current name entry).staleDependencies = entry.staleDependencies := by
  unfold markEnvironment
  split_ifs
  · rfl
  · split
    · rfl
    · split_ifs <;> rfl

theorem markCaller_staleProofEnvironment (function current name : String)
    (entry : FunctionVerificationState) :
    (markCaller function current name entry).staleProofEnvironment =
      entry.staleProofEnvironment := by
  unfold markCaller
  split_ifs
  · rfl
  · split <;> rfl

/-- Another conclusion is marked exactly where it records another environment. -/
theorem markEnvironment_marks (function current name : String)
    (entry : FunctionVerificationState) (different : name ≠ function) (recorded : String)
    (hash : entry.proofEnvHash = some recorded) :
    (markEnvironment function current name entry).staleProofEnvironment.isSome = true ↔
      recorded ≠ current := by
  unfold markEnvironment
  rw [if_neg different, hash]
  by_cases same : recorded = current <;> simp [same]

/-- A verified conclusion was verified before and has no new mark. -/
theorem markEnvironment_verified (function current name : String)
    (entry : FunctionVerificationState)
    (verified : (markEnvironment function current name entry).status = .verified) :
    entry.status = .verified ∧
      (entry.staleProofEnvironment = none →
        (markEnvironment function current name entry).staleProofEnvironment = none) := by
  unfold markEnvironment at verified ⊢
  split_ifs at verified ⊢ with same
  · exact ⟨verified, id⟩
  · split at verified
    · exact ⟨verified, id⟩
    · split_ifs at verified ⊢
      · exact ⟨verified, fun _ => rfl⟩
      · exact absurd verified (demote_ne_verified entry.status)

/-- A caller gets the markers of the stored function. -/
theorem markCaller_staleDependencies (function current name : String)
    (entry : FunctionVerificationState) (different : name ≠ function) :
    (markCaller function current name entry).staleDependencies =
      match entry.calleeSpecHashes.lookup function with
      | none => entry.staleDependencies
      | some recorded => markers function recorded current entry.staleDependencies := by
  unfold markCaller
  rw [if_neg different]
  cases entry.calleeSpecHashes.lookup function <;> rfl

/-- A verified conclusion was verified before and has no new marker. -/
theorem markCaller_verified (function current name : String)
    (entry : FunctionVerificationState)
    (verified : (markCaller function current name entry).status = .verified) :
    entry.status = .verified ∧
      (entry.staleDependencies = [] →
        (markCaller function current name entry).staleDependencies = []) := by
  by_cases same : name = function
  · subst same
    rw [markCaller_self] at verified ⊢
    exact ⟨verified, id⟩
  · rw [markCaller_staleDependencies function current name entry same]
    rw [markCaller, if_neg same] at verified
    cases recorded : entry.calleeSpecHashes.lookup function with
    | none =>
        rw [recorded] at verified
        exact ⟨verified, id⟩
    | some hash =>
        rw [recorded] at verified
        simp only at verified ⊢
        split_ifs at verified with changed
        · exact absurd verified (demote_ne_verified entry.status)
        · refine ⟨verified, fun fresh => ?_⟩
          by_contra marked
          exact changed ⟨by simpa [fresh] using marked, marked⟩

/-- This is the evidence that the store asks of a verified conclusion. -/
structure HasEvidence [UnicodeTables] [Sha256] (entry : FunctionVerificationState) : Prop where
  fresh : entry.staleDependencies = []
  current : entry.staleProofEnvironment = none
  hashed : ∀ callee ∈ entry.callees, (entry.calleeSpecHashes.lookup callee).isSome = true
  proved : ∃ summary receipt, entry.wpSummary = some summary ∧
    summaryIsFullyValid summary = true ∧ entry.proofReceipt = some receipt ∧
    proofReceiptEvidenceError receipt summary.total entry.function = none

/-- The evidence carries over to a conclusion without a mark. -/
theorem HasEvidence.of_kept [UnicodeTables] [Sha256] {before after : FunctionVerificationState}
    (evidence : HasEvidence before) (kept : KeepsEvidence before after)
    (fresh : after.staleDependencies = []) (current : after.staleProofEnvironment = none) :
    HasEvidence after := by
  obtain ⟨-, -, hashed, summary, receipt, counts, valid, present, accepted⟩ := evidence
  refine ⟨fresh, current, ?_, summary, receipt, kept.wpSummary.trans counts, valid,
    kept.proofReceipt.trans present, ?_⟩
  · rw [kept.callees, kept.calleeSpecHashes]
    exact hashed
  · rw [kept.function]
    exact accepted

theorem unhashedCallee_eq_none_iff (entry : FunctionVerificationState) :
    unhashedCallee entry = none ↔
      ∀ callee ∈ entry.callees, (entry.calleeSpecHashes.lookup callee).isSome = true := by
  simp [unhashedCallee, List.find?_eq_none, Option.ne_none_iff_isSome]

theorem verifiedReason_eq_none_iff [UnicodeTables] [Sha256] (entry : FunctionVerificationState) :
    verifiedReason entry = none ↔ HasEvidence entry := by
  have callees := unhashedCallee_eq_none_iff entry
  unfold verifiedReason
  constructor
  · intro accepted
    split_ifs at accepted with stale environment
    rw [not_not] at stale
    cases unhashed : unhashedCallee entry with
    | some callee => simp [unhashed] at accepted
    | none =>
        cases summary : entry.wpSummary with
        | none => simp [unhashed, summary] at accepted
        | some counts =>
            cases receipt : entry.proofReceipt with
            | none =>
                simp only [unhashed, summary, receipt] at accepted
                split_ifs at accepted
            | some found =>
                simp only [unhashed, summary, receipt] at accepted
                split_ifs at accepted with partly
                exact ⟨stale, by simpa using environment, callees.mp unhashed,
                  counts, found, summary, by simpa using partly, receipt, accepted⟩
  · rintro ⟨fresh, current, hashed, summary, receipt, counts, valid, present, accepted⟩
    simp [fresh, current, callees.mpr hashed, counts, valid, present, accepted]

/-- The store accepts a verified conclusion exactly where it has its evidence. -/
theorem validateVerifiedConclusion_eq_none_iff [UnicodeTables] [Sha256]
    (entry : FunctionVerificationState) :
    validateVerifiedConclusion entry = none ↔ (entry.status = .verified → HasEvidence entry) := by
  unfold validateVerifiedConclusion
  rw [← verifiedReason_eq_none_iff]
  by_cases verified : entry.status = .verified <;> simp [verified]

section MergeUpdate

variable [Sha256] (conclusions : Conclusions) (update : FunctionConclusionUpdate)

/-- Each field of the merged conclusion is supplied by the update or kept. -/
theorem mergeUpdate_eq :
    mergeUpdate conclusions update = { storedEntry conclusions update.function with
      status := update.status.getD (storedEntry conclusions update.function).status
      specs := update.specs.getD (storedEntry conclusions update.function).specs
      annotationCount := UInt32.ofNat
        (update.specs.getD (storedEntry conclusions update.function).specs).length
      wpSummary := update.wpSummary <|> (storedEntry conclusions update.function).wpSummary
      notes := update.notes.getD (storedEntry conclusions update.function).notes
      callees := update.callees.getD (storedEntry conclusions update.function).callees
      proofReceipt := update.proofReceipt <|>
        (storedEntry conclusions update.function).proofReceipt
      proofEnvHash := update.proofReceipt.map proofEnvironmentHash <|>
        (storedEntry conclusions update.function).proofEnvHash
      staleProofEnvironment := if update.proofReceipt.isSome then none
        else (storedEntry conclusions update.function).staleProofEnvironment
      verifyProfile := update.verifyProfile <|>
        (storedEntry conclusions update.function).verifyProfile
      reproduce := if update.verifyProfile.isSome then update.reproduce
        else (storedEntry conclusions update.function).reproduce
      calleeSpecHashes := match update.callees with
        | some callees => HashMap.ofList (callees.map fun callee =>
            (callee, specsHashForFunction conclusions callee))
        | none => (storedEntry conclusions update.function).calleeSpecHashes
      staleDependencies := if update.callees.isSome then []
        else (storedEntry conclusions update.function).staleDependencies } := by
  rcases update with ⟨_, _, _, _, _, callees, receipt, profile, _⟩
  cases receipt <;> cases profile <;> cases callees <;> rfl

theorem mergeUpdate_status :
    (mergeUpdate conclusions update).status =
      update.status.getD (storedEntry conclusions update.function).status := by
  rw [mergeUpdate_eq]

theorem mergeUpdate_function :
    (mergeUpdate conclusions update).function =
      (storedEntry conclusions update.function).function := by
  rw [mergeUpdate_eq]

theorem mergeUpdate_specs :
    (mergeUpdate conclusions update).specs =
      update.specs.getD (storedEntry conclusions update.function).specs := by
  rw [mergeUpdate_eq]

theorem mergeUpdate_callees :
    (mergeUpdate conclusions update).callees =
      update.callees.getD (storedEntry conclusions update.function).callees := by
  rw [mergeUpdate_eq]

theorem mergeUpdate_calleeSpecHashes :
    (mergeUpdate conclusions update).calleeSpecHashes =
      match update.callees with
      | some callees => HashMap.ofList (callees.map fun callee =>
          (callee, specsHashForFunction conclusions callee))
      | none => (storedEntry conclusions update.function).calleeSpecHashes := by
  rw [mergeUpdate_eq]

/-- A supplied callee list is hashed whole. -/
theorem mergeUpdate_hashed (supplied : update.callees.isSome = true) (callee : String)
    (member : callee ∈ (mergeUpdate conclusions update).callees) :
    ((mergeUpdate conclusions update).calleeSpecHashes.lookup callee).isSome = true := by
  obtain ⟨callees, given⟩ := Option.isSome_iff_exists.mp supplied
  rw [mergeUpdate_callees, given, Option.getD_some] at member
  simp only [mergeUpdate_calleeSpecHashes, given, HashMap.lookup_ofList_map, if_pos member,
    Option.isSome_some]

theorem mergeUpdate_staleDependencies :
    (mergeUpdate conclusions update).staleDependencies =
      if update.callees.isSome then []
      else (storedEntry conclusions update.function).staleDependencies := by
  rw [mergeUpdate_eq]

theorem mergeUpdate_wpSummary :
    (mergeUpdate conclusions update).wpSummary =
      (update.wpSummary <|> (storedEntry conclusions update.function).wpSummary) := by
  rw [mergeUpdate_eq]

theorem mergeUpdate_proofReceipt :
    (mergeUpdate conclusions update).proofReceipt =
      (update.proofReceipt <|> (storedEntry conclusions update.function).proofReceipt) := by
  rw [mergeUpdate_eq]

/-- A store without a receipt keeps the recorded environment. -/
theorem mergeUpdate_environment_kept (kept : update.proofReceipt = none) :
    (mergeUpdate conclusions update).proofEnvHash =
        (storedEntry conclusions update.function).proofEnvHash ∧
      (mergeUpdate conclusions update).staleProofEnvironment =
        (storedEntry conclusions update.function).staleProofEnvironment := by
  rw [mergeUpdate_eq, kept]
  exact ⟨rfl, rfl⟩

theorem mergeUpdate_environment_replaced (receipt : Json)
    (supplied : update.proofReceipt = some receipt) :
    (mergeUpdate conclusions update).proofEnvHash = some (proofEnvironmentHash receipt) ∧
      (mergeUpdate conclusions update).staleProofEnvironment = none := by
  rw [mergeUpdate_eq, supplied]
  exact ⟨rfl, rfl⟩

end MergeUpdate

/-- This is what a store does to each other conclusion. -/
def markedEntry [Sha256] (conclusions : Conclusions) (update : FunctionConclusionUpdate)
    (name : String) (entry : FunctionVerificationState) : FunctionVerificationState :=
  markCaller update.function (specsHash (mergeUpdate conclusions update).specs) name
    (match update.proofReceipt with
      | some receipt => markEnvironment update.function (proofEnvironmentHash receipt) name entry
      | none => entry)

/-- An accepted store replaces one conclusion and marks the others. -/
structure Accepted [UnicodeTables] [Sha256] (conclusions : Conclusions)
    (update : FunctionConclusionUpdate) (next : Conclusions) : Prop where
  valid : validateVerifiedConclusion (mergeUpdate conclusions update) = none
  stored : next.lookup update.function = some (mergeUpdate conclusions update)
  others : ∀ name, name ≠ update.function →
    next.lookup name = (conclusions.lookup name).map (markedEntry conclusions update name)

theorem lookup_markEnvironments [Sha256] (conclusions : Conclusions) (function name : String)
    (receipt : Option Json) :
    (markEnvironments conclusions function receipt).lookup name =
      (conclusions.lookup name).map fun entry => match receipt with
        | some receipt => markEnvironment function (proofEnvironmentHash receipt) name entry
        | none => entry := by
  cases receipt with
  | none => simp [markEnvironments]
  | some receipt => simp [markEnvironments]

/-- Each accepted store is described by these equations. -/
theorem accepted_of_storeConclusion [UnicodeTables] [Sha256] (conclusions next : Conclusions)
    (update : FunctionConclusionUpdate) (touched : List String)
    (stored : storeConclusion conclusions update = .ok (next, touched)) :
    Accepted conclusions update next := by
  unfold storeConclusion at stored
  cases valid : validateVerifiedConclusion (mergeUpdate conclusions update) with
  | some reason => simp [valid] at stored
  | none =>
      simp only [valid, Except.ok.injEq, Prod.mk.injEq] at stored
      obtain ⟨rfl, -⟩ := stored
      have own : (markEnvironments (conclusions.insert update.function
          (mergeUpdate conclusions update)) update.function update.proofReceipt).lookup
            update.function = some (mergeUpdate conclusions update) := by
        rw [lookup_markEnvironments, AList.lookup_insert]
        cases update.proofReceipt with
        | none => rfl
        | some receipt => exact congrArg some (markEnvironment_self _ _ _)
      refine ⟨valid, ?_, ?_⟩
      · rw [markCallers, HashMap.lookup_sweep, own]
        exact congrArg some (markCaller_self _ _ _)
      · intro name different
        rw [markCallers, HashMap.lookup_sweep, lookup_markEnvironments,
          AList.lookup_insert_ne different, specsHashForFunction, own, Option.map_map]
        rfl

/-- An entry is the stored one or an old one with its marks. -/
theorem Accepted.entry_cases [UnicodeTables] [Sha256] {conclusions next : Conclusions}
    {update : FunctionConclusionUpdate} {name : String} {entry : FunctionVerificationState}
    (accepted : Accepted conclusions update next) (found : next.lookup name = some entry) :
    name = update.function ∧ mergeUpdate conclusions update = entry ∨
      name ≠ update.function ∧ ∃ old, conclusions.lookup name = some old ∧
        markedEntry conclusions update name old = entry := by
  by_cases stored : name = update.function
  · rw [stored, accepted.stored] at found
    exact .inl ⟨stored, Option.some.inj found⟩
  · rw [accepted.others name stored] at found
    exact .inr ⟨stored, Option.map_eq_some_iff.mp found⟩

theorem markedEntry_keeps [Sha256] (conclusions : Conclusions) (update : FunctionConclusionUpdate)
    (name : String) (entry : FunctionVerificationState) :
    KeepsEvidence entry (markedEntry conclusions update name entry) := by
  unfold markedEntry
  cases update.proofReceipt with
  | none => exact markCaller_keeps _ _ _ _
  | some receipt =>
      have first := markEnvironment_keeps update.function (proofEnvironmentHash receipt) name entry
      exact first.trans (markCaller_keeps _ _ _ _)

/-- A conclusion that stays verified gets no mark. -/
theorem markedEntry_verified [Sha256] (conclusions : Conclusions)
    (update : FunctionConclusionUpdate) (name : String) (entry : FunctionVerificationState)
    (verified : (markedEntry conclusions update name entry).status = .verified) :
    entry.status = .verified ∧
      (entry.staleDependencies = [] →
        (markedEntry conclusions update name entry).staleDependencies = []) ∧
      (entry.staleProofEnvironment = none →
        (markedEntry conclusions update name entry).staleProofEnvironment = none) := by
  unfold markedEntry at verified ⊢
  obtain ⟨before, fresh⟩ := markCaller_verified _ _ _ _ verified
  rw [markCaller_staleProofEnvironment]
  cases receipt : update.proofReceipt with
  | none =>
      simp only [receipt] at before fresh
      exact ⟨before, fresh, id⟩
  | some found =>
      simp only [receipt] at before fresh
      obtain ⟨first, unmarked⟩ := markEnvironment_verified _ _ _ _ before
      rw [markEnvironment_staleDependencies] at fresh
      exact ⟨first, fresh, unmarked⟩

/-- A session also knows the environment of its last accepted receipt. -/
structure Session where
  conclusions : Conclusions := ∅
  environment : Option String := none

/-- A refused store leaves the session as it is. -/
def step [UnicodeTables] [Sha256] (session : Session) (update : FunctionConclusionUpdate) :
    Session :=
  match storeConclusion session.conclusions update with
  | .ok (next, _) =>
      ⟨next, update.proofReceipt.map proofEnvironmentHash <|> session.environment⟩
  | .error _ => session

/-- Each session starts without conclusions. -/
def run [UnicodeTables] [Sha256] (updates : List FunctionConclusionUpdate) : Session :=
  updates.foldl step {}

/-- One step keeps the session or is an accepted store. -/
theorem step_cases [UnicodeTables] [Sha256] (session : Session)
    (update : FunctionConclusionUpdate) :
    step session update = session ∨
      ∃ next, Accepted session.conclusions update next ∧ step session update =
        ⟨next, update.proofReceipt.map proofEnvironmentHash <|> session.environment⟩ := by
  unfold step
  cases stored : storeConclusion session.conclusions update with
  | error reason => exact .inl rfl
  | ok result =>
      obtain ⟨next, touched⟩ := result
      exact .inr ⟨next, accepted_of_storeConclusion _ next update touched stored, rfl⟩

theorem step_of_valid [UnicodeTables] [Sha256] (session : Session)
    (update : FunctionConclusionUpdate)
    (valid : validateVerifiedConclusion (mergeUpdate session.conclusions update) = none) :
    ∃ next, Accepted session.conclusions update next ∧ step session update =
      ⟨next, update.proofReceipt.map proofEnvironmentHash <|> session.environment⟩ := by
  rcases stored : storeConclusion session.conclusions update with reason | ⟨next, touched⟩
  · simp [storeConclusion, valid] at stored
  · refine ⟨next, accepted_of_storeConclusion _ next update touched stored, ?_⟩
    simp [step, stored]

theorem storedEntry_of_lookup {conclusions : Conclusions} {function : String}
    {entry : FunctionVerificationState} (found : conclusions.lookup function = some entry) :
    storedEntry conclusions function = entry := by
  rw [storedEntry, found, Option.getD_some]

theorem step_other_status [UnicodeTables] [Sha256] (session : Session)
    (update : FunctionConclusionUpdate) (name : String) (different : name ≠ update.function)
    (unverified : (storedEntry session.conclusions name).status ≠ .verified) :
    (storedEntry (step session update).conclusions name).status ≠ .verified := by
  rcases step_cases session update with same | ⟨next, accepted, same⟩
  · rw [same]
    exact unverified
  · rw [same, storedEntry, accepted.others name different]
    cases found : session.conclusions.lookup name with
    | none => exact (by decide : VerificationStatus.inProgress ≠ .verified)
    | some entry =>
        rw [storedEntry_of_lookup found] at unverified
        exact fun verified => unverified (markedEntry_verified _ _ _ _ verified).1

theorem run_append [UnicodeTables] [Sha256] (taken : List FunctionConclusionUpdate)
    (update : FunctionConclusionUpdate) : run (taken ++ [update]) = step (run taken) update := by
  simp [run]

theorem run_invariant_of_steps [UnicodeTables] [Sha256] (invariant : Session → Prop)
    (empty : invariant {}) (updates : List FunctionConclusionUpdate)
    (preserved : ∀ taken next, taken ++ [next] <+: updates → invariant (run taken) →
      invariant (step (run taken) next)) : invariant (run updates) := by
  induction updates using List.reverseRecOn with
  | nil => exact empty
  | append_singleton taken update ih =>
      rw [run_append]
      refine preserved taken update (List.prefix_refl _) (ih ?_)
      exact fun earlier next part => preserved earlier next (part.trans (List.prefix_append _ _))

theorem run_invariant [UnicodeTables] [Sha256] (invariant : Session → Prop) (empty : invariant {})
    (preserved : ∀ session update, invariant session → invariant (step session update))
    (updates : List FunctionConclusionUpdate) : invariant (run updates) :=
  run_invariant_of_steps invariant empty updates fun taken next _ => preserved (run taken) next

end FramaCMcp.StoreRun
