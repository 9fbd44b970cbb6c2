/-
This file shows when the verified conclusions of a session record the current callee contracts.
-/

import FramaCMcp.Proof.Environment
import FramaCMcp.Proof.WrittenReceipt

namespace FramaCMcp.CalleeContracts

open Conclusion Store StoreRun Environment WrittenReceipt

/-- This predicate says that a callee has a marker. -/
def Marked (stale : List StaleDependency) (callee : String) : Prop :=
  ∃ marker ∈ stale, marker.callee = callee

theorem not_marked_nil (callee : String) : ¬ Marked [] callee := by
  simp [Marked]

theorem marked_refreshMarker (marker : StaleDependency) (stale : List StaleDependency)
    (callee : String) (present : Marked stale marker.callee) :
    Marked (refreshMarker marker stale) callee ↔ Marked stale callee := by
  induction stale with
  | nil => exact absurd present (not_marked_nil _)
  | cons head rest ih =>
      unfold refreshMarker
      split_ifs with same
      · simp [Marked, same]
      · have later : Marked rest marker.callee := by
          simpa [Marked, same] using present
        have rest := ih later
        simp only [Marked, List.mem_cons, exists_eq_or_imp] at rest ⊢
        rw [rest]

/-- The stored function is marked exactly where its contract changed. -/
theorem marked_markers_self (function recorded current : String) (stale : List StaleDependency) :
    Marked (markers function recorded current stale) function ↔ recorded ≠ current := by
  unfold markers
  split_ifs with same found
  · simp [Marked, same]
  · have present : Marked stale function := by simpa [Marked] using found
    rw [marked_refreshMarker ⟨function, recorded, current⟩ stale function present]
    simp [present, same]
  · simp [Marked, same]

theorem marked_markers_other (function recorded current callee : String)
    (stale : List StaleDependency) (different : callee ≠ function) :
    Marked (markers function recorded current stale) callee ↔ Marked stale callee := by
  unfold markers
  split_ifs with same found
  · constructor
    · rintro ⟨marker, member, rfl⟩
      exact ⟨marker, (List.mem_filter.mp member).1, rfl⟩
    · rintro ⟨marker, member, rfl⟩
      exact ⟨marker, List.mem_filter.mpr ⟨member, by simpa using different⟩, rfl⟩
  · have present : Marked stale function := by simpa [Marked] using found
    exact marked_refreshMarker ⟨function, recorded, current⟩ stale callee present
  · simp [Marked, different.symm]

/-- The store changes the contract of one function. -/
theorem specsHashForFunction_accepted [UnicodeTables] [Sha256] (conclusions next : Conclusions)
    (update : FunctionConclusionUpdate) (accepted : Accepted conclusions update next)
    (callee : String) :
    specsHashForFunction next callee =
      if callee = update.function then specsHash (mergeUpdate conclusions update).specs
      else specsHashForFunction conclusions callee := by
  unfold specsHashForFunction
  split_ifs with same
  · rw [same, accepted.stored]
  · rw [accepted.others callee same]
    cases conclusions.lookup callee with
    | none => rfl
    | some entry =>
        exact congrArg specsHash (markedEntry_keeps conclusions update callee entry).specs

theorem markedEntry_staleDependencies [Sha256] (conclusions : Conclusions)
    (update : FunctionConclusionUpdate) (name : String) (entry : FunctionVerificationState)
    (different : name ≠ update.function) :
    (markedEntry conclusions update name entry).staleDependencies =
      match entry.calleeSpecHashes.lookup update.function with
      | none => entry.staleDependencies
      | some recorded => markers update.function recorded
          (specsHash (mergeUpdate conclusions update).specs) entry.staleDependencies := by
  unfold markedEntry
  rw [markCaller_staleDependencies _ _ _ _ different]
  cases update.proofReceipt with
  | none => rfl
  | some receipt =>
      have kept := markEnvironment_keeps update.function (proofEnvironmentHash receipt) name entry
      cases recorded : entry.calleeSpecHashes.lookup update.function <;>
        simp only [kept.calleeSpecHashes, markEnvironment_staleDependencies, recorded]

/-- A conclusion marks exactly the other callees whose contract is not the recorded one. -/
def EntryMarked [Sha256] (conclusions : Conclusions) (name : String)
    (entry : FunctionVerificationState) : Prop :=
  ∀ callee, Marked entry.staleDependencies callee ↔ callee ≠ name ∧
    ∃ recorded, entry.calleeSpecHashes.lookup callee = some recorded ∧
      recorded ≠ specsHashForFunction conclusions callee

def CalleesMarked [Sha256] (session : Session) : Prop :=
  ∀ name entry, session.conclusions.lookup name = some entry →
    EntryMarked session.conclusions name entry

theorem entryMarked_empty [Sha256] (conclusions : Conclusions) (name function : String) :
    EntryMarked conclusions name (emptyConclusionStatic function) := by
  intro callee
  simp [emptyConclusionStatic, Marked]

/-- The stored conclusion marks no callee that it records again. -/
theorem mergeUpdate_marked [Sha256] (session : Session) (update : FunctionConclusionUpdate)
    (before : CalleesMarked session) :
    EntryMarked session.conclusions update.function (mergeUpdate session.conclusions update) := by
  intro callee
  rw [mergeUpdate_staleDependencies, mergeUpdate_calleeSpecHashes]
  cases recordedAgain : update.callees with
  | some callees =>
      simp [HashMap.lookup_ofList_map, Marked]
  | none =>
      simp only [Option.isSome_none, Bool.false_eq_true, if_false]
      rcases storedEntry_cases session.conclusions update.function with stored | empty
      · exact before update.function _ stored callee
      · rw [empty]
        exact entryMarked_empty session.conclusions _ _ callee

/-- One store keeps the marks of all callees. -/
theorem calleesMarked_step [UnicodeTables] [Sha256] (session : Session)
    (update : FunctionConclusionUpdate) (before : CalleesMarked session) :
    CalleesMarked (step session update) := by
  rcases step_cases session update with same | ⟨next, accepted, same⟩
  · rw [same]
    exact before
  · rw [same]
    intro name entry found callee
    simp only [specsHashForFunction_accepted _ _ _ accepted]
    rcases accepted.entry_cases found with ⟨rfl, rfl⟩ | ⟨stored, old, present, rfl⟩
    · rw [mergeUpdate_marked session update before callee]
      apply and_congr_right
      intro different
      rw [if_neg different]
    · rw [markedEntry_staleDependencies _ _ _ _ stored,
        (markedEntry_keeps session.conclusions update name old).calleeSpecHashes]
      have marks := before name old present callee
      by_cases changed : callee = update.function
      · subst changed
        rw [if_pos rfl]
        cases hash : old.calleeSpecHashes.lookup update.function with
        | none => simpa [hash] using marks
        | some recorded =>
            rw [marked_markers_self]
            simp [Ne.symm stored]
      · rw [if_neg changed, ← marks]
        cases old.calleeSpecHashes.lookup update.function with
        | none => rfl
        | some recorded => exact marked_markers_other _ _ _ _ _ changed

theorem run_calleesMarked [UnicodeTables] [Sha256] (updates : List FunctionConclusionUpdate) :
    CalleesMarked (run updates) := by
  apply run_invariant CalleesMarked _ calleesMarked_step
  intro name entry found
  simp at found

/-- Each verified conclusion records the current contract of each callee. -/
def Coherent [Sha256] (session : Session) : Prop :=
  ∀ name entry, session.conclusions.lookup name = some entry → entry.status = .verified →
    ∀ callee recorded, entry.calleeSpecHashes.lookup callee = some recorded →
      recorded = specsHashForFunction session.conclusions callee

/-- This is the hash that a store leaves under the name of its own function. -/
def ownRecordedHash [Sha256] (conclusions : Conclusions) (update : FunctionConclusionUpdate) :
    Option String :=
  match update.callees with
  | some callees =>
      if update.function ∈ callees then some (specsHashForFunction conclusions update.function)
      else none
  | none => (storedEntry conclusions update.function).calleeSpecHashes.lookup update.function

/-- A function that calls itself keeps the contract that it has recorded. -/
def SelfCallKept [Sha256] (conclusions : Conclusions) (update : FunctionConclusionUpdate) : Prop :=
  update.status.getD (storedEntry conclusions update.function).status = .verified →
    ∀ recorded, ownRecordedHash conclusions update = some recorded →
      recorded = specsHash (update.specs.getD (storedEntry conclusions update.function).specs)

theorem mergeUpdate_ownHash [Sha256] (conclusions : Conclusions)
    (update : FunctionConclusionUpdate) :
    (mergeUpdate conclusions update).calleeSpecHashes.lookup update.function =
      ownRecordedHash conclusions update := by
  rw [mergeUpdate_calleeSpecHashes, ownRecordedHash]
  cases update.callees with
  | none => rfl
  | some callees => exact HashMap.lookup_ofList_map callees _ update.function

/-- A self call is judged by the stored conclusion alone. -/
theorem selfCallKept_iff [Sha256] (conclusions : Conclusions)
    (update : FunctionConclusionUpdate) :
    SelfCallKept conclusions update ↔ ((mergeUpdate conclusions update).status = .verified →
      ∀ recorded, (mergeUpdate conclusions update).calleeSpecHashes.lookup update.function =
        some recorded → recorded = specsHash (mergeUpdate conclusions update).specs) := by
  rw [SelfCallKept, mergeUpdate_status, mergeUpdate_specs, mergeUpdate_ownHash]

/-- Each verified conclusion that records itself records its own current contract. -/
def SelfCallsCoherent [Sha256] (session : Session) : Prop :=
  ∀ name entry, session.conclusions.lookup name = some entry → entry.status = .verified →
    ∀ recorded, entry.calleeSpecHashes.lookup name = some recorded →
      recorded = specsHash entry.specs

theorem selfCallsCoherent_step [UnicodeTables] [Sha256] (session : Session)
    (update : FunctionConclusionUpdate) (before : SelfCallsCoherent session)
    (kept : validateVerifiedConclusion (mergeUpdate session.conclusions update) = none →
      SelfCallKept session.conclusions update) :
    SelfCallsCoherent (step session update) := by
  rcases step_cases session update with same | ⟨next, accepted, same⟩
  · rw [same]
    exact before
  · rw [same]
    intro name entry found verified
    rcases accepted.entry_cases found with ⟨rfl, rfl⟩ | ⟨stored, old, present, rfl⟩
    · exact (selfCallKept_iff _ _).mp (kept accepted.valid) verified
    · have marks := markedEntry_keeps session.conclusions update name old
      rw [marks.calleeSpecHashes, marks.specs]
      exact before name old present (markedEntry_verified _ update name old verified).1

/-- Only a self call can record another contract in a verified conclusion. -/
theorem coherent_iff [UnicodeTables] [Sha256] (session : Session)
    (callees : CalleesMarked session) (environment : EnvironmentMarked session) :
    Coherent session ↔ SelfCallsCoherent session := by
  have own (name : String) (entry : FunctionVerificationState)
      (found : session.conclusions.lookup name = some entry) :
      specsHashForFunction session.conclusions name = specsHash entry.specs := by
    rw [specsHashForFunction, found]
  constructor
  · intro coherent name entry found verified recorded hash
    rw [← own name entry found]
    exact coherent name entry found verified name recorded hash
  · intro selfCalls name entry found verified callee recorded hash
    by_cases same : callee = name
    · subst same
      rw [own callee entry found]
      exact selfCalls callee entry found verified recorded hash
    · by_contra different
      have marked := (callees name entry found callee).mpr ⟨same, recorded, hash, different⟩
      rw [(environment.fresh name entry found verified).2.2] at marked
      exact not_marked_nil callee marked

/-- Each accepted store of a run keeps the contract of its own function. -/
def SelfCallsKept [UnicodeTables] [Sha256] (updates : List FunctionConclusionUpdate) : Prop :=
  ∀ taken update, taken ++ [update] <+: updates →
    validateVerifiedConclusion (mergeUpdate (run taken).conclusions update) = none →
    SelfCallKept (run taken).conclusions update

theorem run_selfCallsCoherent [UnicodeTables] [Sha256] (updates : List FunctionConclusionUpdate)
    (kept : SelfCallsKept updates) : SelfCallsCoherent (run updates) := by
  induction updates using List.reverseRecOn with
  | nil =>
      intro name entry found
      simp [run] at found
  | append_singleton taken update ih =>
      rw [run_append]
      apply selfCallsCoherent_step
      · exact ih fun earlier next part => kept earlier next (part.trans (List.prefix_append _ _))
      · exact kept taken update (List.prefix_refl _)

/-- A run is coherent throughout exactly where no accepted store changes a recorded self call. -/
theorem run_coherent_iff [UnicodeTables] [Sha256] (updates : List FunctionConclusionUpdate) :
    (∀ taken, taken <+: updates → Coherent (run taken)) ↔ SelfCallsKept updates := by
  have marked (taken : List FunctionConclusionUpdate) :
      Coherent (run taken) ↔ SelfCallsCoherent (run taken) :=
    coherent_iff _ (run_calleesMarked taken) (run_invariant EnvironmentMarked
      environmentMarked_empty environmentMarked_step taken)
  constructor
  · intro coherent taken update part valid
    have after := (marked _).mp (coherent (taken ++ [update]) part)
    obtain ⟨next, accepted, same⟩ := step_of_valid (run taken) update valid
    rw [run_append, same] at after
    exact (selfCallKept_iff _ _).mpr (after update.function _ accepted.stored)
  · intro kept taken part
    apply (marked taken).mpr
    apply run_selfCallsCoherent
    exact fun earlier next shorter => kept earlier next (shorter.trans part)

/-- This is the contract of a function that returns zero. -/
def zeroClause : AnnotationEntry where
  hashLabel := "en_0badcafe"
  kind := "spec"
  acsl := "ensures \\result == 0;"
  derivedFrom := "proposed_ensures[0]"
  purpose := "contract"

/-- These are the digests of no contract and of this one. -/
abbrev zeroDigests : Sha256 := .ofTable
  [("[]", "4f53cda18c2baa0c0354bb5f9a3ecbe5ed12ab4d8e11ba873c2f11161202b945"),
    ((Json.arr [zeroClause.toJson]).render,
      "f423a4ac6ceddcc69a974b3f463a1b192fcb6edeaa24c70fd92860e1e88b741d")] rfl

theorem zeroDigests_ne : @specsHash zeroDigests [] ≠ @specsHash zeroDigests [zeroClause] := by
  have none : @specsHash zeroDigests [] =
      "4f53cda18c2baa0c0354bb5f9a3ecbe5ed12ab4d8e11ba873c2f11161202b945" :=
    (Sha256.hexText_ofTable _ _ _).trans rfl
  have different : "[]" ≠ (Json.arr [zeroClause.toJson]).render :=
    Json.render_ne (.arr []) (.arr [zeroClause.toJson]) (by decide)
  have zero : @specsHash zeroDigests [zeroClause] =
      "f423a4ac6ceddcc69a974b3f463a1b192fcb6edeaa24c70fd92860e1e88b741d" := by
    apply (Sha256.hexText_ofTable _ _ _).trans
    simp [different]
  rw [none, zero]
  decide

/-- A store with a whole evidence is accepted. -/
theorem valid_of_evidence [UnicodeTables] [Sha256] (conclusions : Conclusions)
    (update : FunctionConclusionUpdate)
    (named : (storedEntry conclusions update.function).function = update.function)
    (callees : update.callees.isSome = true) (summary : update.wpSummary = some ⟨1, 1, 0, 0, 0⟩)
    (receipt : update.proofReceipt = some (writtenReceipt (provedBody update.function) "")) :
    validateVerifiedConclusion (mergeUpdate conclusions update) = none := by
  apply (validateVerifiedConclusion_eq_none_iff _).mpr
  intro _
  have dependencies := mergeUpdate_staleDependencies conclusions update
  have environment := mergeUpdate_environment_replaced conclusions update _ receipt
  rw [if_pos callees] at dependencies
  refine ⟨dependencies, environment.2, mergeUpdate_hashed conclusions update callees,
    ⟨1, 1, 0, 0, 0⟩, writtenReceipt (provedBody update.function) "", ?_, by decide, ?_, ?_⟩
  · rw [mergeUpdate_wpSummary, summary]
    rfl
  · rw [mergeUpdate_proofReceipt, receipt]
    rfl
  · rw [mergeUpdate_function, named]
    exact evidence_provedBody update.function

/-- This store proves a function that calls itself and gives its contract at once. -/
def recursiveStore [Sha256] : FunctionConclusionUpdate where
  function := "f"
  status := some .verified
  specs := some [zeroClause]
  wpSummary := some ⟨1, 1, 0, 0, 0⟩
  callees := some ["f"]
  proofReceipt := some (writtenReceipt (provedBody "f") "")

/-- The recursive function records that it has no contract. -/
theorem recursiveStore_hashes [UnicodeTables] [Sha256]
    (coherent : Coherent (run [recursiveStore])) : specsHash [] = specsHash [zeroClause] := by
  have valid := valid_of_evidence ∅ recursiveStore rfl rfl rfl rfl
  obtain ⟨next, accepted, same⟩ := step_of_valid {} recursiveStore valid
  have after : Coherent (step {} recursiveStore) := coherent
  rw [same] at after
  have verified : (mergeUpdate ∅ recursiveStore).status = .verified := mergeUpdate_status _ _
  have own : (mergeUpdate ∅ recursiveStore).calleeSpecHashes.lookup "f" = some (specsHash []) :=
    mergeUpdate_ownHash ∅ recursiveStore
  have specs : (mergeUpdate ∅ recursiveStore).specs = [zeroClause] := mergeUpdate_specs _ _
  have current : specsHashForFunction next "f" = specsHash (mergeUpdate ∅ recursiveStore).specs :=
    (specsHashForFunction_accepted _ _ _ accepted "f").trans (if_pos rfl)
  have recorded := after "f" _ accepted.stored verified "f" _ own
  rwa [current, specs] at recorded

/-- A recursive function is hashed before its own specs are stored. -/
theorem not_coherent :
    ¬ ∀ [UnicodeTables] [Sha256] (updates : List FunctionConclusionUpdate),
      Coherent (run updates) :=
  fun coherent => zeroDigests_ne
    (@recursiveStore_hashes .ascii zeroDigests (@coherent .ascii zeroDigests _))

end FramaCMcp.CalleeContracts
