/-
This file follows a conclusion from the change of a callee's contract to its next verification.
-/

import FramaCMcp.Proof.CalleeContracts

namespace FramaCMcp.Reverification

open Conclusion Store StoreRun Environment CalleeContracts WrittenReceipt

/-- The store of a recorded callee takes the verified status away. -/
structure DemotedBy [UnicodeTables] [Sha256] (session : Session)
    (update : FunctionConclusionUpdate) (function : String)
    (entry : FunctionVerificationState) : Prop where
  verified : ∃ before, session.conclusions.lookup function = some before ∧
    before.status = .verified
  found : (step session update).conclusions.lookup function = some entry
  demoted : entry.status ≠ .verified
  different : function ≠ update.function
  changed : ∃ recorded, entry.calleeSpecHashes.lookup update.function = some recorded ∧
    recorded ≠ specsHashForFunction (step session update).conclusions update.function

/-- Each other callee has the contract of the given hashes. -/
def ContractsBack [Sha256] (session : Session) (function : String) (hashes : HashMap String) :
    Prop :=
  ∀ callee recorded, callee ≠ function → hashes.lookup callee = some recorded →
    recorded = specsHashForFunction session.conclusions callee

/-- The store accepts a new receipt for the function. -/
structure ReceiptStored [UnicodeTables] [Sha256] (session : Session)
    (update : FunctionConclusionUpdate) (function : String) : Prop where
  own : update.function = function
  supplied : update.proofReceipt.isSome = true
  accepted : validateVerifiedConclusion (mergeUpdate session.conclusions update) = none

/-- An accepted store of a stale conclusion records the callees again only with a receipt. -/
def CalleesRecordedWithReceipt [UnicodeTables] [Sha256] (session : Session)
    (update : FunctionConclusionUpdate) (function : String) : Prop :=
  update.function = function →
    validateVerifiedConclusion (mergeUpdate session.conclusions update) = none →
    (storedEntry session.conclusions function).staleDependencies ≠ [] →
    update.callees.isSome = true → update.proofReceipt.isSome = true

/-- The store gives the function the verified status. -/
structure VerifiedBy [UnicodeTables] [Sha256] (session : Session)
    (update : FunctionConclusionUpdate) (function : String) : Prop where
  before : ∀ entry, session.conclusions.lookup function = some entry → entry.status ≠ .verified
  after : ∃ entry, (step session update).conclusions.lookup function = some entry ∧
    entry.status = .verified

/-- The conclusion still has a marker, and it still records these hashes. -/
def StillStale (session : Session) (function : String) (hashes : HashMap String) : Prop :=
  ∃ entry, session.conclusions.lookup function = some entry ∧ entry.staleDependencies ≠ [] ∧
    entry.calleeSpecHashes = hashes

/-- A conclusion has no marker where all its callees are back. -/
theorem staleDependencies_eq_nil_iff [Sha256] (session : Session) (marks : CalleesMarked session)
    (function : String) (entry : FunctionVerificationState)
    (found : session.conclusions.lookup function = some entry) :
    entry.staleDependencies = [] ↔ ContractsBack session function entry.calleeSpecHashes := by
  constructor
  · intro fresh callee recorded different hash
    by_contra changed
    have marked := (marks function entry found callee).mpr ⟨different, recorded, hash, changed⟩
    rw [fresh] at marked
    exact not_marked_nil callee marked
  · intro back
    apply List.eq_nil_iff_forall_not_mem.mpr
    intro marker member
    obtain ⟨different, recorded, hash, changed⟩ :=
      (marks function entry found marker.callee).mp ⟨marker, member, rfl⟩
    exact changed (back marker.callee recorded different hash)

theorem stillStale_step [UnicodeTables] [Sha256] (session : Session)
    (update : FunctionConclusionUpdate) (function : String) (hashes : HashMap String)
    (marks : CalleesMarked session) (stale : StillStale session function hashes)
    (recorded : CalleesRecordedWithReceipt session update function) :
    ReceiptStored session update function ∨
      ContractsBack (step session update) function hashes ∨
      StillStale (step session update) function hashes := by
  have nextMarks := calleesMarked_step session update marks
  rcases step_cases session update with same | ⟨next, accepted, same⟩
  · rw [same]
    exact .inr (.inr stale)
  · obtain ⟨entry, found, marked, rfl⟩ := stale
    by_cases own : update.function = function
    · subst own
      cases supplied : update.proofReceipt with
      | some receipt => exact .inl ⟨rfl, by simp [supplied], accepted.valid⟩
      | none =>
          have stored := storedEntry_of_lookup found
          have kept : update.callees = none := by
            by_contra given
            have receipt := recorded rfl accepted.valid (stored ▸ marked)
              (Option.isSome_iff_ne_none.mpr given)
            simp [supplied] at receipt
          refine .inr (.inr ⟨mergeUpdate session.conclusions update, ?_, ?_, ?_⟩)
          · rw [same, accepted.stored]
          · rw [mergeUpdate_staleDependencies, kept, stored]
            exact marked
          · rw [mergeUpdate_calleeSpecHashes, kept, stored]
    · have after : (step session update).conclusions.lookup function =
          some (markedEntry session.conclusions update function entry) := by
        rw [same, accepted.others function (Ne.symm own), found]
        rfl
      have hashes := (markedEntry_keeps session.conclusions update function entry).calleeSpecHashes
      by_cases fresh :
          (markedEntry session.conclusions update function entry).staleDependencies = []
      · have back := (staleDependencies_eq_nil_iff _ nextMarks function _ after).mp fresh
        rw [hashes] at back
        exact .inr (.inl back)
      · exact .inr (.inr ⟨_, after, fresh, hashes⟩)

/-- Only its own store gives a function the verified status. -/
theorem VerifiedBy.own [UnicodeTables] [Sha256] {session : Session}
    {update : FunctionConclusionUpdate} {function : String}
    (verified : VerifiedBy session update function) : update.function = function := by
  obtain ⟨before, after, found, status⟩ := verified
  rcases step_cases session update with same | ⟨next, accepted, same⟩
  · rw [same] at found
    exact absurd status (before after found)
  · by_contra different
    rw [same, accepted.others function (Ne.symm different)] at found
    obtain ⟨old, present, rfl⟩ := Option.map_eq_some_iff.mp found
    exact before old present (markedEntry_verified _ update function old status).1

/-- One of these stores supplies a receipt or brings the callees back. -/
def EvidenceRenewed [UnicodeTables] [Sha256] (base later : List FunctionConclusionUpdate)
    (function : String) (hashes : HashMap String) : Prop :=
  ∃ taken next, taken ++ [next] <+: later ∧
    (ReceiptStored (run (base ++ taken)) next function ∨
      ContractsBack (run (base ++ taken ++ [next])) function hashes)

theorem EvidenceRenewed.longer [UnicodeTables] [Sha256]
    {base later longer : List FunctionConclusionUpdate} {function : String}
    {hashes : HashMap String} (renewed : EvidenceRenewed base later function hashes)
    (part : later <+: longer) : EvidenceRenewed base longer function hashes := by
  obtain ⟨taken, next, shorter, event⟩ := renewed
  exact ⟨taken, next, shorter.trans part, event⟩

theorem run_stillStale [UnicodeTables] [Sha256] (base later : List FunctionConclusionUpdate)
    (function : String) (hashes : HashMap String)
    (stale : StillStale (run base) function hashes)
    (recorded : ∀ taken next, taken ++ [next] <+: later →
      CalleesRecordedWithReceipt (run (base ++ taken)) next function) :
    EvidenceRenewed base later function hashes ∨
      StillStale (run (base ++ later)) function hashes := by
  induction later using List.reverseRecOn with
  | nil =>
      rw [List.append_nil]
      exact .inr stale
  | append_singleton taken next ih =>
      have part : taken <+: taken ++ [next] := List.prefix_append _ _
      rcases ih fun earlier last shorter => recorded earlier last (shorter.trans part) with
        renewed | still
      · exact .inl (renewed.longer part)
      · have last := recorded taken next (List.prefix_refl _)
        have marks := run_calleesMarked (base ++ taken)
        rw [← List.append_assoc, run_append]
        rcases stillStale_step _ next function hashes marks still last with
          receipt | back | still
        · exact .inl ⟨taken, next, List.prefix_refl _, .inl receipt⟩
        · rw [← run_append] at back
          exact .inl ⟨taken, next, List.prefix_refl _, .inr back⟩
        · exact .inr still

theorem DemotedBy.stillStale [UnicodeTables] [Sha256] {earlier : List FunctionConclusionUpdate}
    {update : FunctionConclusionUpdate} {function : String} {entry : FunctionVerificationState}
    (demoted : DemotedBy (run earlier) update function entry) :
    StillStale (run (earlier ++ [update])) function entry.calleeSpecHashes := by
  obtain ⟨-, found, -, different, recorded, hash, changed⟩ := demoted
  have marks := run_calleesMarked (earlier ++ [update])
  rw [← run_append] at found changed
  refine ⟨entry, found, ?_, rfl⟩
  intro fresh
  have back := (staleDependencies_eq_nil_iff _ marks function entry found).mp fresh
  exact changed (back update.function recorded (Ne.symm different) hash)

/-- A demoted conclusion is verified again by its own store and on renewed evidence. -/
theorem run_reverified [UnicodeTables] [Sha256] (earlier later : List FunctionConclusionUpdate)
    (update last : FunctionConclusionUpdate) (function : String)
    (entry : FunctionVerificationState)
    (demoted : DemotedBy (run earlier) update function entry)
    (again : VerifiedBy (run (earlier ++ [update] ++ later)) last function)
    (recorded : ∀ taken next, taken ++ [next] <+: later ++ [last] →
      CalleesRecordedWithReceipt (run (earlier ++ [update] ++ taken)) next function) :
    last.function = function ∧
      EvidenceRenewed (earlier ++ [update]) (later ++ [last]) function entry.calleeSpecHashes := by
  refine ⟨again.own, ?_⟩
  rcases run_stillStale _ _ function _ demoted.stillStale recorded with renewed | still
  · exact renewed
  · obtain ⟨stale, present, marked, -⟩ := still
    obtain ⟨after, found, verified⟩ := again.after
    rw [← List.append_assoc, run_append] at present
    rw [present, Option.some.injEq] at found
    subst found
    have marks := environmentMarked_step _ last (run_invariant EnvironmentMarked
      environmentMarked_empty environmentMarked_step (earlier ++ [update] ++ later))
    exact absurd (marks.fresh function stale present verified).2.2 marked

/-- A verified caller that records another contract is demoted. -/
theorem demotedBy_of_changed [UnicodeTables] [Sha256] (earlier : List FunctionConclusionUpdate)
    (update : FunctionConclusionUpdate) (function : String)
    (entry : FunctionVerificationState)
    (verified : ∃ before, (run earlier).conclusions.lookup function = some before ∧
      before.status = .verified)
    (found : (step (run earlier) update).conclusions.lookup function = some entry)
    (different : function ≠ update.function) (recorded : String)
    (hash : entry.calleeSpecHashes.lookup update.function = some recorded)
    (changed : recorded ≠
      specsHashForFunction (step (run earlier) update).conclusions update.function) :
    DemotedBy (run earlier) update function entry := by
  refine ⟨verified, found, ?_, different, recorded, hash, changed⟩
  intro again
  have callees := calleesMarked_step _ update (run_calleesMarked earlier)
  have marks := environmentMarked_step _ update (run_invariant EnvironmentMarked
    environmentMarked_empty environmentMarked_step earlier)
  have fresh := (marks.fresh function entry found again).2.2
  have back := (staleDependencies_eq_nil_iff _ callees function entry found).mp fresh
  exact changed (back update.function recorded (Ne.symm different) hash)

/-- This store proves a function under the current contract of its callee. -/
def callerStore [Sha256] : FunctionConclusionUpdate where
  function := "f"
  status := some .verified
  wpSummary := some ⟨1, 1, 0, 0, 0⟩
  callees := some ["g"]
  proofReceipt := some (writtenReceipt (provedBody "f") "")

/-- This store changes the contract of the callee. -/
def calleeStore (specs : List AnnotationEntry) : FunctionConclusionUpdate where
  function := "g"
  specs := some specs

/-- This store asks for the verified status and nothing else. -/
def statusStore : FunctionConclusionUpdate where
  function := "f"
  status := some .verified

structure CallerProved [UnicodeTables] [Sha256] (session : Session)
    (entry : FunctionVerificationState) (recorded : String) : Prop where
  found : session.conclusions.lookup "f" = some entry
  verified : entry.status = .verified
  evidence : HasEvidence entry
  hash : ∀ callee, entry.calleeSpecHashes.lookup callee =
    if callee ∈ ["g"] then some recorded else none

structure CallerKept [UnicodeTables] [Sha256] (session : Session)
    (proved : FunctionVerificationState) (specs : List AnnotationEntry) : Prop where
  found : ∃ entry, session.conclusions.lookup "f" = some entry ∧ KeepsEvidence proved entry ∧
    entry.staleProofEnvironment = none
  callee : specsHashForFunction session.conclusions "g" = specsHash specs
  idle : (storedEntry session.conclusions "g").status ≠ .verified

theorem callerStore_proved [UnicodeTables] [Sha256] (session : Session)
    (named : (storedEntry session.conclusions "f").function = "f") :
    CallerProved (step session callerStore) (mergeUpdate session.conclusions callerStore)
      (specsHashForFunction session.conclusions "g") := by
  have valid := valid_of_evidence session.conclusions callerStore named rfl rfl rfl
  obtain ⟨next, accepted, same⟩ := step_of_valid session callerStore valid
  have verified : (mergeUpdate session.conclusions callerStore).status = .verified :=
    mergeUpdate_status _ _
  refine ⟨?_, verified, (validateVerifiedConclusion_eq_none_iff _).mp valid verified, ?_⟩
  · rw [same]
    exact accepted.stored
  · intro callee
    rw [mergeUpdate_calleeSpecHashes]
    simp only [callerStore]
    rw [HashMap.lookup_ofList_map]
    by_cases own : callee = "g" <;> simp [own]

/-- The callee's store changes its contract and leaves the caller's evidence alone. -/
theorem calleeStore_kept [UnicodeTables] [Sha256] (session : Session)
    (entry : FunctionVerificationState) (specs : List AnnotationEntry)
    (found : session.conclusions.lookup "f" = some entry)
    (current : entry.staleProofEnvironment = none)
    (idle : (storedEntry session.conclusions "g").status ≠ .verified) :
    CallerKept (step session (calleeStore specs)) entry specs := by
  have status : (mergeUpdate session.conclusions (calleeStore specs)).status ≠ .verified := by
    rw [mergeUpdate_status]
    exact idle
  have valid : validateVerifiedConclusion
      (mergeUpdate session.conclusions (calleeStore specs)) = none :=
    (validateVerifiedConclusion_eq_none_iff _).mpr fun verified => absurd verified status
  obtain ⟨next, accepted, same⟩ := step_of_valid session (calleeStore specs) valid
  have caller : next.lookup "f" =
      some (markedEntry session.conclusions (calleeStore specs) "f" entry) := by
    rw [accepted.others "f" (by simp [calleeStore]), found]
    rfl
  rw [same]
  refine ⟨⟨_, caller, markedEntry_keeps _ _ _ entry, ?_⟩, ?_, ?_⟩
  · rw [markedEntry, markCaller_staleProofEnvironment]
    exact current
  · rw [specsHashForFunction_accepted _ _ _ accepted]
    rfl
  · have stored := storedEntry_of_lookup accepted.stored
    exact stored ▸ status

/-- This is the caller's conclusion after its proof. -/
def provedCaller [Sha256] : FunctionVerificationState := mergeUpdate ∅ callerStore

theorem run_callerStore [UnicodeTables] [Sha256] :
    CallerProved (run [callerStore]) provedCaller (specsHash []) := by
  have proved := callerStore_proved (run []) rfl
  rw [← run_append] at proved
  exact proved

/-- The contract of the callee changes after the caller's proof. -/
theorem run_calleeStore [UnicodeTables] [Sha256] (specs : List AnnotationEntry) :
    CallerKept (run ([callerStore] ++ [calleeStore specs])) provedCaller specs := by
  have idle : (storedEntry (run ([] ++ [callerStore])).conclusions "g").status ≠ .verified := by
    rw [run_append]
    exact step_other_status (run []) callerStore "g" (by simp [callerStore])
      (by decide : VerificationStatus.inProgress ≠ .verified)
  have proved := run_callerStore
  rw [run_append]
  exact calleeStore_kept _ _ specs proved.found proved.evidence.current idle

/-- The change of its callee demotes the caller that was proved. -/
theorem caller_demoted [UnicodeTables] [Sha256] (different : specsHash [] ≠ specsHash [zeroClause]) :
    ∃ entry, DemotedBy (run [callerStore]) (calleeStore [zeroClause]) "f" entry := by
  have proved := run_callerStore
  have kept := run_calleeStore [zeroClause]
  rw [run_append] at kept
  obtain ⟨entry, found, marks, -⟩ := kept.found
  refine ⟨entry, demotedBy_of_changed [callerStore] (calleeStore [zeroClause]) "f" entry
    ⟨_, proved.found, proved.verified⟩ found (by simp [calleeStore]) (specsHash []) ?_ ?_⟩
  · rw [marks.calleeSpecHashes]
    exact proved.hash "g"
  · exact fun same => different (same.trans kept.callee)

theorem statusStore_accepted [UnicodeTables] [Sha256] (session : Session)
    (evidence : HasEvidence (storedEntry session.conclusions "f")) :
    ∃ entry, (step session statusStore).conclusions.lookup "f" = some entry ∧
      entry.status = .verified := by
  have kept : KeepsEvidence (storedEntry session.conclusions "f")
      (mergeUpdate session.conclusions statusStore) := ⟨rfl, rfl, rfl, rfl, rfl, rfl, rfl⟩
  have merged : HasEvidence (mergeUpdate session.conclusions statusStore) :=
    evidence.of_kept kept evidence.fresh evidence.current
  have valid := (validateVerifiedConclusion_eq_none_iff _).mpr fun _ => merged
  obtain ⟨next, accepted, same⟩ := step_of_valid session statusStore valid
  refine ⟨mergeUpdate session.conclusions statusStore, ?_, rfl⟩
  rw [same]
  exact accepted.stored

/-- The caller is verified again once its callee has its old contract. -/
theorem statusStore_verifies [UnicodeTables] [Sha256]
    (different : specsHash [] ≠ specsHash [zeroClause]) :
    VerifiedBy (run ([callerStore] ++ [calleeStore [zeroClause]] ++ [calleeStore []])) statusStore
      "f" := by
  have first := run_calleeStore [zeroClause]
  have callees := run_calleesMarked
    ([callerStore] ++ [calleeStore [zeroClause]] ++ [calleeStore []])
  rw [run_append _ (calleeStore [])] at callees ⊢
  obtain ⟨changed, changedFound, changedMarks, current⟩ := first.found
  have second := calleeStore_kept _ _ [] changedFound current first.idle
  obtain ⟨entry, found, marks, unmarked⟩ := second.found
  have kept := changedMarks.trans marks
  have fresh : entry.staleDependencies = [] := by
    apply (staleDependencies_eq_nil_iff _ callees "f" entry found).mpr
    intro callee recorded _ hash
    rw [kept.calleeSpecHashes, run_callerStore.hash] at hash
    split_ifs at hash with own
    rw [List.mem_singleton.mp own]
    exact (Option.some.inj hash).symm.trans second.callee.symm
  have stored := storedEntry_of_lookup found
  constructor
  · intro again present
    obtain ⟨demoted, before⟩ := caller_demoted different
    have unverified := before.demoted
    rw [← storedEntry_of_lookup before.found, ← run_append] at unverified
    rw [← storedEntry_of_lookup present]
    exact step_other_status _ (calleeStore []) "f" (by simp [calleeStore]) unverified
  · exact statusStore_accepted _ (stored ▸ run_callerStore.evidence.of_kept kept fresh unmarked)

/-- A conclusion is verified again without a new receipt. -/
theorem not_receiptAtOnce :
    ¬ ∀ [UnicodeTables] [Sha256] (earlier later : List FunctionConclusionUpdate)
      (update last : FunctionConclusionUpdate) (function : String)
      (entry : FunctionVerificationState), DemotedBy (run earlier) update function entry →
      VerifiedBy (run (earlier ++ [update] ++ later)) last function →
      last.function = function ∧ last.proofReceipt.isSome = true := by
  intro receiptAtOnce
  obtain ⟨entry, demoted⟩ := @caller_demoted .ascii zeroDigests zeroDigests_ne
  have again := @statusStore_verifies .ascii zeroDigests zeroDigests_ne
  have supplied := @receiptAtOnce .ascii zeroDigests _ _ _ _ _ _ demoted again
  exact absurd supplied.2 (by decide)

/-- A second proof of the caller is accepted after the change of its callee. -/
theorem callerStore_verifies [UnicodeTables] [Sha256]
    (different : specsHash [] ≠ specsHash [zeroClause]) :
    VerifiedBy (run ([callerStore] ++ [calleeStore [zeroClause]])) callerStore "f" := by
  obtain ⟨changed, found, kept, -⟩ := (run_calleeStore [zeroClause]).found
  constructor
  · intro entry present
    obtain ⟨demoted, before⟩ := caller_demoted different
    rw [run_append, before.found, Option.some.injEq] at present
    exact present ▸ before.demoted
  · have named : (storedEntry (run ([callerStore] ++ [calleeStore [zeroClause]])).conclusions
        "f").function = "f" := by
      rw [storedEntry_of_lookup found, kept.function, provedCaller, mergeUpdate_function]
      rfl
    have again := callerStore_proved _ named
    exact ⟨_, again.found, again.verified⟩

/-- The caller is proved again under the new contract of its callee. -/
theorem run_reverified_proved : ∃ entry : FunctionVerificationState,
    (@callerStore zeroDigests).function = "f" ∧
      @EvidenceRenewed .ascii zeroDigests ([@callerStore zeroDigests] ++ [calleeStore [zeroClause]])
        ([] ++ [@callerStore zeroDigests]) "f" entry.calleeSpecHashes := by
  obtain ⟨entry, demoted⟩ := @caller_demoted .ascii zeroDigests zeroDigests_ne
  have again := @callerStore_verifies .ascii zeroDigests zeroDigests_ne
  refine ⟨entry, @run_reverified .ascii zeroDigests [@callerStore zeroDigests] []
    (calleeStore [zeroClause]) (@callerStore zeroDigests) "f" entry demoted
    (by rwa [List.append_nil]) ?_⟩
  intro taken next part own valid stale callees
  have last : next ∈ [@callerStore zeroDigests] :=
    part.subset (List.mem_append_right _ (List.mem_singleton_self next))
  rw [List.mem_singleton.mp last]
  rfl

end FramaCMcp.Reverification
