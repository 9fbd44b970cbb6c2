/-
This file shows that all verified conclusions of a session share one proof environment.
-/

import FramaCMcp.Proof.StoreRun

namespace FramaCMcp.Environment

open Conclusion Store StoreRun

/-- The session marks each conclusion against the environment of its last accepted receipt. -/
structure EnvironmentMarked (session : Session) : Prop where
  evidence : ∀ name entry, session.conclusions.lookup name = some entry →
    entry.proofReceipt.isSome = true → entry.proofEnvHash.isSome = true
  marked : ∀ name entry hash, session.conclusions.lookup name = some entry →
    entry.proofEnvHash = some hash → session.environment.isSome = true ∧
      (entry.staleProofEnvironment.isSome = true ↔ session.environment ≠ some hash)
  fresh : ∀ name entry, session.conclusions.lookup name = some entry →
    entry.status = .verified → entry.proofReceipt.isSome = true ∧
      entry.staleProofEnvironment = none ∧ entry.staleDependencies = []

theorem environmentMarked_empty : EnvironmentMarked {} := by
  constructor <;> intros <;> simp_all

theorem storedEntry_cases (conclusions : Conclusions) (function : String) :
    conclusions.lookup function = some (storedEntry conclusions function) ∨
      storedEntry conclusions function = emptyConclusionStatic function := by
  unfold storedEntry
  cases conclusions.lookup function with
  | none => exact .inr rfl
  | some entry => exact .inl rfl

theorem merged_marked [UnicodeTables] [Sha256] (session : Session)
    (update : FunctionConclusionUpdate) (before : EnvironmentMarked session) (hash : String)
    (recorded : (mergeUpdate session.conclusions update).proofEnvHash = some hash) :
    let next := update.proofReceipt.map proofEnvironmentHash <|> session.environment
    next.isSome = true ∧
      ((mergeUpdate session.conclusions update).staleProofEnvironment.isSome = true ↔
        next ≠ some hash) := by
  cases supplied : update.proofReceipt with
  | some receipt =>
      obtain ⟨own, unmarked⟩ := mergeUpdate_environment_replaced session.conclusions update
        receipt supplied
      rw [own] at recorded
      simp [unmarked, recorded]
  | none =>
      obtain ⟨own, mark⟩ := mergeUpdate_environment_kept session.conclusions update supplied
      rw [own] at recorded
      rw [mark]
      rcases storedEntry_cases session.conclusions update.function with stored | empty
      · exact before.marked update.function _ hash stored recorded
      · simp [empty, emptyConclusionStatic] at recorded

theorem markedEntry_marked [UnicodeTables] [Sha256] (session : Session)
    (update : FunctionConclusionUpdate) (before : EnvironmentMarked session) (name : String)
    (entry : FunctionVerificationState) (different : name ≠ update.function)
    (found : session.conclusions.lookup name = some entry) (hash : String)
    (recorded : entry.proofEnvHash = some hash) :
    let next := update.proofReceipt.map proofEnvironmentHash <|> session.environment
    next.isSome = true ∧
      ((markedEntry session.conclusions update name entry).staleProofEnvironment.isSome = true ↔
        next ≠ some hash) := by
  rw [markedEntry, markCaller_staleProofEnvironment]
  cases update.proofReceipt with
  | some receipt =>
      refine ⟨rfl, ?_⟩
      rw [markEnvironment_marks _ _ _ entry different hash recorded]
      simp [ne_comm]
  | none => exact before.marked name entry hash found recorded

/-- One store keeps the marks of the session. -/
theorem environmentMarked_step [UnicodeTables] [Sha256] (session : Session)
    (update : FunctionConclusionUpdate) (before : EnvironmentMarked session) :
    EnvironmentMarked (step session update) := by
  rcases step_cases session update with same | ⟨next, accepted, same⟩
  · rw [same]
    exact before
  · rw [same]
    have own := (validateVerifiedConclusion_eq_none_iff _).mp accepted.valid
    constructor
    · intro name entry found evidence
      rcases accepted.entry_cases found with ⟨rfl, rfl⟩ | ⟨stored, old, present, rfl⟩
      · cases supplied : update.proofReceipt with
        | some receipt =>
            rw [(mergeUpdate_environment_replaced _ update receipt supplied).1]
            rfl
        | none =>
            rw [mergeUpdate_proofReceipt, supplied] at evidence
            rw [(mergeUpdate_environment_kept _ update supplied).1]
            rcases storedEntry_cases session.conclusions update.function with present | empty
            · exact before.evidence _ _ present evidence
            · simp [empty, emptyConclusionStatic] at evidence
      · have kept := markedEntry_keeps session.conclusions update name old
        rw [kept.proofReceipt] at evidence
        rw [kept.proofEnvHash]
        exact before.evidence name old present evidence
    · intro name entry hash found recorded
      rcases accepted.entry_cases found with ⟨rfl, rfl⟩ | ⟨stored, old, present, rfl⟩
      · exact merged_marked session update before hash recorded
      · rw [(markedEntry_keeps session.conclusions update name old).proofEnvHash] at recorded
        exact markedEntry_marked session update before name old stored present hash recorded
    · intro name entry found verified
      rcases accepted.entry_cases found with ⟨rfl, rfl⟩ | ⟨stored, old, present, rfl⟩
      · obtain ⟨fresh, current, -, _, receipt, -, -, present, -⟩ := own verified
        exact ⟨by simp [present], current, fresh⟩
      · obtain ⟨was, dependencies, environment⟩ := markedEntry_verified _ update name old verified
        obtain ⟨receipt, current, fresh⟩ := before.fresh name old present was
        rw [(markedEntry_keeps session.conclusions update name old).proofReceipt]
        exact ⟨receipt, environment current, dependencies fresh⟩

/-- All verified conclusions share the environment of the last accepted receipt. -/
structure SingleEnvironment (session : Session) : Prop where
  shared : ∀ name other entry otherEntry, session.conclusions.lookup name = some entry →
    session.conclusions.lookup other = some otherEntry → entry.status = .verified →
    otherEntry.status = .verified → entry.proofEnvHash = otherEntry.proofEnvHash
  recorded : ∀ name entry, session.conclusions.lookup name = some entry →
    entry.status = .verified →
    entry.proofEnvHash.isSome = true ∧ entry.proofEnvHash = session.environment
  fresh : ∀ name entry, session.conclusions.lookup name = some entry →
    entry.status = .verified →
    entry.staleProofEnvironment = none ∧ entry.staleDependencies = []
  marked : ∀ name entry hash, session.conclusions.lookup name = some entry →
    entry.proofEnvHash = some hash →
    (entry.staleProofEnvironment.isSome = true ↔ session.environment ≠ some hash)

theorem EnvironmentMarked.recorded {session : Session} (marks : EnvironmentMarked session)
    (name : String) (entry : FunctionVerificationState)
    (found : session.conclusions.lookup name = some entry) (verified : entry.status = .verified) :
    entry.proofEnvHash.isSome = true ∧ entry.proofEnvHash = session.environment := by
  obtain ⟨receipt, current, -⟩ := marks.fresh name entry found verified
  have present := marks.evidence name entry found receipt
  obtain ⟨hash, recorded⟩ := Option.isSome_iff_exists.mp present
  have unmarked := (marks.marked name entry hash found recorded).2
  rw [current] at unmarked
  refine ⟨present, ?_⟩
  by_contra different
  rw [recorded] at different
  exact absurd (unmarked.mpr (Ne.symm different)) (by simp)

/-- Each run of stores leaves one proof environment. -/
theorem run_singleEnvironment [UnicodeTables] [Sha256] (updates : List FunctionConclusionUpdate) :
    SingleEnvironment (run updates) := by
  have marks := run_invariant EnvironmentMarked environmentMarked_empty environmentMarked_step
    updates
  constructor
  · intro name other entry otherEntry found otherFound verified otherVerified
    rw [(marks.recorded name entry found verified).2,
      (marks.recorded other otherEntry otherFound otherVerified).2]
  · exact marks.recorded
  · intro name entry found verified
    exact (marks.fresh name entry found verified).2
  · intro name entry hash found recorded
    exact (marks.marked name entry hash found recorded).2

end FramaCMcp.Environment
