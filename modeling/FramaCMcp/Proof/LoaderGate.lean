/-
This file shows which loaded conclusions the store would accept.
-/

import FramaCMcp.Proof.WrittenReceipt
import FramaCMcp.Proof.StoreRun

namespace FramaCMcp.LoaderGate

open Conclusion Loader StoreRun WrittenReceipt Profile

section Tree

variable (fromStr : String → Option FunctionVerificationState)

theorem readEntry_name (entry : DirEntry) (read : String × FunctionVerificationState)
    (found : readEntry fromStr entry = some read) : entry.name = some read.1 := by
  unfold readEntry at found
  split_ifs at found
  cases name : entry.name with
  | none => simp [name] at found
  | some function =>
      simp only [name] at found
      split_ifs at found
      obtain ⟨conclusion, -, rfl⟩ := Option.map_eq_some_iff.mp found
      rfl

theorem readEntry_of_meta (function text : String) (conclusion : FunctionVerificationState)
    (safe : isSafePathSegment function = true) (parsed : fromStr text = some conclusion) :
    readEntry fromStr ⟨some function, true, some text⟩ = some (function, conclusion) := by
  simp [readEntry, loadConclusionDir, safe, parsed]

theorem readDir_distinct (tree : Option ConclusionTree) :
    ((readDir tree).filterMap DirEntry.name).Nodup := by
  cases tree with
  | none => exact List.nodup_nil
  | some tree => exact tree.distinct

theorem loaded_sublist [UnicodeTables] [Sha256] (entries : List DirEntry) :
    ((entries.filterMap (loadEntry fromStr)).map Prod.fst).Sublist
      (entries.filterMap DirEntry.name) := by
  rw [List.map_filterMap]
  induction entries with
  | nil => exact List.Sublist.slnil
  | cons entry rest ih =>
      cases read : readEntry fromStr entry with
      | none =>
          have skipped : loadEntry fromStr entry = none := by
            rw [loadEntry, read]
            rfl
          rw [List.filterMap_cons, skipped]
          cases name : entry.name with
          | none => simpa [name] using ih
          | some function => simpa [name] using ih.cons function
      | some found =>
          have name := readEntry_name fromStr entry found read
          rw [List.filterMap_cons, List.filterMap_cons, name, loadEntry, read]
          exact ih.cons_cons found.1

/-- The session holds exactly the judged conclusions of the tree. -/
theorem lookup_loadConclusionsFromDisk [UnicodeTables] [Sha256] (tree : Option ConclusionTree)
    (function : String) (loaded : FunctionVerificationState) :
    (loadConclusionsFromDisk fromStr tree).lookup function = some loaded ↔
      ∃ entry ∈ readDir tree, ∃ conclusion, readEntry fromStr entry = some (function, conclusion) ∧
        judgeLoaded function conclusion = loaded := by
  have distinct := (loaded_sublist fromStr (readDir tree)).nodup (readDir_distinct tree)
  rw [loadConclusionsFromDisk, HashMap.lookup_ofList_iff _ distinct, List.mem_filterMap]
  apply exists_congr
  intro entry
  apply and_congr_right
  intro _
  simp only [loadEntry, Option.map_eq_some_iff, Prod.exists, Prod.mk.injEq]
  constructor
  · rintro ⟨name, conclusion, read, rfl, judged⟩
    exact ⟨conclusion, read, judged⟩
  · rintro ⟨conclusion, read, judged⟩
    exact ⟨function, conclusion, read, rfl, judged⟩

end Tree

/-- A loaded conclusion is verified where its receipt is evidence for its directory. -/
theorem judgeLoaded_verified [UnicodeTables] [Sha256] (function : String)
    (conclusion : FunctionVerificationState) :
    (judgeLoaded function conclusion).status = .verified ↔
      conclusion.status = .verified ∧ loadReason function conclusion = none := by
  unfold judgeLoaded
  split_ifs with refused
  · simp only [false_iff, not_and]
    intro _ accepted
    simp [accepted] at refused
  · constructor
    · intro verified
      exact ⟨verified, by simpa [verified] using refused⟩
    · exact And.left

/-- An accepted conclusion is loaded as it was read. -/
theorem judgeLoaded_accepted [UnicodeTables] [Sha256] (function : String)
    (conclusion : FunctionVerificationState) (accepted : loadReason function conclusion = none) :
    judgeLoaded function conclusion = conclusion := by
  simp [judgeLoaded, accepted]

theorem functionError_eq_none_iff [UnicodeTables] (receipt : Json) (function : String) :
    functionError receipt function = none ↔ receiptNamesFunction receipt function = true := by
  unfold functionError receiptNamesFunction
  cases provedFunctions receipt with
  | none => simp
  | some names => simp

theorem evidence_eq_none_iff [UnicodeTables] [Sha256] (receipt : Json) (goalTotal : UInt32)
    (function : String) :
    proofReceiptEvidenceError receipt goalTotal function = none ↔
      (shapeError receipt = none ∧ digestError receipt = none ∧ filesError receipt = none ∧
        goalsError receipt goalTotal = none ∧ toolError receipt = none ∧
        verdictError receipt = none ∧ filterError receipt = none ∧ scopeError receipt = none) ∧
      functionError receipt function = none := by
  simp [proofReceiptEvidenceError, and_assoc]

/-- The evidence of a receipt depends on the function by its name alone. -/
theorem evidence_renamed [UnicodeTables] [Sha256] (receipt : Json) (goalTotal : UInt32)
    (function other : String)
    (evidence : proofReceiptEvidenceError receipt goalTotal function = none) :
    proofReceiptEvidenceError receipt goalTotal other = none ↔
      receiptNamesFunction receipt other = true := by
  rw [evidence_eq_none_iff] at evidence ⊢
  rw [← functionError_eq_none_iff]
  exact and_iff_right evidence.1

/-- These are the questions of the store that the loader does not ask. -/
structure PassesUnasked (conclusion : FunctionVerificationState) : Prop where
  fresh : conclusion.staleDependencies = []
  current : conclusion.staleProofEnvironment = none
  hashed : ∀ callee ∈ conclusion.callees,
    (conclusion.calleeSpecHashes.lookup callee).isSome = true
  summary : conclusion.wpSummary.any summaryIsFullyValid = true
  named : conclusion.proofReceipt.any (receiptNamesFunction · conclusion.function) = true

/-- The store accepts what the loader accepts and the unasked questions do not refuse. -/
theorem hasEvidence_iff [UnicodeTables] [Sha256] (function : String)
    (conclusion : FunctionVerificationState) (accepted : loadReason function conclusion = none) :
    HasEvidence conclusion ↔ PassesUnasked conclusion := by
  unfold loadReason at accepted
  constructor
  · rintro ⟨fresh, current, hashed, summary, receipt, counts, valid, present, evidence⟩
    refine ⟨fresh, current, hashed, by simp [counts, valid], ?_⟩
    rw [present, counts] at accepted
    rw [present, Option.any_some]
    exact (evidence_renamed receipt summary.total function _ accepted).mp evidence
  · rintro ⟨fresh, current, hashed, summary, named⟩
    obtain ⟨counts, present, valid⟩ := (Option.any_eq_true _ _).mp summary
    obtain ⟨receipt, supplied, proves⟩ := (Option.any_eq_true _ _).mp named
    rw [present, supplied] at accepted
    exact ⟨fresh, current, hashed, counts, receipt, present, valid, supplied,
      (evidence_renamed receipt counts.total function _ accepted).mpr proves⟩

/-- The store would accept each loaded conclusion that is verified. -/
def LoaderAgrees [UnicodeTables] [Sha256] (fromStr : String → Option FunctionVerificationState)
    (tree : Option ConclusionTree) : Prop :=
  ∀ function loaded, (loadConclusionsFromDisk fromStr tree).lookup function = some loaded →
    loaded.status = .verified → validateVerifiedConclusion loaded = none

/-- The loader agrees exactly where no file fails a question that only the store asks. -/
theorem loaderAgrees_iff [UnicodeTables] [Sha256]
    (fromStr : String → Option FunctionVerificationState) (tree : Option ConclusionTree) :
    LoaderAgrees fromStr tree ↔ ∀ entry ∈ readDir tree, ∀ function conclusion,
      readEntry fromStr entry = some (function, conclusion) → conclusion.status = .verified →
        loadReason function conclusion = none → PassesUnasked conclusion := by
  constructor
  · intro agrees entry member function conclusion read verified accepted
    have judged := judgeLoaded_accepted function conclusion accepted
    have loaded := (lookup_loadConclusionsFromDisk fromStr tree function conclusion).mpr
      ⟨entry, member, conclusion, read, judged⟩
    have valid := agrees function conclusion loaded verified
    exact (hasEvidence_iff function conclusion accepted).mp
      ((validateVerifiedConclusion_eq_none_iff conclusion).mp valid verified)
  · intro passes function loaded found verified
    obtain ⟨entry, member, conclusion, read, judged⟩ :=
      (lookup_loadConclusionsFromDisk fromStr tree function loaded).mp found
    rw [← judged] at verified
    obtain ⟨before, accepted⟩ := (judgeLoaded_verified function conclusion).mp verified
    rw [judgeLoaded_accepted function conclusion accepted] at judged
    subst judged
    apply (validateVerifiedConclusion_eq_none_iff conclusion).mpr
    intro _
    exact (hasEvidence_iff function conclusion accepted).mpr
      (passes entry member function conclusion read before accepted)

/-- This file names a callee and records no contract of it. -/
def helperMeta [Sha256] : Json :=
  .obj [("function", .str "f"), ("status", .str "verified"), ("specs", .arr []),
    ("wp_summary", .obj [("total", .num 1), ("valid", .num 1), ("unknown", .num 0),
      ("timeout", .num 0), ("failed", .num 0)]),
    ("notes", .str ""), ("callees", .arr [.str "helper"]),
    ("proof_receipt", writtenReceipt (provedBody "f") "")]

/-- This is the conclusion of the file. -/
def helperConclusion [Sha256] : FunctionVerificationState where
  function := "f"
  status := .verified
  wpSummary := some ⟨1, 1, 0, 0, 0⟩
  callees := ["helper"]
  proofReceipt := some (writtenReceipt (provedBody "f") "")

def helperEntry [Sha256] : DirEntry where
  name := some "f"
  isDir := true
  metaText := some helperMeta.render

def helperTree [Sha256] : ConclusionTree where
  entries := [helperEntry]
  distinct := List.nodup_singleton _

/-- This parser reads the one file. -/
def helperFromStr [Sha256] (text : String) : Option FunctionVerificationState :=
  if text = helperMeta.render then some helperConclusion else none

theorem helperFromStr_meta [Sha256] :
    helperFromStr helperMeta.render = some helperConclusion := by
  rw [helperFromStr, if_pos rfl]

/-- The loader keeps the conclusion that the store refuses under each digest. -/
theorem helperTree_disagrees [UnicodeTables] [Sha256] :
    ¬ LoaderAgrees helperFromStr (some helperTree) := by
  rw [loaderAgrees_iff]
  intro passes
  have read : readEntry helperFromStr helperEntry = some ("f", helperConclusion) :=
    readEntry_of_meta helperFromStr "f" helperMeta.render helperConclusion (by decide)
      helperFromStr_meta
  have hashed := (passes helperEntry (List.mem_singleton_self _) "f" helperConclusion read rfl
    (evidence_provedBody "f")).hashed "helper" (List.mem_singleton_self _)
  exact absurd hashed (by simp [helperConclusion])

/-- The loader admits an entry that the store refuses. -/
theorem not_loaderAgrees :
    ¬ ∀ [UnicodeTables] [Sha256] (fromStr : String → Option FunctionVerificationState)
      (tree : Option ConclusionTree), LoaderAgrees fromStr tree :=
  fun agrees => @helperTree_disagrees .ascii (.ofTable [] rfl)
    (@agrees .ascii (.ofTable [] rfl) _ _)

end FramaCMcp.LoaderGate
