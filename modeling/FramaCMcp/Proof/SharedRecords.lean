/-
This file shows when no server drops the record of another one.
-/

import Mathlib.Data.List.Induction
import Mathlib.Logic.Function.Basic
import FramaCMcp.Construction.SandboxRecords

namespace FramaCMcp.SandboxRecords

section Ledger

/-- The ledger holds the last value written for each id. -/
abbrev Ledger := String → Option SandboxMetadata

def Update.record (ledger : Ledger) : Update → Ledger
  | .remember metadata => Function.update ledger metadata.experimentId (some metadata)
  | .markDeleted experimentId =>
      Function.update ledger experimentId
        ((ledger experimentId).map fun sandbox => { sandbox with deleted := true })

def Step.record (ledger : Ledger) (step : Step) : Ledger :=
  if step.succeeds then step.update.record ledger else ledger

def ledgerOf (steps : List Step) : Ledger := steps.foldl Step.record fun _ => none

/-- The file holds what the ledger holds, in the order of the ids. -/
structure Faithful (file : Option (List SandboxMetadata)) (ledger : Ledger) : Prop where
  ordered : ((file.getD []).map SandboxMetadata.experimentId).Pairwise (· < ·)
  held : ∀ experimentId sandbox, ledger experimentId = some sandbox ↔
    sandbox ∈ file.getD [] ∧ sandbox.experimentId = experimentId

/-- A remembered record takes the place of this one. -/
def Update.replaces (sandbox : SandboxMetadata) : Update → Prop
  | .remember metadata => sandbox.experimentId = metadata.experimentId
  | .markDeleted _ => False

variable [Sha256]

/-- A server that writes reads every record that stays, and takes it as one of its own. -/
def Meets (file : Option (List SandboxMetadata)) (step : Step) : Prop :=
  step.succeeds = true → ∀ sandbox ∈ file.getD [], ¬ step.update.replaces sandbox →
    step.answer.readable = true ∧ isOwn step.server sandbox = true

end Ledger

section Update

variable {sandboxes : List SandboxMetadata} {metadata sandbox : SandboxMetadata}
  {experimentId : String}

theorem mem_rememberSandboxMetadata : sandbox ∈ rememberSandboxMetadata metadata sandboxes ↔
    (sandbox ∈ sandboxes ∧ sandbox.experimentId ≠ metadata.experimentId) ∨ sandbox = metadata := by
  rw [rememberSandboxMetadata, (StableSort.sortByKey_perm _ _).mem_iff, List.mem_append,
    List.mem_filter, bne_iff_ne, List.mem_singleton]

theorem ordered_remember (distinct : (sandboxes.map SandboxMetadata.experimentId).Nodup) :
    ((rememberSandboxMetadata metadata sandboxes).map SandboxMetadata.experimentId).Pairwise
      (· < ·) := by
  have sorted := List.pairwise_map.mpr (StableSort.sortByKey_sorted SandboxMetadata.experimentId
    ((sandboxes.filter fun sandbox => sandbox.experimentId != metadata.experimentId) ++ [metadata]))
  have kept : ((rememberSandboxMetadata metadata sandboxes).map
      SandboxMetadata.experimentId).Nodup := by
    rw [rememberSandboxMetadata, ((StableSort.sortByKey_perm _ _).map _).nodup_iff, List.map_append]
    refine List.nodup_append.mpr ⟨distinct.sublist (List.filter_sublist.map _),
      List.nodup_singleton _, fun name member other last => ?_⟩
    obtain ⟨sandbox, listed, rfl⟩ := List.mem_map.mp member
    rw [List.mem_singleton.mp last]
    exact bne_iff_ne.mp (List.mem_filter.mp listed).2
  exact (sorted.and kept).imp fun ⟨below, different⟩ => lt_of_le_of_ne below different

theorem experimentId_markDeletedEntry :
    (markDeletedEntry experimentId sandbox).experimentId = sandbox.experimentId := by
  rw [markDeletedEntry]
  split_ifs <;> rfl

theorem map_experimentId_markDeleted :
    (sandboxes.map (markDeletedEntry experimentId)).map SandboxMetadata.experimentId =
      sandboxes.map SandboxMetadata.experimentId := by
  rw [List.map_map]
  exact List.map_congr_left fun _ _ => experimentId_markDeletedEntry

theorem record_markDeleted {ledger : Ledger}
    (named : ∀ name sandbox, ledger name = some sandbox → sandbox.experimentId = name)
    (name : String) :
    (Update.markDeleted experimentId).record ledger name =
      (ledger name).map (markDeletedEntry experimentId) := by
  by_cases here : name = experimentId
  · subst here
    rw [Update.record, Function.update_self]
    cases found : ledger name with
    | none => rfl
    | some sandbox =>
        rw [Option.map_some, Option.map_some, markDeletedEntry, if_pos (named name sandbox found)]
  · rw [Update.record, Function.update_of_ne here]
    cases found : ledger name with
    | none => rfl
    | some sandbox =>
        rw [Option.map_some, markDeletedEntry, if_neg fun same => here ?_]
        rw [← named name sandbox found, same]

end Update

section Steps

variable {file : Option (List SandboxMetadata)} {ledger : Ledger} {update : Step}
  {sandbox : SandboxMetadata}

theorem Faithful.distinct (faithful : Faithful file ledger) :
    ((file.getD []).map SandboxMetadata.experimentId).Nodup :=
  faithful.ordered.imp fun below => ne_of_lt below

theorem Faithful.named (faithful : Faithful file ledger) (name : String) (sandbox : SandboxMetadata)
    (found : ledger name = some sandbox) : sandbox.experimentId = name :=
  ((faithful.held name sandbox).mp found).2

variable [Sha256]

theorem mem_load {dir : StateDir} {answer : Answer} :
    sandbox ∈ loadSandboxMetadataFromDisk dir answer file ↔
      answer.readable = true ∧ sandbox ∈ file.getD [] ∧ isOwn dir sandbox = true := by
  rw [loadSandboxMetadataFromDisk]
  split_ifs with readable
  · rw [List.mem_filter]
    exact ⟨fun member => ⟨readable, member⟩, And.right⟩
  · exact ⟨fun member => absurd member List.not_mem_nil, fun read => absurd read.1 readable⟩

theorem load_sublist {dir : StateDir} {answer : Answer} :
    (loadSandboxMetadataFromDisk dir answer file).Sublist (file.getD []) := by
  rw [loadSandboxMetadataFromDisk]
  split_ifs
  · exact List.filter_sublist
  · exact List.nil_sublist _

section Kept

variable {dir : StateDir} {answer : Answer}

theorem Faithful.remember {metadata : SandboxMetadata} (faithful : Faithful file ledger)
    (reads : ∀ sandbox ∈ file.getD [], ¬ sandbox.experimentId = metadata.experimentId →
      answer.readable = true ∧ isOwn dir sandbox = true) :
    Faithful (some (rememberSandboxMetadata metadata (loadSandboxMetadataFromDisk dir answer file)))
      ((Update.remember metadata).record ledger) := by
  refine ⟨ordered_remember (faithful.distinct.sublist (load_sublist.map _)),
    fun name sandbox => ?_⟩
  rw [Option.getD_some, mem_rememberSandboxMetadata, mem_load, Update.record]
  by_cases here : name = metadata.experimentId
  · subst here
    rw [Function.update_self]
    constructor
    · intro same
      cases same
      exact ⟨Or.inr rfl, rfl⟩
    · rintro ⟨⟨-, different⟩ | rfl, same⟩
      · exact absurd same different
      · rfl
  · rw [Function.update_of_ne here, faithful.held]
    constructor
    · rintro ⟨member, rfl⟩
      obtain ⟨readable, own⟩ := reads sandbox member here
      exact ⟨Or.inl ⟨⟨readable, member, own⟩, here⟩, rfl⟩
    · rintro ⟨⟨⟨-, member, -⟩, -⟩ | rfl, rfl⟩
      · exact ⟨member, rfl⟩
      · exact absurd rfl here

/-- Only the flag of the deleted sandbox changes. -/
theorem Faithful.markDeleted {experimentId : String} (faithful : Faithful file ledger)
    (reads : ∀ sandbox ∈ file.getD [], answer.readable = true ∧ isOwn dir sandbox = true) :
    Faithful (some ((loadSandboxMetadataFromDisk dir answer file).map
      (markDeletedEntry experimentId))) ((Update.markDeleted experimentId).record ledger) := by
  refine ⟨?_, fun name sandbox => ?_⟩
  · rw [Option.getD_some, map_experimentId_markDeleted]
    exact faithful.ordered.sublist (load_sublist.map _)
  · rw [record_markDeleted faithful.named, Option.map_eq_some_iff, Option.getD_some, List.mem_map]
    constructor
    · rintro ⟨old, found, rfl⟩
      obtain ⟨member, rfl⟩ := (faithful.held _ _).mp found
      obtain ⟨readable, own⟩ := reads old member
      exact ⟨⟨old, mem_load.mpr ⟨readable, member, own⟩, rfl⟩, experimentId_markDeletedEntry⟩
    · rintro ⟨⟨old, loaded, rfl⟩, rfl⟩
      rw [experimentId_markDeletedEntry]
      exact ⟨old, (faithful.held _ _).mpr ⟨(mem_load.mp loaded).2.1, rfl⟩, rfl⟩

end Kept

theorem Faithful.step (faithful : Faithful file ledger) (meets : Meets file update) :
    Faithful (update.apply file) (update.record ledger) := by
  obtain ⟨server, answer, change⟩ := update
  rw [Step.apply, Step.record]
  split_ifs with succeeds
  · have reads := meets succeeds
    cases change with
    | remember metadata => exact faithful.remember reads
    | markDeleted experimentId =>
        exact faithful.markDeleted fun sandbox member => reads sandbox member not_false
  · exact faithful

/-- A step that keeps the file faithful has read every record that stays. -/
theorem meets_of_faithful (faithful : Faithful file ledger)
    (next : Faithful (update.apply file) (update.record ledger)) : Meets file update := by
  intro succeeds sandbox member stays
  have found := (faithful.held sandbox.experimentId sandbox).mpr ⟨member, rfl⟩
  obtain ⟨server, answer, change⟩ := update
  rw [Step.apply, Step.record, if_pos succeeds, if_pos succeeds] at next
  cases change with
  | remember metadata =>
      have kept : (Update.remember metadata).record ledger sandbox.experimentId = some sandbox := by
        rw [Update.record, Function.update_of_ne stays, found]
      rcases mem_rememberSandboxMetadata.mp ((next.held _ _).mp kept).1 with ⟨loaded, -⟩ | same
      · obtain ⟨readable, -, own⟩ := mem_load.mp loaded
        exact ⟨readable, own⟩
      · exact absurd (congrArg SandboxMetadata.experimentId same) stays
  | markDeleted experimentId =>
      have kept : (Update.markDeleted experimentId).record ledger sandbox.experimentId =
          some (markDeletedEntry experimentId sandbox) := by
        rw [record_markDeleted faithful.named, found, Option.map_some]
      obtain ⟨old, loaded, same⟩ := List.mem_map.mp ((next.held _ _).mp kept).1
      obtain ⟨readable, listed, own⟩ := mem_load.mp loaded
      have named : old.experimentId = sandbox.experimentId := by
        have marked := congrArg SandboxMetadata.experimentId same
        rwa [experimentId_markDeletedEntry, experimentId_markDeletedEntry] at marked
      cases List.inj_on_of_nodup_map faithful.distinct listed member named
      exact ⟨readable, own⟩

end Steps

section Run

theorem ledgerOf_snoc (steps : List Step) (step : Step) :
    ledgerOf (steps ++ [step]) = step.record (ledgerOf steps) := by
  rw [ledgerOf, List.foldl_append]
  rfl

variable [Sha256]

theorem run_snoc (steps : List Step) (step : Step) :
    run (steps ++ [step]) = step.apply (run steps) := by
  rw [run, List.foldl_append]
  rfl

theorem Faithful.empty : Faithful (run []) (ledgerOf []) :=
  ⟨List.Pairwise.nil, fun _ _ => ⟨fun held => (by cases held), fun held => (by cases held.1)⟩⟩

theorem faithful_run {steps : List Step} (meets : ∀ before step after,
    steps = before ++ step :: after → Meets (run before) step) :
    Faithful (run steps) (ledgerOf steps) := by
  induction steps using List.reverseRec with
  | nil => exact Faithful.empty
  | append_singleton steps step ih =>
      rw [run_snoc, ledgerOf_snoc]
      refine (ih fun before other after split => meets before other (after ++ [step]) ?_).step
        (meets steps step [] rfl)
      rw [split, List.append_assoc, List.cons_append]

/-- Whatever the order of the steps of all servers, the file holds the last value of each id, in the
order of the ids, at each point of the run exactly where each step that writes has read every
record that stays and takes it as one of its own. -/
theorem sharedRecords_iff (steps : List Step) :
    (∀ before after, steps = before ++ after → Faithful (run before) (ledgerOf before)) ↔
      ∀ before step after, steps = before ++ step :: after → Meets (run before) step := by
  constructor
  · intro faithful before step after split
    have next := faithful (before ++ [step]) after (by rw [split, List.append_assoc]; rfl)
    rw [run_snoc, ledgerOf_snoc] at next
    exact meets_of_faithful (faithful before (step :: after) split) next
  · intro meets before after split
    refine faithful_run fun first step later inner => meets first step (later ++ after) ?_
    rw [split, inner, List.append_assoc, List.cons_append]

end Run

section Spellings

/-- This is the digest of two spellings of one directory. -/
abbrev spellingDigest : Sha256 :=
  .ofTable [("/w/state", "03ac92f3a5f29a237ee23af9077658de1af3304eba29dffebc412088a4a3550a"),
    ("/w/sub/../state", "20640dfe06a4177063d25867e42f5dd892eceb2f4841a4e341f132f5b31e23aa")] rfl

def spelled (baseDir : String) : StateDir where
  currentDir := "/w"
  baseDir := baseDir
  privateRoot := "/tmp/fcmcp-1000"

/-- The server at this directory records a sandbox in its own layout. -/
def rememberStep (baseDir experimentId owner : String) : Step where
  server := spelled baseDir
  answer := {}
  update := .remember
    { experimentId := experimentId
      sandboxDir := "/tmp/fcmcp-1000/sb-" ++ owner ++ "-" ++ experimentId
      sandboxSocket := "/tmp/fcmcp-1000/sb-" ++ owner ++ "-" ++ experimentId ++ "/frama-c.sock"
      deleted := false
      details := [] }

def twoSpellings : List Step :=
  [rememberStep "/w/state" "a" "03ac92f3", rememberStep "sub/../state" "b" "20640dfe"]

/-- The second server drops the record of the first one. -/
theorem not_sharedRecords : ¬ ∀ [Sha256] (steps before after : List Step),
    steps = before ++ after → Faithful (run before) (ledgerOf before) := by
  intro holds
  let _ : Sha256 := spellingDigest
  have faithful := holds twoSpellings twoSpellings [] (List.append_nil _).symm
  have kept : "a" ∈ ((run twoSpellings).getD []).map SandboxMetadata.experimentId := by
    obtain ⟨member, named⟩ := (faithful.held "a" _).mp rfl
    exact List.mem_map.mpr ⟨_, member, named⟩
  exact absurd kept (by decide +kernel)

end Spellings

end FramaCMcp.SandboxRecords
