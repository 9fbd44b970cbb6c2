/-
This file says when a store reports each conclusion that it changes.
-/

import FramaCMcp.Proof.Environment
import FramaCMcp.Proof.WrittenReceipt

namespace FramaCMcp.StoreSteps

open Conclusion Store StoreRun StateFlow

variable {Rest : Type}

section Visits

variable {Field : Type} [DecidableEq Field] (field : FunctionVerificationState → Field)
  (change : String → FunctionVerificationState → FunctionVerificationState)

/-- The visit of a name touches it where the change shows in the field. -/
def shows (conclusions : Conclusions) (name : String) : Bool :=
  (conclusions.lookup name).map field != ((conclusions.lookup name).map (change name)).map field

theorem result_visit (name : String) (touched : List String) (state : SessionState Rest) :
    result (visit field change name touched) state =
      .ok (touched ++ [name].filter (shows field change state.conclusions)) := by
  unfold visit getConclusion
  rw [result_bind, result_inspect]
  cases found : state.conclusions.lookup name with
  | none =>
      have unseen : shows field change state.conclusions name = false := by simp [shows, found]
      rw [List.filter_singleton, unseen]
      simp
  | some entry =>
      show Except.ok (if field (change name entry) = field entry then touched
        else touched ++ [name]) = _
      by_cases same : field (change name entry) = field entry
      · have unseen : shows field change state.conclusions name = false := by
          simp [shows, found, same]
        rw [if_pos same, List.filter_singleton, unseen]
        simp
      · have seen : shows field change state.conclusions name = true := by
          simp [shows, found, Ne.symm same]
        rw [if_neg same, List.filter_singleton, seen]
        rfl

theorem final_visit (name : String) (touched : List String) (state : SessionState Rest) :
    final (visit field change name touched) state =
      { state with conclusions := state.conclusions.adjust name (change name) } := by
  unfold visit getConclusion
  rw [final_bind, result_inspect, final_inspect]
  cases found : state.conclusions.lookup name with
  | none =>
      have absent : name ∉ state.conclusions := AList.lookup_eq_none.mp found
      have kept : state.conclusions.adjust name (change name) = state.conclusions := by
        calc _ = state.conclusions.sweep fun _ value => value := by
              apply HashMap.sweep_congr
              rintro key member value
              refine if_neg ?_
              rintro rfl
              exact absent (AList.mem_keys.mpr member)
          _ = _ := HashMap.sweep_id fun _ _ => rfl
      rw [kept]
      rfl
  | some entry =>
      show ({ state with conclusions := state.conclusions.adjust name fun _ => change name entry } :
        SessionState Rest) = _
      congr 1
      apply AList.ext
      apply List.map_congr_left
      rintro ⟨key, value⟩ member
      have own : key = name → value = entry := by
        rintro rfl
        have listed := (HashMap.mem_entries_iff state.conclusions key value).mp member
        rw [found] at listed
        exact (Option.some.inj listed).symm
      by_cases same : key = name
      · simp [HashMap.entryUpdate, same, own same]
      · simp [HashMap.entryUpdate, same]

/-- Each name is touched as if no other one were visited. -/
theorem result_visitAll {names : List String} (distinct : names.Nodup) (touched : List String)
    (state : SessionState Rest) :
    result (visitAll field change names touched) state =
      .ok (touched ++ names.filter (shows field change state.conclusions)) := by
  induction names generalizing touched state with
  | nil => exact congrArg Except.ok (List.append_nil _).symm
  | cons name names ih =>
      obtain ⟨fresh, later⟩ := List.nodup_cons.mp distinct
      have others : ∀ other ∈ names,
          shows field change (state.conclusions.adjust name (change name)) other =
            shows field change state.conclusions other := by
        intro other member
        have different : other ≠ name := fun same => fresh (same ▸ member)
        have kept : (state.conclusions.adjust name (change name)).lookup other =
            state.conclusions.lookup other := by
          rw [HashMap.adjust, HashMap.lookup_sweep]
          simp [different]
        rw [shows, shows, kept]
      rw [visitAll, result_bind, result_visit, final_visit]
      show result (visitAll field change names _) _ = _
      rw [ih later, List.filter_congr others, List.append_assoc, ← List.filter_append,
        List.singleton_append]

theorem final_visitAll {names : List String} (distinct : names.Nodup) (touched : List String)
    (state : SessionState Rest) :
    final (visitAll field change names touched) state =
      { state with conclusions := state.conclusions.sweep fun name entry =>
          if name ∈ names then change name entry else entry } := by
  induction names generalizing touched state with
  | nil =>
      have kept := @HashMap.sweep_id _ state.conclusions
        (fun name entry => if name ∈ ([] : List String) then change name entry else entry)
        fun _ _ => rfl
      rw [kept]
      rfl
  | cons name names ih =>
      obtain ⟨fresh, later⟩ := List.nodup_cons.mp distinct
      rw [visitAll, final_bind, result_visit, final_visit]
      show final (visitAll field change names _) _ = _
      rw [ih later, HashMap.adjust]
      congr 1
      rw [HashMap.sweep_sweep]
      apply HashMap.sweep_congr
      intro key _ value
      by_cases own : key = name
      · subst own
        simp [fresh]
      · simp [own]

theorem final_visitAll_keys (touched : List String) (state : SessionState Rest) :
    final (visitAll field change state.conclusions.keys touched) state =
      { state with conclusions := state.conclusions.sweep change } := by
  rw [final_visitAll field change (AList.keys_nodup _) touched state]
  congr 1
  exact HashMap.sweep_congr fun key member _ => if_pos member

theorem result_visitAll_keys (touched : List String) (state : SessionState Rest) :
    result (visitAll field change state.conclusions.keys touched) state =
      .ok (touched ++ changedNames field state.conclusions (state.conclusions.sweep change)) := by
  rw [result_visitAll field change (AList.keys_nodup _) touched state]
  congr 2
  apply List.filter_congr
  intro name _
  rw [shows, HashMap.lookup_sweep]

end Visits

section Store

variable [Sha256]

theorem visitEnvironments_run (function : String) (receipt : Option Json) (touched : List String)
    (state : SessionState Rest) :
    result (visitEnvironments function receipt touched) state =
        .ok (touched ++ changedNames FunctionVerificationState.staleProofEnvironment
          state.conclusions (markEnvironments state.conclusions function receipt)) ∧
      final (visitEnvironments function receipt touched) state =
        { state with conclusions := markEnvironments state.conclusions function receipt } := by
  cases receipt with
  | none =>
      have none : changedNames FunctionVerificationState.staleProofEnvironment state.conclusions
          state.conclusions = [] := by simp [changedNames]
      refine ⟨?_, rfl⟩
      show Except.ok touched = Except.ok (touched ++ changedNames _ _ state.conclusions)
      rw [none, List.append_nil]
  | some receipt =>
      unfold visitEnvironments conclusionNames
      rw [result_bind, final_bind, result_inspect]
      exact ⟨result_visitAll_keys _ _ touched state, final_visitAll_keys _ _ touched state⟩

theorem visitCallers_run (function : String) (touched : List String) (state : SessionState Rest) :
    result (visitCallers function touched) state =
        .ok (touched ++ changedNames FunctionVerificationState.staleDependencies
          state.conclusions (markCallers state.conclusions function)) ∧
      final (visitCallers function touched) state =
        { state with conclusions := markCallers state.conclusions function } := by
  unfold visitCallers conclusionNames
  rw [result_bind, final_bind, result_inspect]
  exact ⟨result_visitAll_keys _ _ touched state, final_visitAll_keys _ _ touched state⟩

variable [UnicodeTables]

/-- A refused update ends before the first write. -/
theorem storeConclusion_refused {state : SessionState Rest} {update : FunctionConclusionUpdate}
    {reason : String}
    (refused : Store.storeConclusion state.conclusions update = .error reason) :
    result (storeConclusion update) state = .error reason ∧
      final (storeConclusion update) state = state := by
  unfold Store.storeConclusion at refused
  unfold storeConclusion validate
  cases judged : validateVerifiedConclusion (mergeUpdate state.conclusions update) with
  | none => simp [judged] at refused
  | some why =>
      simp only [judged, Except.error.injEq] at refused
      subst refused
      simp only [result_bind, final_bind, result_inspect, final_inspect, result_settle,
        final_settle, judged]
      exact ⟨trivial, trivial⟩

/-- The steps of an accepted update have the effect of the whole store. -/
theorem storeConclusion_accepted {state : SessionState Rest} {update : FunctionConclusionUpdate}
    {next : Conclusions} {touched : List String}
    (accepted : Store.storeConclusion state.conclusions update = .ok (next, touched)) :
    result (storeConclusion update) state = .ok touched ∧
      final (storeConclusion update) state = ⟨next, state.rest⟩ := by
  unfold Store.storeConclusion at accepted
  unfold storeConclusion validate
  cases judged : validateVerifiedConclusion (mergeUpdate state.conclusions update) with
  | some why => simp [judged] at accepted
  | none =>
      simp only [judged, Except.ok.injEq, Prod.mk.injEq] at accepted
      obtain ⟨rfl, rfl⟩ := accepted
      obtain ⟨first, marked⟩ := visitEnvironments_run update.function update.proofReceipt
        [update.function] (SessionState.mk (state.conclusions.insert update.function
          (mergeUpdate state.conclusions update)) state.rest)
      simp only [result_bind, final_bind, result_inspect, final_inspect, result_settle,
        final_settle, judged, insertConclusion, result_perform, final_perform, first, marked]
      exact visitCallers_run update.function _ _

end Store

section Marks

variable (function current name : String) (entry : FunctionVerificationState)

/-- Only a demotion escapes the comparison of the environment marks. -/
theorem markEnvironment_eq_self
    (same : (markEnvironment function current name entry).staleProofEnvironment =
      entry.staleProofEnvironment) :
    markEnvironment function current name entry = entry ∨
      name ≠ function ∧ entry.status = .verified ∧ ∃ recorded,
        entry.proofEnvHash = some recorded ∧ recorded ≠ current ∧
          entry.staleProofEnvironment = some ⟨recorded, current⟩ := by
  unfold markEnvironment at same ⊢
  split_ifs at same ⊢ with own
  · exact .inl rfl
  · cases hash : entry.proofEnvHash with
    | none => exact .inl rfl
    | some recorded =>
        rw [hash] at same
        by_cases equal : recorded = current
        · simp only [if_pos equal] at same ⊢
          left
          rw [same, ← hash]
        · simp only [if_neg equal] at same ⊢
          by_cases verified : entry.status = .verified
          · exact .inr ⟨own, verified, recorded, rfl, equal, same.symm⟩
          · have kept : demote entry.status = entry.status := by
              cases status : entry.status with
              | verified => exact absurd status verified
              | _ => rfl
            left
            rw [kept, same, ← hash]

theorem markCaller_eq_self
    (same : (markCaller function current name entry).staleDependencies =
      entry.staleDependencies) : markCaller function current name entry = entry := by
  unfold markCaller at same ⊢
  split_ifs at same ⊢ with own
  · rfl
  · cases hash : entry.calleeSpecHashes.lookup function with
    | none => rfl
    | some recorded =>
        rw [hash] at same
        simp only at same ⊢
        rw [if_neg fun changed => changed.1 same, same]

theorem refreshMarker_eq_self_iff (marker : StaleDependency) (stale : List StaleDependency)
    (present : stale.any fun other => other.callee == marker.callee) :
    refreshMarker marker stale = stale ↔
      stale.find? (fun other => other.callee == marker.callee) = some marker := by
  induction stale with
  | nil => simp at present
  | cons head rest ih =>
      rw [refreshMarker]
      by_cases first : head.callee = marker.callee
      · simp [first, eq_comm]
      · have other : (head.callee == marker.callee) = false := beq_eq_false_iff_ne.mpr first
        rw [List.any_cons, other, Bool.false_or] at present
        rw [if_neg first, List.find?_cons, other, List.cons.injEq, ih present]
        simp

/-- The markers already say what the sweep would write. -/
def SettledMarkers (function current : String) (entry : FunctionVerificationState) : Prop :=
  ∀ recorded, entry.calleeSpecHashes.lookup function = some recorded →
    if recorded = current then ∀ marker ∈ entry.staleDependencies, marker.callee ≠ function
    else entry.staleDependencies.find? (fun marker => marker.callee == function) =
      some ⟨function, recorded, current⟩

theorem markers_eq_self_iff (recorded : String) (stale : List StaleDependency) :
    markers function recorded current stale = stale ↔
      if recorded = current then ∀ marker ∈ stale, marker.callee ≠ function
      else stale.find? (fun marker => marker.callee == function) =
        some ⟨function, recorded, current⟩ := by
  unfold markers
  split_ifs with same present
  · rw [List.filter_eq_self]
    simp
  · exact refreshMarker_eq_self_iff ⟨function, recorded, current⟩ stale present
  · have none : stale.find? (fun marker => marker.callee == function) = none := by
      rw [List.find?_eq_none]
      simpa using present
    rw [none]
    simp

theorem markCaller_settled_iff (different : name ≠ function) :
    (markCaller function current name entry).staleDependencies = entry.staleDependencies ↔
      SettledMarkers function current entry := by
  rw [markCaller_staleDependencies function current name entry different, SettledMarkers]
  cases entry.calleeSpecHashes.lookup function with
  | none => simp
  | some recorded =>
      simp only [Option.some.injEq, forall_eq']
      exact markers_eq_self_iff function current recorded entry.staleDependencies

end Marks

theorem mem_changedNames {Field : Type} [DecidableEq Field]
    (field : FunctionVerificationState → Field) {before after : Conclusions} {name : String}
    {entry : FunctionVerificationState} (found : before.lookup name = some entry)
    {changed : FunctionVerificationState} (next : after.lookup name = some changed) :
    name ∈ changedNames field before after ↔ field changed ≠ field entry := by
  have listed : name ∈ before.keys :=
    AList.mem_keys.mp (AList.lookup_isSome.mp (by rw [found]; rfl))
  rw [changedNames, List.mem_filter, found, next, ne_comm]
  simp [listed]

def storedSpecs (conclusions : Conclusions) (update : FunctionConclusionUpdate) :
    List AnnotationEntry :=
  update.specs.getD (storedEntry conclusions update.function).specs

section Report

variable [Sha256]

/-- This is what the receipt of a store does to another conclusion. -/
def judgedEntry (update : FunctionConclusionUpdate) (name : String)
    (entry : FunctionVerificationState) : FunctionVerificationState :=
  match update.proofReceipt with
  | some receipt => markEnvironment update.function (proofEnvironmentHash receipt) name entry
  | none => entry

theorem judgedEntry_keeps (update : FunctionConclusionUpdate) (name : String)
    (entry : FunctionVerificationState) :
    KeepsEvidence entry (judgedEntry update name entry) ∧
      (judgedEntry update name entry).staleDependencies = entry.staleDependencies := by
  unfold judgedEntry
  cases update.proofReceipt with
  | none => exact ⟨⟨rfl, rfl, rfl, rfl, rfl, rfl, rfl⟩, rfl⟩
  | some receipt => exact ⟨markEnvironment_keeps _ _ _ _, markEnvironment_staleDependencies _ _ _ _⟩

/-- The verified conclusion already carries the marks that the store writes. -/
structure Overlooked (conclusions : Conclusions) (update : FunctionConclusionUpdate)
    (receipt : Json) (name : String) (entry : FunctionVerificationState) (recorded : String) :
    Prop where
  supplied : update.proofReceipt = some receipt
  other : name ≠ update.function
  stored : conclusions.lookup name = some entry
  verified : entry.status = .verified
  environment : entry.proofEnvHash = some recorded
  stale : recorded ≠ proofEnvironmentHash receipt
  marked : entry.staleProofEnvironment = some ⟨recorded, proofEnvironmentHash receipt⟩
  settled : SettledMarkers update.function (specsHash (storedSpecs conclusions update)) entry

theorem judgedEntry_settled_iff (conclusions : Conclusions) (update : FunctionConclusionUpdate)
    (name : String) (entry : FunctionVerificationState) (different : name ≠ update.function) :
    (markedEntry conclusions update name entry).staleDependencies = entry.staleDependencies ↔
      SettledMarkers update.function (specsHash (storedSpecs conclusions update)) entry := by
  obtain ⟨kept, dependencies⟩ := judgedEntry_keeps update name entry
  have moved := markCaller_settled_iff update.function
    (specsHash (mergeUpdate conclusions update).specs) name (judgedEntry update name entry) different
  rw [SettledMarkers, kept.calleeSpecHashes, dependencies, mergeUpdate_specs] at moved
  rw [markedEntry, mergeUpdate_specs]
  exact moved

variable [UnicodeTables]

variable {update : FunctionConclusionUpdate} {conclusions next : Conclusions}
    {entry : FunctionVerificationState} {touched : List String}

/-- Another conclusion is touched where one of its marks has changed. -/
theorem mem_touched_iff (stored : Store.storeConclusion conclusions update = .ok (next, touched))
    {name : String} (different : name ≠ update.function)
    (found : conclusions.lookup name = some entry) :
    name ∈ touched ↔
      (judgedEntry update name entry).staleProofEnvironment ≠ entry.staleProofEnvironment ∨
        (markedEntry conclusions update name entry).staleDependencies ≠
          entry.staleDependencies := by
  have marked := (accepted_of_storeConclusion conclusions next update touched stored).others name
    different
  rw [found, Option.map_some] at marked
  unfold Store.storeConclusion at stored
  cases valid : validateVerifiedConclusion (mergeUpdate conclusions update) with
  | some reason => simp [valid] at stored
  | none =>
      simp only [valid, Except.ok.injEq, Prod.mk.injEq] at stored
      obtain ⟨rfl, rfl⟩ := stored
      have inserted : (conclusions.insert update.function (mergeUpdate conclusions update)).lookup
          name = some entry := by rw [AList.lookup_insert_ne different, found]
      have judged : (markEnvironments (conclusions.insert update.function
          (mergeUpdate conclusions update)) update.function update.proofReceipt).lookup name =
            some (judgedEntry update name entry) := by
        rw [lookup_markEnvironments, inserted]
        rfl
      rw [List.mem_append, List.mem_cons, mem_changedNames _ inserted judged,
        mem_changedNames _ judged marked, (judgedEntry_keeps update name entry).2]
      simp [different]

/-- An untouched conclusion is changed exactly where it is overlooked. -/
theorem markedEntry_overlooked
    (stored : Store.storeConclusion conclusions update = .ok (next, touched)) {name : String}
    (different : name ≠ update.function) (found : conclusions.lookup name = some entry)
    (untouched : name ∉ touched) :
    markedEntry conclusions update name entry = entry ∨
      ∃ receipt recorded, Overlooked conclusions update receipt name entry recorded := by
  rw [mem_touched_iff stored different found, not_or, not_not, not_not] at untouched
  obtain ⟨environment, dependencies⟩ := untouched
  have settled := (judgedEntry_settled_iff conclusions update name entry different).mp dependencies
  have caller : markedEntry conclusions update name entry = judgedEntry update name entry := by
    apply markCaller_eq_self
    exact dependencies.trans (judgedEntry_keeps update name entry).2.symm
  rw [caller]
  unfold judgedEntry at environment ⊢
  cases supplied : update.proofReceipt with
  | none => exact .inl rfl
  | some receipt =>
      rw [supplied] at environment
      rcases markEnvironment_eq_self _ _ _ _ environment with same |
        ⟨-, verified, recorded, hash, stale, marked⟩
      · exact .inl same
      · exact .inr ⟨receipt, recorded, supplied, different, found, verified, hash, stale, marked,
          settled⟩

theorem Overlooked.untouched
    (stored : Store.storeConclusion conclusions update = .ok (next, touched)) {receipt : Json}
    {name : String} {recorded : String}
    (hidden : Overlooked conclusions update receipt name entry recorded) : name ∉ touched := by
  rw [mem_touched_iff stored hidden.other hidden.stored, not_or, not_not, not_not]
  refine ⟨?_, (judgedEntry_settled_iff _ _ _ _ hidden.other).mpr hidden.settled⟩
  simp [judgedEntry, hidden.supplied, markEnvironment, hidden.other, hidden.environment,
    hidden.stale, hidden.marked]

theorem Overlooked.changed (stored : Store.storeConclusion conclusions update = .ok (next, touched))
    {receipt : Json} {name : String} {recorded : String}
    (hidden : Overlooked conclusions update receipt name entry recorded) :
    next.lookup name ≠ conclusions.lookup name := by
  rw [(accepted_of_storeConclusion conclusions next update touched stored).others name hidden.other,
    hidden.stored, Option.map_some, Ne, Option.some.injEq]
  intro same
  have still : (markedEntry conclusions update name entry).status = .verified := by
    rw [same]
    exact hidden.verified
  have judged := (markCaller_verified _ _ _ _ still).1
  simp [hidden.supplied, markEnvironment, hidden.other, hidden.environment, hidden.stale,
    demote_ne_verified] at judged

/-- A refused store changes nothing, and an accepted one touches all that it changes. -/
structure Atomic (state : SessionState Rest) (update : FunctionConclusionUpdate) : Prop where
  refused : ∀ reason, result (storeConclusion update) state = .error reason →
    final (storeConclusion update) state = state
  reported : ∀ touched, result (storeConclusion update) state = .ok touched → ∀ name,
    (final (storeConclusion update) state).conclusions.lookup name ≠
      state.conclusions.lookup name → name ∈ touched
  unchanged : ∀ touched, result (storeConclusion update) state = .ok touched →
    (∀ name, name ∉ touched → (final (storeConclusion update) state).conclusions.lookup name =
      state.conclusions.lookup name) ∧ (final (storeConclusion update) state).rest = state.rest

/-- The receipt of the store marks no verified conclusion that already carries its mark. -/
def Clear (conclusions : Conclusions) (update : FunctionConclusionUpdate) : Prop :=
  ∀ receipt name entry recorded, ¬ Overlooked conclusions update receipt name entry recorded

theorem atomic_of_refused {state : SessionState Rest} {reason : String}
    (refused : Store.storeConclusion state.conclusions update = .error reason) :
    Atomic state update := by
  obtain ⟨failed, kept⟩ := storeConclusion_refused refused
  refine ⟨fun _ _ => kept, ?_, ?_⟩
  · intro touched returned
    rw [failed] at returned
    cases returned
  · intro touched returned
    rw [failed] at returned
    cases returned

theorem own_mem_touched (stored : Store.storeConclusion conclusions update = .ok (next, touched)) :
    update.function ∈ touched := by
  have valid := (accepted_of_storeConclusion conclusions next update touched stored).valid
  unfold Store.storeConclusion at stored
  simp only [valid, Except.ok.injEq, Prod.mk.injEq] at stored
  rw [← stored.2]
  simp

/-- A store that overlooks no conclusion changes only the ones it touches. -/
theorem lookup_untouched (stored : Store.storeConclusion conclusions update = .ok (next, touched))
    (clear : Clear conclusions update) (name : String) (untouched : name ∉ touched) :
    next.lookup name = conclusions.lookup name := by
  have different : name ≠ update.function := by
    rintro rfl
    exact untouched (own_mem_touched stored)
  rw [(accepted_of_storeConclusion conclusions next update touched stored).others name different]
  cases found : conclusions.lookup name with
  | none => rfl
  | some entry =>
      rcases markedEntry_overlooked stored different found untouched with same |
        ⟨receipt, recorded, hidden⟩
      · rw [Option.map_some, same]
      · exact absurd hidden (clear receipt name entry recorded)

theorem atomic_of_clear {state : SessionState Rest} (clear : Clear state.conclusions update) :
    Atomic state update := by
  cases stored : Store.storeConclusion state.conclusions update with
  | error reason => exact atomic_of_refused stored
  | ok pair =>
      rcases pair with ⟨next, touched⟩
      obtain ⟨returned, reached⟩ := storeConclusion_accepted stored
      have kept := lookup_untouched stored clear
      refine ⟨?_, ?_, ?_⟩
      · intro reason failed
        rw [returned] at failed
        cases failed
      · intro names same name changed
        obtain rfl := Except.ok.inj (returned.symm.trans same)
        rw [reached] at changed
        by_contra untouched
        exact changed (kept name untouched)
      · intro names same
        obtain rfl := Except.ok.inj (returned.symm.trans same)
        rw [reached]
        exact ⟨kept, rfl⟩

/-- An overlooked conclusion is changed and not reported. -/
theorem Overlooked.not_atomic {state : SessionState Rest} {update : FunctionConclusionUpdate}
    {next : Conclusions} {touched : List String}
    (stored : Store.storeConclusion state.conclusions update = .ok (next, touched))
    {receipt : Json} {name : String} {entry : FunctionVerificationState} {recorded : String}
    (hidden : Overlooked state.conclusions update receipt name entry recorded) :
    ¬ Atomic state update := by
  intro atomic
  obtain ⟨returned, reached⟩ := storeConclusion_accepted stored
  have reported := atomic.reported touched returned name
  rw [reached] at reported
  exact hidden.untouched stored (reported (hidden.changed stored))

/-- The store is atomic exactly where it is refused or overlooks no conclusion. -/
theorem storeConclusion_atomic_iff (state : SessionState Rest)
    (update : FunctionConclusionUpdate) :
    Atomic state update ↔
      validateVerifiedConclusion (mergeUpdate state.conclusions update) ≠ none ∨
        Clear state.conclusions update := by
  constructor
  · intro atomic
    cases stored : Store.storeConclusion state.conclusions update with
    | error reason =>
        left
        intro valid
        simp [Store.storeConclusion, valid] at stored
    | ok pair =>
        exact .inr fun _ _ _ _ hidden => hidden.not_atomic stored atomic
  · rintro (refused | clear)
    · obtain ⟨reason, judged⟩ := Option.ne_none_iff_exists'.mp refused
      exact atomic_of_refused (by rw [Store.storeConclusion, judged])
    · exact atomic_of_clear clear

end Report

section Restored

open WrittenReceipt Loader

def newReceipt : Json := .obj [("environment", .obj [("frama_c", .str "34.0")])]

def newUpdate : FunctionConclusionUpdate := { function := "f", proofReceipt := some newReceipt }

variable [UnicodeTables] [Sha256]

/-- This file was kept with its status when another receipt marked it. -/
def markedConclusion : FunctionVerificationState where
  function := "g"
  status := .verified
  wpSummary := some ⟨1, 1, 0, 0, 0⟩
  proofReceipt := some (writtenReceipt (provedBody "g") "")
  proofEnvHash := some "old"
  staleProofEnvironment := some ⟨"old", proofEnvironmentHash newReceipt⟩

/-- The loader judges the receipt of the file and not its mark. -/
theorem judgeLoaded_markedConclusion : judgeLoaded "g" markedConclusion = markedConclusion := by
  have evidence : loadReason "g" markedConclusion = none := evidence_provedBody "g"
  rw [judgeLoaded, evidence]
  simp

def restored : Conclusions := HashMap.ofList [("g", judgeLoaded "g" markedConclusion)]

theorem overlooked_restored (other : "old" ≠ proofEnvironmentHash newReceipt) :
    Overlooked restored newUpdate newReceipt "g" markedConclusion "old" where
  supplied := rfl
  other := by decide
  stored := by
    rw [restored, judgeLoaded_markedConclusion]
    rfl
  verified := rfl
  environment := rfl
  stale := other
  marked := rfl
  settled := by
    intro recorded found
    cases found

end Restored

/-- The store demotes a restored conclusion and does not report it. -/
theorem not_storeConclusion_atomic :
    ¬ ∀ [UnicodeTables] [Sha256] (state : SessionState Unit) (update : FunctionConclusionUpdate),
      Atomic state update := by
  intro atomic
  have short : ("old" : String) ≠ @proofEnvironmentHash (.ofTable [] rfl) newReceipt := by
    decide +kernel
  have hidden := @overlooked_restored .ascii (.ofTable [] rfl) short
  obtain ⟨next, touched, stored⟩ : ∃ next touched, @Store.storeConclusion .ascii (.ofTable [] rfl)
      (@restored .ascii (.ofTable [] rfl)) newUpdate = .ok (next, touched) := ⟨_, _, rfl⟩
  exact @Overlooked.not_atomic Unit (.ofTable [] rfl) .ascii
    ⟨@restored .ascii (.ofTable [] rfl), ()⟩ newUpdate next touched stored _ _ _ _ hidden
    (@atomic .ascii (.ofTable [] rfl) _ _)

end FramaCMcp.StoreSteps
