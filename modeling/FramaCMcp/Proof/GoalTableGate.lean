/-
This file says when a check reports that its goal table changed.
-/

import FramaCMcp.Construction.EvidenceGates
import Mathlib.Data.List.Induction

namespace FramaCMcp.EvidenceGates

open CheckGaps Session WpSettings WpResponse

section Response

theorem get_insert_self {value : Json} (object : value.isObject = true) (key : String)
    (inner : Json) : (value.insert key inner).get key = some inner := by
  cases value with
  | obj fields => exact Json.get_insert_self fields key inner
  | _ => cases object

theorem get_insertSome_of_ne (value : Json) (key name : String) (inner : Option Json)
    (different : name ≠ key) : (insertSome value key inner).get name = value.get name := by
  cases inner with
  | none => rfl
  | some inner => exact Json.get_insert_of_ne value key name inner different

theorem insertSome_some (value : Json) (key : String) (inner : Json) :
    insertSome value key (some inner) = value.insert key inner := rfl

theorem wpRunResponse_config (env : WpEnvironment) (run : WpRunResponse) :
    (wpRunResponse env run).get "effective_wp_config" = some (effectiveWpConfig env run) := by
  rw [wpRunResponse]
  split
  · simp only [get_insertSome_of_ne _ _ _ _ (by decide : "effective_wp_config" ≠ "proofread_report"),
      get_insertSome_of_ne _ _ _ _ (by decide : "effective_wp_config" ≠ "measurement"),
      Json.get_insert_of_ne _ _ _ _ (by decide : "effective_wp_config" ≠ "failure_kind"),
      Json.get_insert_of_ne _ _ _ _ (by decide : "effective_wp_config" ≠ "wp_timeout_triage"),
      Json.get_insert_of_ne _ _ _ _ (by decide : "effective_wp_config" ≠ "host_load"),
      Json.get_insert_of_ne _ _ _ _ (by decide : "effective_wp_config" ≠ "frama_c_protocol"),
      Json.get_insert_of_ne _ _ _ _ (by decide : "effective_wp_config" ≠ "frama_c_options"),
      Json.get_insert_self]
  · simp only [get_insertSome_of_ne _ _ _ _ (by decide : "effective_wp_config" ≠ "proofread_report"),
      get_insertSome_of_ne _ _ _ _ (by decide : "effective_wp_config" ≠ "measurement")]
    rfl

theorem wpRunResponse_measurement (env : WpEnvironment) (run : WpRunResponse) (goals : List Json)
    (measured : run.goals = some goals) :
    (wpRunResponse env run).get "measurement" = some (runMeasurement goals).toJson := by
  rw [wpRunResponse, measured, Option.map_some]
  split
  · simp only [get_insertSome_of_ne _ _ _ _ (by decide : "measurement" ≠ "proofread_report"),
      Json.get_insert_of_ne _ _ _ _ (by decide : "measurement" ≠ "failure_kind"),
      Json.get_insert_of_ne _ _ _ _ (by decide : "measurement" ≠ "wp_timeout_triage"),
      Json.get_insert_of_ne _ _ _ _ (by decide : "measurement" ≠ "host_load"), insertSome_some]
    refine get_insert_self ?_ _ _
    rfl
  · rw [get_insertSome_of_ne _ _ _ _ (by decide : "measurement" ≠ "proofread_report"),
      insertSome_some]
    refine get_insert_self ?_ _ _
    rfl

/-- The records of the run change none of these fields. -/
theorem mainRunResponse_get (env : WpEnvironment) (run : WpRunResponse) (records : RunRecords)
    (name : String) (written : name = "effective_wp_config" ∨ name = "measurement") :
    (mainRunResponse env run records).get name = (wpRunResponse env run).get name := by
  rw [mainRunResponse]
  rcases written with rfl | rfl <;>
    simp [get_insertSome_of_ne, Json.get_insert_of_ne]

theorem mainRunResponse_functions (env : WpEnvironment) (run : WpRunResponse)
    (records : RunRecords) :
    (mainRunResponse env run records).pointer ["effective_wp_config", "functions"] =
      some (texts run.functions) := by
  rw [Json.pointer, mainRunResponse_get env run records _ (.inl rfl), wpRunResponse_config,
    Option.bind_some, Json.pointer, effectiveWpConfig]
  split
  · rw [Json.get_insert_of_ne _ _ _ _ (by decide)]
    rfl
  · rfl

/-- The response tells how many goals were measured. -/
theorem mainRunResponse_goals (env : WpEnvironment) (run : WpRunResponse) (records : RunRecords)
    (goals : List Json) (measured : run.goals = some goals) :
    (mainRunResponse env run records).pointer ["measurement", "goals"] =
      some (.num goals.length) := by
  rw [Json.pointer, mainRunResponse_get env run records _ (.inr rfl),
    wpRunResponse_measurement env run goals measured]
  rfl

/-- The gate reads the functions that the run has resolved. -/
theorem functionScoped_mainRunResponse (env : WpEnvironment) (run : WpRunResponse)
    (records : RunRecords) :
    functionScoped (mainRunResponse env run records) = !run.functions.isEmpty := by
  rw [functionScoped, mainRunResponse_functions]
  cases run.functions <;> rfl

end Response

section Targets

/-- Each name of the list resolves to one function. -/
theorem resolveNames_length {build : Nat} {answers : TableAnswers} :
    ∀ {names : List String} {state : SessionState} {found : SessionState × List FunctionInfo},
      resolveNames build answers state names = some found → found.2.length = names.length
  | [], _, found, resolved => by
      cases resolved
      rfl
  | name :: names, state, found, resolved => by
      rw [resolveNames] at resolved
      obtain ⟨first, _, rest⟩ := Option.bind_eq_some_iff.mp resolved
      obtain ⟨others, later, rfl⟩ := Option.map_eq_some_iff.mp rest
      simp [resolveNames_length later]

/-- The whole project has no target exactly where its table names no function. -/
theorem resolveWpTargets_none_nil {build : Nat} {answers : TableAnswers} {state : SessionState}
    {entries : List Json} {found : SessionState × List FunctionInfo}
    (fetched : answers none = some entries)
    (resolved : resolveWpTargets build answers state none = some found) :
    found.2 = [] ↔ ∀ entry ∈ entries, textOf entry "name" = "" := by
  rw [resolveWpTargets, fetched, Option.map_some] at resolved
  cases resolved
  rw [StableSort.sortByKey_eq_nil_iff, List.map_eq_nil_iff, SessionState.updateFunctions,
    HashMap.entries_ofList_eq_nil_iff, List.map_eq_nil_iff, List.filter_eq_nil_iff]
  simp

end Targets

section Codes

/-- A list of this kind never reports a changed goal table. -/
def Silent (gaps : List Json) : Prop :=
  ∀ gap ∈ gaps, codeOf gap ≠ some EvidenceCode.wpGoalsChangedUnderCheck.text

theorem codeOf_gap (code : EvidenceCode) (reason : Json) (rest : List (String × Json)) :
    codeOf (gap code reason rest) = some code.text := rfl

theorem text_eq_iff (code : EvidenceCode) :
    code.text = EvidenceCode.wpGoalsChangedUnderCheck.text ↔
      code = .wpGoalsChangedUnderCheck := by
  cases code <;> decide

/-- A gap of another code does not report the change. -/
theorem Silent.gap {code : EvidenceCode} (other : code ≠ .wpGoalsChangedUnderCheck)
    (reason : Json) (rest : List (String × Json)) :
    Silent [EvidenceGates.gap code reason rest] := by
  intro gap member
  rw [List.mem_singleton.mp member, codeOf_gap, ne_eq, Option.some.injEq, text_eq_iff]
  exact other

theorem Silent.nil : Silent [] := by
  intro gap member
  cases member

theorem Silent.append {first second : List Json} (left : Silent first) (right : Silent second) :
    Silent (first ++ second) := by
  intro gap member
  rcases List.mem_append.mp member with member | member
  · exact left gap member
  · exact right gap member

theorem silent_backendAnomalyGaps (diagnosis goals : Json) :
    Silent (backendAnomalyGaps diagnosis goals) := by
  rw [backendAnomalyGaps]
  split_ifs
  · exact Silent.gap (by decide) _ _
  · exact Silent.nil

theorem silent_smokeTestGaps (requested : Bool) (wp : Json) :
    Silent (smokeTestGaps requested wp) := by
  rw [smokeTestGaps]
  split_ifs
  · exact Silent.nil
  · split
    · exact Silent.gap (by decide) _ _
    · simp only
      split
      · exact Silent.gap (by decide) _ _
      · split_ifs
        · exact Silent.nil
        · exact Silent.gap (by decide) _ _

theorem silent_withheldByRequestGaps (unsignedSkipped rte : Bool) (prop : Option String) :
    Silent (withheldByRequestGaps unsignedSkipped rte prop) := by
  refine Silent.append ?_ ?_
  · split_ifs
    · exact Silent.gap (by decide) _ _
    · exact Silent.nil
  · cases prop with
    | none => exact Silent.nil
    | some prop => exact Silent.gap (by decide) _ _

theorem silent_messagesTruncatedGaps (truncated : Bool) :
    Silent (messagesTruncatedGaps truncated) := by
  rw [messagesTruncatedGaps]
  split_ifs
  · exact Silent.gap (by decide) _ _
  · exact Silent.nil

theorem messageCode_ne (message : Json) :
    messageCode message ≠ some .wpGoalsChangedUnderCheck := by
  simp only [messageCode]
  split_ifs <;> simp

/-- A message never reports the change of the goals. -/
theorem recordMessage_code {code : EvidenceCode} (other : code ≠ .wpGoalsChangedUnderCheck)
    (text : String) (source : Option Json) {findings : List MessageFinding}
    (silent : ∀ finding ∈ findings, finding.code ≠ .wpGoalsChangedUnderCheck) :
    ∀ finding ∈ recordMessage code text source findings,
      finding.code ≠ .wpGoalsChangedUnderCheck := by
  induction findings with
  | nil => simpa [recordMessage] using other
  | cons first findings ih =>
      obtain ⟨head, rest⟩ := List.forall_mem_cons.mp silent
      rw [recordMessage]
      split_ifs
      · exact List.forall_mem_cons.mpr ⟨head, rest⟩
      · exact List.forall_mem_cons.mpr ⟨head, ih rest⟩

theorem messageFindings_code (messages : List Json) :
    ∀ finding ∈ messageFindings messages, finding.code ≠ .wpGoalsChangedUnderCheck := by
  rw [messageFindings]
  induction messages using List.reverseRecOn with
  | nil => simp
  | append_singleton messages message ih =>
      rw [List.foldl_append, List.foldl_cons, List.foldl_nil]
      cases named : messageCode message with
      | none => simpa only [named] using ih
      | some code =>
          have other : code ≠ .wpGoalsChangedUnderCheck := fun same =>
            messageCode_ne message (named.trans (congrArg some same))
          simpa only [named] using recordMessage_code other _ _ ih

theorem silent_wpMessageGaps (messages : List Json) (model : Option String) :
    Silent (wpMessageGaps messages model) := by
  refine Silent.append ?_ ?_
  · intro gap member
    obtain ⟨finding, found, rfl⟩ := List.mem_map.mp member
    have other := messageFindings_code messages finding found
    rw [MessageFinding.toJson, codeOf_gap, ne_eq, Option.some.injEq, text_eq_iff]
    exact other
  · split_ifs
    · exact Silent.nil
    · exact Silent.gap (by decide) _ _

theorem silent_memoryModelHypothesisGap (probe : Json) :
    Silent (memoryModelHypothesisGap probe).toList := by
  rw [memoryModelHypothesisGap]
  split_ifs
  · exact Silent.nil
  · exact Silent.gap (by decide) _ _

theorem silent_memoryModelUncheckedGap (probe : Json) (wanted : WantedAnalyses) :
    Silent (memoryModelUncheckedGap probe wanted).toList := by
  rw [memoryModelUncheckedGap]
  cases (probe.get "reason").bind Json.asStr with
  | none =>
      rw [Option.bind_none]
      split_ifs
      · exact Silent.nil
      · exact Silent.nil
      · exact Silent.gap (by decide) _ _
      · exact Silent.nil
  | some reason =>
      rw [Option.bind_some]
      split_ifs
      · exact Silent.nil
      · exact Silent.nil
      · exact Silent.gap (by decide) _ _
      · exact Silent.nil
      · exact Silent.gap (by decide) _ _

/-- Only the gate of the goal table reports that it changed. -/
theorem mem_runEvidenceGates_iff (input : RunEvidenceInputs) :
    EvidenceCode.wpGoalsChangedUnderCheck.text ∈ (runEvidenceGates input).filterMap codeOf ↔
      ∃ gap ∈ goalsChangedGaps input.wanted input.narrowedByProp input.wp input.wpGoals,
        codeOf gap = some EvidenceCode.wpGoalsChangedUnderCheck.text := by
  rw [List.mem_filterMap]
  constructor
  · rintro ⟨gap, member, code⟩
    rw [runEvidenceGates] at member
    simp only [List.mem_append] at member
    rcases member with ((((((member | member) | member) | member) | member) | member) | member) |
      member
    · exact absurd code (silent_backendAnomalyGaps _ _ gap member)
    · exact ⟨gap, member, code⟩
    · exact absurd code (silent_smokeTestGaps _ _ gap member)
    · exact absurd code (silent_withheldByRequestGaps _ _ _ gap member)
    · exact absurd code (silent_messagesTruncatedGaps _ gap member)
    · exact absurd code (silent_wpMessageGaps _ _ gap member)
    · exact absurd code (silent_memoryModelHypothesisGap _ gap member)
    · exact absurd code (silent_memoryModelUncheckedGap _ _ gap member)
  · rintro ⟨gap, member, code⟩
    refine ⟨gap, ?_, code⟩
    rw [runEvidenceGates]
    simp only [List.mem_append]
    exact .inl (.inl (.inl (.inl (.inl (.inl (.inr member))))))

end Codes

/-- The gate reports a changed table unless it takes the run for a scoped one. -/
theorem goalsChangedGaps_code_iff {wanted : WantedAnalyses} {wp : Json} {rows : List Json}
    {measured : Nat} (proofs : wanted.wp = true)
    (counted : (wp.pointer ["measurement", "goals"]).bind Json.asU64 = some measured)
    (changed : measured ≠ rows.length) :
    (∃ gap ∈ goalsChangedGaps wanted none wp (.arr rows),
        codeOf gap = some EvidenceCode.wpGoalsChangedUnderCheck.text) ↔
      functionScoped wp = false := by
  rw [goalsChangedGaps, proofs]
  cases functionScoped wp with
  | true => simp
  | false =>
      simp only [counted, Json.asArray, Option.map_some, if_pos changed]
      exact ⟨fun _ => trivial, fun _ => ⟨_, List.mem_singleton.mpr rfl, rfl⟩⟩

/-- A run without a scope has no function in its configuration exactly where it names no profile
and its project has no function. -/
theorem targets_nil_iff {build : Nat} {answers : TableAnswers} {state : SessionState}
    {profile functions : Option (List String)} {found : SessionState × List FunctionInfo}
    (requested : requestedFunctions none profile = some functions)
    (resolved : resolveWpTargets build answers state functions = some found) :
    found.2 = [] ↔ profile = none ∧ ∀ entries, answers none = some entries →
      ∀ entry ∈ entries, textOf entry "name" = "" := by
  cases profile with
  | none =>
      cases requested
      cases fetched : answers none with
      | none =>
          rw [resolveWpTargets, fetched] at resolved
          cases resolved
      | some entries =>
          rw [resolveWpTargets_none_nil fetched resolved]
          simp
  | some declared =>
      rw [requestedFunctions] at requested
      split_ifs at requested with empty
      cases requested
      have length := resolveNames_length resolved
      have present : found.2 ≠ [] := by
        intro nothing
        rw [nothing, List.length_nil] at length
        exact empty (List.length_eq_zero_iff.mp length.symm)
      simp [present]

/-- A check that names no function and no property reports the changed table exactly where it
names no profile and its project has no function. -/
theorem goalsChanged_reported_iff (check : MainCheck) {gaps rows : List Json}
    (collected : check.gaps = some gaps) (proofs : check.wanted.wp = true)
    (unscoped : check.function = none) (unnarrowed : check.run.params.prop = none)
    (readBack : check.wpGoals = .arr rows) (fits : check.goals.length < 2 ^ 64)
    (changed : check.goals.length ≠ rows.length) :
    EvidenceCode.wpGoalsChangedUnderCheck.text ∈ gaps.filterMap codeOf ↔
      check.profile = none ∧ ∀ entries, check.answers none = some entries →
        ∀ entry ∈ entries, textOf entry "name" = "" := by
  obtain ⟨wp, payload, rfl⟩ := Option.map_eq_some_iff.mp collected
  rw [MainCheck.wp, if_pos proofs, unscoped, Option.map_none] at payload
  obtain ⟨functions, requested, answered⟩ := Option.bind_eq_some_iff.mp payload
  obtain ⟨targets, resolved, rfl⟩ := Option.map_eq_some_iff.mp answered
  rw [mem_runEvidenceGates_iff, ← targets_nil_iff requested resolved]
  simp only [unnarrowed, readBack]
  rw [goalsChangedGaps_code_iff proofs _ changed, functionScoped_mainRunResponse]
  · simp
  · rw [mainRunResponse_goals _ _ _ _ rfl, Option.bind_some, Json.asU64, if_pos]
    · rfl
    · exact ⟨Int.natCast_nonneg _, by exact_mod_cast fits⟩

/-- The project has one function, the run proved seven goals, and none was read back. -/
def clearedTableCheck (entries : List Json) : MainCheck where
  wanted := ⟨false, true⟩
  function := none
  profile := none
  build := 0
  answers _ := some entries
  state := {}
  env := {}
  run :=
    { tasks := .obj [], params := {}, functions := [], scope := "main", rteEnabled := true,
      unsignedRte := true, pointerRte := false, framaCProtocol := [], proofreadReport := none,
      goals := none, hostLoad := .null, timeoutTriage := .null, failureKind := .null }
  goals := List.replicate 7 (.obj [("status", .str "valid")])
  records := ⟨.arr [], .null, .null, none, .null, none⟩
  requestedSmoke := false
  rte := true
  unsignedRteSkipped := false
  messages := []
  messagesTruncated := false
  wpGoals := .arr []

theorem goalsChanged_reported_iff_example :
    ∃ gaps, (clearedTableCheck []).gaps = some gaps ∧
      (EvidenceCode.wpGoalsChangedUnderCheck.text ∈ gaps.filterMap codeOf ↔
        (clearedTableCheck []).profile = none ∧
          ∀ entries, (clearedTableCheck []).answers none = some entries →
            ∀ entry ∈ entries, textOf entry "name" = "") :=
  ⟨_, rfl, goalsChanged_reported_iff (clearedTableCheck []) rfl rfl rfl rfl rfl (by decide)
    (by decide)⟩

/-- The cleared table of a project with one function goes unreported. -/
theorem not_goalsChanged_reported :
    ¬ ∀ (check : MainCheck) (gaps rows : List Json), check.gaps = some gaps →
      check.wanted.wp = true → check.function = none → check.run.params.prop = none →
      check.wpGoals = .arr rows → check.goals.length ≠ rows.length →
      EvidenceCode.wpGoalsChangedUnderCheck.text ∈ gaps.filterMap codeOf := by
  intro reported
  have member := reported (clearedTableCheck [.obj [("name", .str "main")]]) _ [] rfl rfl rfl rfl rfl
    (by decide)
  revert member
  decide +kernel

end FramaCMcp.EvidenceGates
