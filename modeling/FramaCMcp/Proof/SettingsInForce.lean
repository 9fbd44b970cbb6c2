/-
This file compares the settings of one run after two histories of the process.
-/

import FramaCMcp.Construction.WpSettings
import Mathlib.Data.List.Induction

namespace FramaCMcp.WpSettings

open StateFlow

section Requests

variable {Part : Type} {part : Settings → Part} {outcome : Outcome} {request : WpRequest}
  {effect : Settings → Settings}

theorem send_oblivious : Oblivious (send outcome request effect) := Oblivious.perform _ _

theorem step_oblivious (succeeded : Bool) : Oblivious (step succeeded) := Oblivious.settle _

theorem send_preserves {inv : Settings → Prop} (held : ∀ settings, inv settings → inv (effect settings)) :
    Preserves inv (send outcome request effect) := by
  intro settings before
  rw [send, final_perform]
  split_ifs
  · exact held settings before
  · exact before

theorem send_keeps (kept : ∀ settings, part (effect settings) = part settings) :
    Keeps part (send outcome request effect) :=
  Keeps.iff_preserves.mpr fun _ => send_preserves fun settings held => (kept settings).trans held

/-- A request that is answered has had its effect. -/
theorem send_fixes (fixed : ∀ settings other, part (effect settings) = part (effect other)) :
    Fixes part (send outcome request effect) := by
  intro settings other value returned
  rw [send, result_perform] at returned
  split_ifs at returned with answered
  subst answered
  exact fixed settings other

end Requests

section Selection

variable {getProvers : Option Json} {outcome : WpRequest → Outcome} {requested : List String}

/-- These are the provers that the process can toggle. -/
def offered (getProvers : Option Json) : List String :=
  ((getProvers.bind Json.asArray).getD []).filterMap Json.asStr

/-- This request puts one prover into the state that the names ask for. -/
def toggle (outcome : WpRequest → Outcome) (requested : List String) (id : String) : Run Unit :=
  send (outcome (.setProverState id)) (.setProverState id) fun settings =>
    { settings with
      proverState := Function.update settings.proverState id
        (requested.any fun name => proverIdMatches name id) }

/-- After the list of provers is read there are four ways on. -/
theorem applyProverSelection_cases (getProvers : Option Json) (outcome : WpRequest → Outcome)
    (requested : List String) :
    ∃ rest : Run Unit,
      applyProverSelection getProvers outcome requested =
          (send (outcome .getProvers) .getProvers id >>= fun _ => rest) ∧
        ((getProvers = none ∧
            rest = send (outcome .setProvers) .setProvers fun settings =>
              { settings with proverList := requested }) ∨
          (getProvers ≠ none ∧ offered getProvers = [] ∧ rest = pure ()) ∨
          (getProvers ≠ none ∧ ∃ fault, rest = throw fault) ∨
          (getProvers ≠ none ∧ rest = (offered getProvers).forM (toggle outcome requested))) := by
  cases getProvers with
  | none => exact ⟨_, rfl, .inl ⟨rfl, rfl⟩⟩
  | some response =>
      refine ⟨_, rfl, .inr ?_⟩
      have present : some response ≠ none := Option.some_ne_none _
      cases array : response.asArray with
      | none =>
          have nothing : offered (some response) = [] := by simp [offered, array]
          exact .inl ⟨present, nothing, by simp only [array]⟩
      | some available =>
          have listed : offered (some response) = available.filterMap Json.asStr := by
            simp [offered, array]
          by_cases matched : unmatchedProvers requested (available.filterMap Json.asStr) ≠ []
          · exact .inr (.inl ⟨present, _, by simp only [array, if_pos matched]; rfl⟩)
          · refine .inr (.inr ⟨present, ?_⟩)
            simp only [array, if_neg matched, listed]
            rfl

theorem applyProverSelection_oblivious :
    Oblivious (applyProverSelection getProvers outcome requested) := by
  obtain ⟨rest, equation, ways⟩ :=
    applyProverSelection_cases getProvers outcome requested
  rw [equation]
  refine Oblivious.bind send_oblivious fun _ => ?_
  rcases ways with ⟨_, rfl⟩ | ⟨_, _, rfl⟩ | ⟨_, _, rfl⟩ | ⟨_, rfl⟩
  · exact send_oblivious
  · exact Oblivious.pure _
  · exact Oblivious.throw _
  · exact Oblivious.forM _ fun _ _ => send_oblivious

/-- The selection keeps an invariant that neither kind of selecting request breaks. -/
theorem applyProverSelection_preserves {inv : Settings → Prop}
    (list : getProvers = none → ∀ settings, inv settings →
      inv { settings with proverList := requested })
    (state : getProvers ≠ none → ∀ prover ∈ offered getProvers, ∀ settings selected, inv settings →
      inv { settings with
        proverState := Function.update settings.proverState prover selected }) :
    Preserves inv (applyProverSelection getProvers outcome requested) := by
  obtain ⟨rest, equation, ways⟩ :=
    applyProverSelection_cases getProvers outcome requested
  rw [equation]
  refine Preserves.bind (send_preserves fun _ held => held) fun _ => ?_
  rcases ways with ⟨absent, rfl⟩ | ⟨_, _, rfl⟩ | ⟨_, _, rfl⟩ | ⟨present, rfl⟩
  · exact send_preserves (list absent)
  · exact Preserves.pure _
  · exact Preserves.throw _
  · exact Preserves.forM _ fun prover member => send_preserves fun settings held =>
      state present prover member settings _ held

theorem applyProverSelection_fixes_list (absent : getProvers = none) :
    Fixes Settings.proverList (applyProverSelection getProvers outcome requested) := by
  subst absent
  exact Fixes.bind_right send_oblivious fun _ => send_fixes fun _ _ => rfl

/-- Every offered prover is set, whatever was selected before. -/
theorem applyProverSelection_fixes_state {prover : String} (member : prover ∈ offered getProvers) :
    Fixes (fun settings => settings.proverState prover)
      (applyProverSelection getProvers outcome requested) := by
  obtain ⟨rest, equation, ways⟩ :=
    applyProverSelection_cases getProvers outcome requested
  rw [equation]
  refine Fixes.bind_right send_oblivious fun _ => ?_
  rcases ways with ⟨absent, _⟩ | ⟨_, empty, _⟩ | ⟨_, _, rfl⟩ | ⟨_, rfl⟩
  · rw [absent] at member
    cases member
  · rw [empty] at member
    cases member
  · exact Fixes.throw _
  · refine Fixes.forM _ (fun _ _ => send_oblivious) (fun other _ => ?_) ⟨prover, member, ?_⟩
    · by_cases same : prover = other
      · subst same
        exact .inl (send_fixes fun _ _ => by simp)
      · exact .inr (send_keeps fun settings => by simp [Function.update_of_ne same])
    · exact send_fixes fun _ _ => by simp

end Selection

section Config

variable {env : WpEnvironment} {getProvers : Option Json} {pass : Pass} {params : RunWpParams}
  {provers : Option (List String)}

theorem applyWpConfig_oblivious : Oblivious (applyWpConfig env getProvers pass params provers) := by
  refine Oblivious.bind (Oblivious.optional _ fun _ => applyProverSelection_oblivious) fun _ => ?_
  refine Oblivious.bind (Oblivious.settle _) fun _ => ?_
  refine Oblivious.bind (Oblivious.optional _ fun _ => send_oblivious) fun _ => ?_
  refine Oblivious.bind (Oblivious.settle _) fun _ => Oblivious.bind send_oblivious fun _ => ?_
  refine Oblivious.bind (Oblivious.settle _) fun _ => Oblivious.bind (Oblivious.settle _) fun _ => ?_
  exact send_oblivious

/-- The settings keep an invariant that none of the requests breaks. -/
theorem applyWpConfig_preserves {inv : Settings → Prop}
    (selection : ∀ names ∈ provers, Preserves inv (applyProverSelection getProvers pass.outcome names))
    (timeout : ∀ timeout : UInt32, effectiveWpTimeout env params = .ok (some timeout) →
      ∀ settings, inv settings → inv { settings with timeout := timeout.toNat })
    (cache : ∀ settings mode, inv settings → inv { settings with cacheMode := mode })
    (config : ∀ settings model par, inv settings →
      inv (setWpConfig model params.prop par (params.steps.getD 0) settings)) :
    Preserves inv (applyWpConfig env getProvers pass params provers) := by
  refine Preserves.bind ?_ fun _ => ?_
  · cases provers with
    | none => exact Preserves.pure _
    | some names => exact selection names rfl
  · cases named : effectiveWpTimeout env params with
    | error fault => exact fun settings held => held
    | ok value =>
        rw [settle_ok_bind]
        refine Preserves.bind ?_ fun _ => ?_
        · cases value with
          | none => exact Preserves.pure _
          | some value => exact send_preserves (timeout value named)
        · refine Preserves.bind (Preserves.settle _) fun mode => ?_
          refine Preserves.bind (send_preserves fun settings => cache settings mode) fun _ => ?_
          refine Preserves.bind (Preserves.settle _) fun _ => ?_
          exact Preserves.bind (Preserves.settle _) fun par =>
            send_preserves fun settings => config settings _ par

/-- The requests after the selection fix a part that one of them sets in every run. -/
theorem applyWpConfig_fixes_config {Part : Type} {part : Settings → Part}
    (fixed : ∀ par, effectiveWpPar env params = .ok par → ∀ settings other,
      part (setWpConfig (params.model.getD defaultWpModel) params.prop par (params.steps.getD 0)
          settings) =
        part (setWpConfig (params.model.getD defaultWpModel) params.prop par (params.steps.getD 0)
          other)) :
    Fixes part (applyWpConfig env getProvers pass params provers) := by
  refine Fixes.bind_right (Oblivious.optional _ fun _ => applyProverSelection_oblivious) fun _ => ?_
  refine Fixes.bind_right (Oblivious.settle _) fun _ => ?_
  refine Fixes.bind_right (Oblivious.optional _ fun _ => send_oblivious) fun _ => ?_
  refine Fixes.bind_right (Oblivious.settle _) fun _ => Fixes.bind_right send_oblivious fun _ => ?_
  refine Fixes.bind_right (Oblivious.settle _) fun _ => ?_
  cases allowed : effectiveWpPar env params with
  | error fault => exact fun settings other value returned => by cases returned
  | ok par => exact send_fixes (fixed par allowed)

theorem applyWpConfig_fixes_cacheMode :
    Fixes Settings.cacheMode (applyWpConfig env getProvers pass params provers) := by
  refine Fixes.bind_right (Oblivious.optional _ fun _ => applyProverSelection_oblivious) fun _ => ?_
  refine Fixes.bind_right (Oblivious.settle _) fun _ => ?_
  refine Fixes.bind_right (Oblivious.optional _ fun _ => send_oblivious) fun _ => ?_
  refine Fixes.bind_right (Oblivious.settle _) fun _ => ?_
  refine Fixes.bind_left send_oblivious (send_fixes fun _ _ => rfl) fun _ => ?_
  refine Keeps.bind (Keeps.settle _) fun _ => Keeps.bind (Keeps.settle _) fun _ => ?_
  exact send_keeps fun _ => rfl

theorem applyWpConfig_fixes_timeout {timeout : UInt32}
    (named : effectiveWpTimeout env params = .ok (some timeout)) :
    Fixes Settings.timeout (applyWpConfig env getProvers pass params provers) := by
  refine Fixes.bind_right (Oblivious.optional _ fun _ => applyProverSelection_oblivious) fun _ => ?_
  rw [named, settle_ok_bind]
  refine Fixes.bind_left send_oblivious (send_fixes fun _ _ => rfl) fun _ => ?_
  refine Keeps.bind (Keeps.settle _) fun _ => Keeps.bind (send_keeps fun _ => rfl) fun _ => ?_
  refine Keeps.bind (Keeps.settle _) fun _ => Keeps.bind (Keeps.settle _) fun _ => ?_
  exact send_keeps fun _ => rfl

/-- What the selection fixes stays fixed, because no later request selects a prover. -/
theorem applyWpConfig_fixes_selection {Part : Type} (part : List String → (String → Bool) → Part)
    {names : List String}
    (fixed : Fixes (fun settings => part settings.proverList settings.proverState)
      (applyProverSelection getProvers pass.outcome names)) :
    Fixes (fun settings => part settings.proverList settings.proverState)
      (applyWpConfig env getProvers pass params (some names)) := by
  refine Fixes.bind_left applyProverSelection_oblivious fixed fun _ => ?_
  refine Keeps.bind (Keeps.settle _) fun _ => ?_
  refine Keeps.bind (Keeps.optional _ fun _ => send_keeps fun _ => rfl) fun _ => ?_
  refine Keeps.bind (Keeps.settle _) fun _ => Keeps.bind (send_keeps fun _ => rfl) fun _ => ?_
  refine Keeps.bind (Keeps.settle _) fun _ => Keeps.bind (Keeps.settle _) fun _ => ?_
  exact send_keeps fun _ => rfl

end Config

section Runs

variable {env : WpEnvironment} {process : FramaCProcess}

variable {provers : Option (List String)} {call : RunWpCall}

theorem configure_oblivious : Oblivious (configure env process call provers) :=
  Oblivious.bind applyWpConfig_oblivious fun _ => step_oblivious _

theorem configure_fixes {Part : Type} (part : Settings → Part) (fixed : Fixes part
      (applyWpConfig env process.getProvers call.first call.params provers)) :
    Fixes part (configure env process call provers) :=
  Fixes.bind_left applyWpConfig_oblivious fixed fun _ => Keeps.settle _

/-- A run keeps an invariant that neither its configurations nor the restored timeout breaks. -/
theorem runWp_preserves {inv : Settings → Prop} (config : ∀ pass params provers, Preserves inv
      (applyWpConfig env process.getProvers pass params provers))
    (restore : ∀ settings (timeout : UInt32), inv settings →
      inv { settings with timeout := timeout.toNat }) : Preserves inv (runWp env process call) := by
  refine Preserves.bind (Preserves.settle _) fun subject => ?_
  cases subject with
  | none => exact Preserves.pure _
  | some provers =>
      refine Preserves.bind (Preserves.bind (config _ _ _) fun _ => Preserves.settle _) fun _ => ?_
      refine Preserves.bind (Preserves.settle _) fun _ => ?_
      split_ifs
      · rw [retryTimedOutGoals]
        split_ifs
        · refine Preserves.bind (Preserves.inspect _) fun before => ?_
          split_ifs
          · exact Preserves.pure _
          · refine Preserves.bind (Preserves.observe (Preserves.bind (config _ _ _) fun _ =>
              Preserves.settle _)) fun _ => ?_
            refine Preserves.bind (Preserves.observe (send_preserves fun settings =>
              restore settings before)) fun _ => ?_
            exact Preserves.bind (Preserves.settle _) fun _ => Preserves.settle _
        · exact Preserves.pure _
      · exact Preserves.pure _

/-- An invariant of the load that every run keeps holds after every history. -/
theorem run_invariant (inv : Settings → Prop) (loaded : inv process.load)
    (kept : ∀ call, Preserves inv (runWp env process call)) (calls : List RunWpCall) :
    inv (run env process calls) := by
  rw [run]
  induction calls using List.reverseRecOn with
  | nil => exact loaded
  | append_singleton calls call ih =>
      rw [List.foldl_append]
      exact kept call _ ih

/-- This is the part of the selection that no request to the process reaches. -/
structure Unreached (process : FramaCProcess) (settings : Settings) : Prop where
  state : ∀ prover, prover ∉ offered process.getProvers →
    settings.proverState prover = process.load.proverState prover
  list : process.getProvers ≠ none → settings.proverList = process.load.proverList

theorem applyWpConfig_unreached {pass : Pass} {params : RunWpParams} :
    Preserves (Unreached process)
      (applyWpConfig env process.getProvers pass params provers) := by
  refine applyWpConfig_preserves (fun names _ => ?_) (fun _ _ _ held => ⟨held.state, held.list⟩)
    (fun _ _ held => ⟨held.state, held.list⟩) fun _ _ _ held => ⟨held.state, held.list⟩
  refine applyProverSelection_preserves (fun absent settings held => ?_)
    fun present prover member settings selected held => ?_
  · exact ⟨held.state, fun present => absurd absent present⟩
  · refine ⟨fun other outside => ?_, held.list⟩
    have apart : other ≠ prover := fun same => outside (same ▸ member)
    rw [← held.state other outside]
    exact Function.update_of_ne apart _ _

theorem run_unreached (calls : List RunWpCall) : Unreached process (run env process calls) :=
  run_invariant _ ⟨fun _ _ => rfl, fun _ => rfl⟩
    (fun _ => runWp_preserves (fun _ _ _ => applyWpConfig_unreached)
      fun _ _ held => ⟨held.state, held.list⟩) calls

structure AgreeOnNamed (env : WpEnvironment) (params : RunWpParams) (settings other : Settings) :
    Prop where
  steps : settings.steps = other.steps
  cacheMode : settings.cacheMode = other.cacheMode
  model : settings.model = other.model
  provers : ∀ names, effectiveWpProvers env params = .ok (some names) →
    settings.proverList = other.proverList ∧ settings.proverState = other.proverState
  timeout : ∀ timeout, effectiveWpTimeout env params = .ok (some timeout) →
    settings.timeout = other.timeout
  procs : ∀ par, effectiveWpPar env params = .ok (some par) → settings.procs = other.procs
  properties : ∀ prop, params.prop = some prop → settings.properties = other.properties

theorem subject_provers (run : subject env process call = .ok (some provers)) :
    effectiveWpProvers env call.params = .ok provers := by
  rw [subject] at run
  cases named : effectiveWpProvers env call.params with
  | error fault =>
      rw [named] at run
      split_ifs at run
      all_goals cases run
  | ok names =>
      rw [named] at run
      simp only [bind, Except.bind] at run
      split_ifs at run
      all_goals cases run
      rfl

/-- The named selection decides the whole selection of the run. -/
theorem configure_selection {names : List String} {settings other : Settings}
    (first : Unreached process settings) (second : Unreached process other)
    (reached : result (configure env process call (some names)) settings = .ok ()) :
    (final (configure env process call (some names)) settings).proverList =
        (final (configure env process call (some names)) other).proverList ∧
      (final (configure env process call (some names)) settings).proverState =
        (final (configure env process call (some names)) other).proverState := by
  have kept : Preserves (Unreached process) (configure env process call (some names)) :=
    Preserves.bind applyWpConfig_unreached fun _ => Preserves.settle _
  have left := kept settings first
  have right := kept other second
  constructor
  · by_cases absent : process.getProvers = none
    · have fixed : Fixes (fun settings => settings.proverList)
          (configure env process call (some names)) :=
        configure_fixes _ (applyWpConfig_fixes_selection (fun list _ => list)
          (applyProverSelection_fixes_list absent))
      exact fixed settings other () reached
    · rw [left.list absent, right.list absent]
  · funext prover
    by_cases member : prover ∈ offered process.getProvers
    · have fixed : Fixes (fun settings => settings.proverState prover)
          (configure env process call (some names)) :=
        configure_fixes _ (applyWpConfig_fixes_selection (fun _ state => state prover)
          (applyProverSelection_fixes_state member))
      exact fixed settings other () reached
    · rw [left.state prover member, right.state prover member]

theorem configure_agree {settings other : Settings}
    (run : subject env process call = .ok (some provers)) (first : Unreached process settings)
    (second : Unreached process other)
    (reached : result (configure env process call provers) settings = .ok ()) :
    AgreeOnNamed env call.params (final (configure env process call provers) settings)
      (final (configure env process call provers) other) where
  steps :=
    configure_fixes Settings.steps (applyWpConfig_fixes_config fun _ _ _ _ => rfl)
      settings other () reached
  cacheMode :=
    configure_fixes _ applyWpConfig_fixes_cacheMode settings other () reached
  model :=
    configure_fixes Settings.model (applyWpConfig_fixes_config fun _ _ _ _ => rfl)
      settings other () reached
  provers := by
    intro names named
    rw [subject_provers run] at named
    cases named
    exact configure_selection first second reached
  timeout := fun timeout named =>
    configure_fixes _ (applyWpConfig_fixes_timeout named) settings other () reached
  procs := by
    intro par named
    refine configure_fixes Settings.procs (applyWpConfig_fixes_config ?_)
      settings other () reached
    intro allowed same settings other
    rw [named] at same
    cases same
    rfl
  properties := by
    intro prop named
    refine configure_fixes Settings.properties (applyWpConfig_fixes_config ?_)
      settings other () reached
    intro allowed _ settings other
    rw [named]
    rfl

theorem inForce_agree (call : RunWpCall) {settings other : Settings}
    (first : Unreached process settings) (second : Unreached process other) :
    Option.Rel (AgreeOnNamed env call.params) (inForce env process call settings)
      (inForce env process call other) := by
  simp only [inForce]
  split
  · rename_i provers run
    rw [configure_oblivious other settings]
    cases reached : result (configure env process call provers) settings with
    | error fault => exact .none
    | ok value => exact .some (configure_agree run first second reached)
  · exact .none

/-- Where nothing names the timeout, the run takes the one that the process holds. -/
theorem inForce_timeout {settings forced : Settings}
    (unnamed : effectiveWpTimeout env call.params = .ok none)
    (scheduled : inForce env process call settings = some forced) :
    forced.timeout = settings.timeout := by
  simp only [inForce] at scheduled
  split at scheduled
  · rename_i provers run
    have kept : Keeps Settings.timeout (configure env process call provers) := by
      refine Keeps.bind (Keeps.iff_preserves.mpr fun held => ?_) fun _ => Keeps.settle _
      refine applyWpConfig_preserves (fun names _ => ?_) (fun timeout named => ?_)
        (fun _ _ same => same) fun _ _ _ same => same
      · exact applyProverSelection_preserves (fun _ _ same => same) fun _ _ _ _ _ same => same
      · rw [unnamed] at named
        cases named
    split at scheduled
    · cases scheduled
      exact kept settings
    · cases scheduled
  · cases scheduled

/-- The retry puts back the timeout that it found. -/
theorem retryTimedOutGoals_timeout {settings : Settings} (fits : settings.timeout < 2 ^ 32)
    (restored : call.restore.takesEffect = true) :
    (final (retryTimedOutGoals env process call provers) settings).timeout =
      settings.timeout := by
  rw [retryTimedOutGoals]
  split_ifs
  · rw [final_bind, getTimeout, result_inspect, final_inspect]
    split_ifs
    · simp only
      split_ifs with unbounded
      · rfl
      · simp only [final_bind, result_observe, send, final_observe, final_perform, if_pos restored,
          result_settle, final_settle]
        have positive : settings.timeout.toNat ≠ 0 := by
          intro zero
          rw [zero] at unbounded
          exact unbounded rfl
        have back : ((UInt32.ofNat settings.timeout.toNat).toNat : Int) = settings.timeout := by
          rw [UInt32.toNat_ofNat']
          omega
        split <;> exact back
    · rfl
  · rfl

theorem runWp_timeout {settings forced : Settings}
    (scheduled : inForce env process call settings = some forced) (fits : forced.timeout < 2 ^ 32)
    (restored : call.restore.takesEffect = true) :
    (final (runWp env process call) settings).timeout = forced.timeout := by
  simp only [inForce] at scheduled
  rw [runWp, final_bind, result_settle]
  split at scheduled
  · rename_i provers run
    simp only [run, final_settle]
    split at scheduled
    · rename_i value reached
      cases scheduled
      rw [final_bind, reached]
      simp only
      rw [final_bind, step, result_settle, final_settle]
      split_ifs
      · exact retryTimedOutGoals_timeout fits restored
      all_goals rfl
    · cases scheduled
  · cases scheduled

theorem uint32_lt (timeout : UInt32) : (timeout.toNat : Int) < 2 ^ 32 := by
  exact_mod_cast timeout.toNat_lt

theorem applyWpConfig_timeout_fits {pass : Pass} {params : RunWpParams} :
    Preserves (fun settings => settings.timeout < 2 ^ 32)
      (applyWpConfig env process.getProvers pass params provers) := by
  refine applyWpConfig_preserves (fun names _ => ?_) (fun timeout _ _ _ => uint32_lt timeout)
    (fun _ _ held => held) fun _ _ _ held => held
  exact applyProverSelection_preserves (fun _ _ held => held) fun _ _ _ _ _ held => held

theorem run_timeout_fits (loaded : process.load.timeout < 2 ^ 32) (calls : List RunWpCall) :
    (run env process calls).timeout < 2 ^ 32 := by
  refine run_invariant (fun settings => settings.timeout < 2 ^ 32) loaded (fun call => ?_)
    calls
  exact runWp_preserves (fun _ _ _ => applyWpConfig_timeout_fits) fun _ timeout _ =>
    uint32_lt timeout

theorem inForce_timeout_fits {settings forced : Settings} (fits : settings.timeout < 2 ^ 32)
    (scheduled : inForce env process call settings = some forced) : forced.timeout < 2 ^ 32 := by
  simp only [inForce] at scheduled
  split at scheduled
  · split at scheduled
    · cases scheduled
      exact Preserves.bind applyWpConfig_timeout_fits (fun _ => Preserves.settle _) settings fits
    · cases scheduled
  · cases scheduled

theorem run_append_singleton (calls : List RunWpCall) (call : RunWpCall) :
    run env process (calls ++ [call]) =
      final (runWp env process call) (run env process calls) := by
  simp [run]

end Runs

/-- Two histories leave the same settings for the next run, but for those that only a caller or
the environment sets. The current timeout holds where neither sets one. -/
theorem run_inForce (env : WpEnvironment) (process : FramaCProcess)
    (first second : List RunWpCall) (call : RunWpCall) :
    Option.Rel (AgreeOnNamed env call.params)
        (inForce env process call (run env process first))
        (inForce env process call (run env process second)) ∧
      ∀ forced ∈ inForce env process call (run env process first),
        (effectiveWpTimeout env call.params = .ok none →
          forced.timeout = (run env process first).timeout) ∧
        (process.load.timeout < 2 ^ 32 → call.restore.takesEffect = true →
          (run env process (first ++ [call])).timeout = forced.timeout) := by
  refine ⟨inForce_agree call (run_unreached first) (run_unreached second), ?_⟩
  intro forced scheduled
  refine ⟨fun unnamed => inForce_timeout unnamed scheduled, fun loaded restored => ?_⟩
  rw [run_append_singleton]
  exact runWp_timeout scheduled
    (inForce_timeout_fits (run_timeout_fits loaded first) scheduled) restored

/-- This process offers two provers, and its load selects both. -/
def twoProvers : FramaCProcess where
  sandbox := false
  getProvers := some (.arr [.str "Alt-Ergo:2.6.3", .str "Z3:4.16.0"])
  load :=
    { proverList := [], proverState := fun _ => true, timeout := 10, steps := 0,
      cacheMode := "Update", model := ["Typed+nocast"], procs := 4, properties := [] }

/-- Every request of the call is answered, and some goal runs out of time. -/
def answeredCall (params : RunWpParams) : RunWpCall :=
  let pass : Pass := ⟨fun _ => .done, ⟨["Typed"], ["nocast"]⟩, true⟩
  { params, entered := true, first := pass, resolved := true, timedOut := true,
    timeoutRead := .done, retry := pass, restore := .done }

/-- The retry of the earlier run leaves its own first timeout, and a later run takes it. -/
theorem run_inForce_example :
    ∃ forced,
      inForce {} twoProvers (answeredCall {})
          (run {} twoProvers [answeredCall { timeout := some 30, retryUnproved := some true }]) =
        some forced ∧
      forced.timeout =
        (run {} twoProvers
          [answeredCall { timeout := some 30, retryUnproved := some true }]).timeout ∧
      (run {} twoProvers
          ([answeredCall { timeout := some 30, retryUnproved := some true }] ++
            [answeredCall {}])).timeout =
        forced.timeout := by
  have both := (run_inForce {} twoProvers
    [answeredCall { timeout := some 30, retryUnproved := some true }] [] (answeredCall {})).2 _ rfl
  exact ⟨_, rfl, both.1 rfl, both.2 (by decide) rfl⟩

/-- One earlier call that names a timeout decides the timeout of a later call that names none. -/
theorem not_inForce_same :
    ¬ ∀ (env : WpEnvironment) (process : FramaCProcess) (first second : List RunWpCall)
        (call : RunWpCall),
      inForce env process call (run env process first) =
        inForce env process call (run env process second) := by
  intro same
  have timeouts := congrArg (Option.map Settings.timeout)
    (same {} twoProvers [answeredCall { timeout := some 30 }] [] (answeredCall {}))
  revert timeouts
  decide +kernel

end FramaCMcp.WpSettings
