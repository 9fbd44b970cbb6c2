/-
This file says which parts of a state an action that can fail reads, keeps and overwrites.
-/

import Mathlib.Data.List.Basic

namespace StateFlow

variable {Fault State Value Other Part : Type}

/-- An action can fail, and it changes the state also where it fails. -/
abbrev Action (Fault State Value : Type) := ExceptT Fault (StateM State) Value

/-- This is what the action returns when it starts in the state. -/
def result (action : Action Fault State Value) (state : State) : Except Fault Value :=
  (action.run.run state).1

/-- This is the state that the action leaves. -/
def final (action : Action Fault State Value) (state : State) : State := (action.run.run state).2

/-- The action changes the state and then returns or fails. -/
def perform (effect : State → State) (outcome : Except Fault Value) : Action Fault State Value :=
  ExceptT.mk fun state => (outcome, effect state)

/-- The action only returns or fails. -/
def settle (outcome : Except Fault Value) : Action Fault State Value := perform id outcome

/-- The action reads the state and changes nothing. -/
def inspect (read : State → Except Fault Value) : Action Fault State Value :=
  ExceptT.mk fun state => (read state, state)

/-- A failure becomes a value, so that more can be done before it is raised. -/
def observe (action : Action Fault State Value) : Action Fault State (Except Fault Value) :=
  ExceptT.mk fun state => (.ok (result action state), final action state)

/-- The result does not depend on the state. -/
def Oblivious (action : Action Fault State Value) : Prop :=
  ∀ state other, result action state = result action other

/-- The invariant holds after the action where it held before. -/
def Preserves (inv : State → Prop) (action : Action Fault State Value) : Prop :=
  ∀ state, inv state → inv (final action state)

/-- The action leaves this part of the state as it is. -/
def Keeps (part : State → Part) (action : Action Fault State Value) : Prop :=
  ∀ state, part (final action state) = part state

/-- The action that succeeds leaves this part with a value that the state before does not decide. -/
def Fixes (part : State → Part) (action : Action Fault State Value) : Prop :=
  ∀ state other value, result action state = .ok value →
    part (final action state) = part (final action other)

theorem map_eq_ok {outcome : Except Fault Value} {change : Value → Other} {changed : Other} :
    outcome.map change = .ok changed ↔ ∃ value, outcome = .ok value ∧ change value = changed := by
  cases outcome with
  | error fault => exact ⟨nofun, fun ⟨_, reached, _⟩ => nomatch reached⟩
  | ok value =>
      constructor
      · exact fun same => ⟨value, rfl, Except.ok.inj same⟩
      · rintro ⟨_, ⟨⟩, rfl⟩
        rfl

/-- A chain succeeds exactly where both of its steps do. -/
theorem bind_eq_ok {outcome : Except Fault Value} {next : Value → Except Fault Other} {last : Other} :
    (outcome >>= next) = .ok last ↔ ∃ value, outcome = .ok value ∧ next value = .ok last := by
  cases outcome with
  | error fault => exact ⟨nofun, fun ⟨_, reached, _⟩ => nomatch reached⟩
  | ok value =>
      constructor
      · exact fun same => ⟨value, rfl, same⟩
      · rintro ⟨_, ⟨⟩, same⟩
        exact same

/-- The second action runs on the state that the first one leaves, unless the first one fails. -/
theorem result_bind (action : Action Fault State Value) (next : Value → Action Fault State Other)
    (state : State) :
    result (action >>= next) state =
      match result action state with
      | .ok value => result (next value) (final action state)
      | .error fault => .error fault := by
  simp only [result, final, ExceptT.run_bind, StateT.run_bind]
  change (StateT.run (match (StateT.run (ExceptT.run action) state).1 with
    | .ok value => ExceptT.run (next value)
    | .error fault => pure (Except.error fault)) _).1 = _
  cases (StateT.run (ExceptT.run action) state).1 <;> rfl

/-- A failure keeps the state of the first action. -/
theorem final_bind (action : Action Fault State Value) (next : Value → Action Fault State Other)
    (state : State) :
    final (action >>= next) state =
      match result action state with
      | .ok value => final (next value) (final action state)
      | .error _ => final action state := by
  simp only [result, final, ExceptT.run_bind, StateT.run_bind]
  change (StateT.run (match (StateT.run (ExceptT.run action) state).1 with
    | .ok value => ExceptT.run (next value)
    | .error fault => pure (Except.error fault)) _).2 = _
  cases (StateT.run (ExceptT.run action) state).1 <;> rfl

@[simp] theorem result_perform (effect : State → State) (outcome : Except Fault Value)
    (state : State) : result (perform effect outcome) state = outcome := rfl

@[simp] theorem final_perform (effect : State → State) (outcome : Except Fault Value)
    (state : State) : final (perform effect outcome) state = effect state := rfl

@[simp] theorem result_settle (outcome : Except Fault Value) (state : State) :
    result (settle outcome) state = outcome := rfl

@[simp] theorem final_settle (outcome : Except Fault Value) (state : State) :
    final (settle outcome) state = state := rfl

@[simp] theorem result_inspect (read : State → Except Fault Value) (state : State) :
    result (inspect read) state = read state := rfl

@[simp] theorem final_inspect (read : State → Except Fault Value) (state : State) :
    final (inspect read) state = state := rfl

@[simp] theorem result_observe (action : Action Fault State Value) (state : State) :
    result (observe action) state = .ok (result action state) := rfl

@[simp] theorem final_observe (action : Action Fault State Value) (state : State) :
    final (observe action) state = final action state := rfl

@[simp] theorem result_pure (value : Value) (state : State) :
    result (pure value : Action Fault State Value) state = .ok value := rfl

@[simp] theorem final_pure (value : Value) (state : State) :
    final (pure value : Action Fault State Value) state = state := rfl

@[simp] theorem result_throw (fault : Fault) (state : State) :
    result (throw fault : Action Fault State Value) state = .error fault := rfl

@[simp] theorem final_throw (fault : Fault) (state : State) :
    final (throw fault : Action Fault State Value) state = state := rfl

/-- A step that succeeds in every state hands its value to the rest. -/
theorem settle_ok_bind (value : Value) (next : Value → Action Fault State Other) :
    settle (.ok value) >>= next = next value := rfl

namespace Oblivious

theorem perform (effect : State → State) (outcome : Except Fault Value) :
    Oblivious (perform effect outcome) := fun _ _ => rfl

theorem settle (outcome : Except Fault Value) :
    Oblivious (settle outcome : Action Fault State Value) := fun _ _ => rfl

theorem pure (value : Value) : Oblivious (pure value : Action Fault State Value) := fun _ _ => rfl

theorem throw (fault : Fault) : Oblivious (throw fault : Action Fault State Value) :=
  fun _ _ => rfl

/-- Actions that do not look at the state do not look at it in a row either. -/
theorem bind {action : Action Fault State Value} {next : Value → Action Fault State Other}
    (first : Oblivious action) (second : ∀ value, Oblivious (next value)) :
    Oblivious (action >>= next) := by
  intro state other
  rw [result_bind, result_bind, first state other]
  cases result action other with
  | error fault => rfl
  | ok value => exact second value _ _

/-- A loop is oblivious where each of its turns is. -/
theorem forM {Item : Type} {body : Item → Action Fault State PUnit} (items : List Item)
    (each : ∀ item ∈ items, Oblivious (body item)) : Oblivious (items.forM body) := by
  induction items with
  | nil => exact pure _
  | cons item items ih =>
      rw [List.forM_eq_forM, List.forM_cons]
      refine bind (each item List.mem_cons_self) fun _ => ?_
      exact ih fun item member => each item (List.mem_cons_of_mem _ member)

theorem optional {Item : Type} {body : Item → Action Fault State PUnit} (item : Option Item)
    (each : ∀ item, Oblivious (body item)) :
    Oblivious (item.elim (Pure.pure PUnit.unit) body) := by
  cases item with
  | none => exact pure _
  | some item => exact each item

end Oblivious

namespace Preserves

variable {inv : State → Prop}

theorem settle (outcome : Except Fault Value) : Preserves inv (settle outcome) :=
  fun _ held => held

theorem inspect (read : State → Except Fault Value) : Preserves inv (inspect read) :=
  fun _ held => held

theorem observe {action : Action Fault State Value} (preserved : Preserves inv action) :
    Preserves inv (observe action) := preserved

theorem pure (value : Value) : Preserves inv (pure value : Action Fault State Value) :=
  fun _ held => held

theorem throw (fault : Fault) : Preserves inv (throw fault : Action Fault State Value) :=
  fun _ held => held

/-- An action that fails preserves the invariant as well, so its successor need not run. -/
theorem bind {action : Action Fault State Value} {next : Value → Action Fault State Other}
    (first : Preserves inv action) (second : ∀ value, Preserves inv (next value)) :
    Preserves inv (action >>= next) := by
  intro state held
  rw [final_bind]
  cases result action state with
  | error fault => exact first state held
  | ok value => exact second value _ (first state held)

/-- A loop preserves the invariant where each of its turns does. -/
theorem forM {Item : Type} {body : Item → Action Fault State PUnit} (items : List Item)
    (each : ∀ item ∈ items, Preserves inv (body item)) : Preserves inv (items.forM body) := by
  induction items with
  | nil => exact pure _
  | cons item items ih =>
      rw [List.forM_eq_forM, List.forM_cons]
      refine bind (each item List.mem_cons_self) fun _ => ?_
      exact ih fun item member => each item (List.mem_cons_of_mem _ member)

theorem optional {Item : Type} {body : Item → Action Fault State PUnit} (item : Option Item)
    (each : ∀ item, Preserves inv (body item)) :
    Preserves inv (item.elim (Pure.pure PUnit.unit) body) := by
  cases item with
  | none => exact pure _
  | some item => exact each item

end Preserves

namespace Keeps

variable {part : State → Part}

/-- A part is kept where each of its values is an invariant. -/
theorem iff_preserves {action : Action Fault State Value} :
    Keeps part action ↔ ∀ value, Preserves (fun state => part state = value) action :=
  ⟨fun kept _ state held => (kept state).trans held,
    fun preserved state => preserved _ state rfl⟩

theorem settle (outcome : Except Fault Value) : Keeps part (settle outcome) := fun _ => rfl

theorem bind {action : Action Fault State Value} {next : Value → Action Fault State Other}
    (first : Keeps part action) (second : ∀ value, Keeps part (next value)) :
    Keeps part (action >>= next) :=
  iff_preserves.mpr fun held => Preserves.bind (iff_preserves.mp first held) fun value =>
    iff_preserves.mp (second value) held

theorem forM {Item : Type} {body : Item → Action Fault State PUnit} (items : List Item)
    (each : ∀ item ∈ items, Keeps part (body item)) : Keeps part (items.forM body) :=
  iff_preserves.mpr fun held => Preserves.forM items fun item member =>
    iff_preserves.mp (each item member) held

theorem optional {Item : Type} {body : Item → Action Fault State PUnit} (item : Option Item)
    (each : ∀ item, Keeps part (body item)) :
    Keeps part (item.elim (Pure.pure PUnit.unit) body) :=
  iff_preserves.mpr fun held => Preserves.optional item fun item =>
    iff_preserves.mp (each item) held

end Keeps

namespace Fixes

variable {part : State → Part}

/-- A failure has no value, so it fixes every part. -/
theorem throw (fault : Fault) : Fixes part (throw fault : Action Fault State Value) := by
  intro state other value returned
  cases returned

/-- What the first action fixes stays fixed where the second one keeps it. -/
theorem bind_left {action : Action Fault State Value} {next : Value → Action Fault State Other}
    (oblivious : Oblivious action) (first : Fixes part action)
    (second : ∀ value, Keeps part (next value)) : Fixes part (action >>= next) := by
  intro state other value returned
  rw [result_bind] at returned
  rw [final_bind, final_bind, oblivious other state]
  cases reached : result action state with
  | error fault =>
      rw [reached] at returned
      cases returned
  | ok value =>
      exact (second value _).trans ((first state other value reached).trans (second value _).symm)

/-- What the second action fixes does not depend on the first one, as long as that one succeeds or
fails in every state alike. -/
theorem bind_right {action : Action Fault State Value} {next : Value → Action Fault State Other}
    (oblivious : Oblivious action) (second : ∀ value, Fixes part (next value)) :
    Fixes part (action >>= next) := by
  intro state other value returned
  rw [result_bind] at returned
  rw [final_bind, final_bind, oblivious other state]
  cases reached : result action state with
  | error fault =>
      rw [reached] at returned
      cases returned
  | ok produced =>
      rw [reached] at returned
      exact second produced _ _ value returned

/-- A loop fixes what one of its turns fixes and the other turns keep or fix. -/
theorem forM {Item : Type} {body : Item → Action Fault State PUnit} (items : List Item)
    (oblivious : ∀ item ∈ items, Oblivious (body item))
    (each : ∀ item ∈ items, Fixes part (body item) ∨ Keeps part (body item))
    (some_fixes : ∃ item ∈ items, Fixes part (body item)) : Fixes part (items.forM body) := by
  induction items with
  | nil =>
      obtain ⟨item, member, _⟩ := some_fixes
      cases member
  | cons item items ih =>
      rw [List.forM_eq_forM, List.forM_cons]
      have later : ∀ other ∈ items, Oblivious (body other) := fun other member =>
        oblivious other (List.mem_cons_of_mem _ member)
      have turns : ∀ other ∈ items, Fixes part (body other) ∨ Keeps part (body other) :=
        fun other member => each other (List.mem_cons_of_mem _ member)
      by_cases inside : ∃ other ∈ items, Fixes part (body other)
      · exact bind_right (oblivious item List.mem_cons_self) fun _ => ih later turns inside
      · have kept : ∀ other ∈ items, Keeps part (body other) := fun other member =>
          (turns other member).resolve_left fun fixed => inside ⟨other, member, fixed⟩
        obtain ⟨found, member, fixed⟩ := some_fixes
        rcases List.mem_cons.mp member with rfl | member
        · exact bind_left (oblivious found List.mem_cons_self) fixed fun _ => Keeps.forM _ kept
        · exact absurd ⟨found, member, fixed⟩ inside

end Fixes

end StateFlow
