/-
This file proves that each diagnostic names the entry that its clause came from.
-/

import Mathlib.Data.Nat.SuccPred
import FramaCMcp.Foundation.JsonUnique
import FramaCMcp.Construction.InjectionPlan
import FramaCMcp.Foundation.Accumulation
import FramaCMcp.Foundation.StateFlow

namespace FramaCMcp.Annotations

open StateFlow (map_eq_ok)

namespace AnnotationKind

def isGroup : AnnotationKind → Bool
  | .completeBehaviors | .disjointBehaviors => true
  | _ => false

/-- The value is appended to its field or fills its slot. -/
def add (params : InjectAllAnnotationsParams) (value : Json) :
    AnnotationKind → InjectAllAnnotationsParams
  | .global => { params with proposedGlobals := append params.proposedGlobals value }
  | .behavior => { params with proposedBehaviors := append params.proposedBehaviors value }
  | .requires => { params with proposedRequires := append params.proposedRequires value }
  | .ensures => { params with proposedEnsures := append params.proposedEnsures value }
  | .assigns => { params with proposedAssigns := append params.proposedAssigns value }
  | .assert => { params with proposedAsserts := append params.proposedAsserts value }
  | .loop => { params with proposedLoopAnnots := append params.proposedLoopAnnots value }
  | .terminates => { params with proposedTerminates := some value }
  | .exits => { params with proposedExits := some value }
  | .decreases => { params with proposedDecreases := some value }
  | .completeBehaviors => { params with
      proposedCompleteBehaviors := append params.proposedCompleteBehaviors value }
  | .disjointBehaviors => { params with
      proposedDisjointBehaviors := append params.proposedDisjointBehaviors value }

variable {params : InjectAllAnnotationsParams}

theorem values_add_self (kind : AnnotationKind) (value : Json)
    (free : kind.isSingle = true → kind.values params = []) :
    kind.values (kind.add params value) = kind.values params ++ [value] := by
  cases kind <;> first | rfl | rw [free rfl]; rfl

theorem values_add_of_ne {kind other : AnnotationKind} (different : other ≠ kind) (value : Json) :
    other.values (kind.add params value) = other.values params := by
  cases kind <;> cases other <;> first | rfl | exact absurd rfl different

theorem ofTag_tag (kind : AnnotationKind) : ofTag kind.tag = some kind := by
  cases kind <;> decide

end AnnotationKind

def untagged (entry : Json) : List (String × Json) :=
  removeField "kind" (entry.asObject.getD [])

/-- The names of a group stand under one of two keys. -/
def entryNames (entry : Json) : Option Json :=
  (untagged entry).lookup "behaviors" <|> (untagged entry).lookup "names"

/-- An entry describes its names where it is a group, and what is left of it otherwise. -/
def described (kind : AnnotationKind) (entry : Json) : Json :=
  if kind.isGroup then (entryNames entry).getD .null
  else .obj (removeField
    (if ((untagged entry).lookup "behaviors").isSome then "behaviors" else "names")
    (untagged entry))

section Expansion

variable [UnicodeTables]

/-- A ghost entry changes no field, and any other entry adds to the field of its kind. -/
theorem expandKind_cases {state next : Expansion} {index : Nat} {tag : String} {value : Json}
    {names : Option Json} (expanded : expandKind state index tag value names = .ok next) :
    (ghostKinds.contains tag = true ∧ next.params = state.params) ∨
      ghostKinds.contains tag = false ∧ ∃ kind, AnnotationKind.ofTag tag = some kind ∧
        (kind.isSingle = true → kind.values state.params = []) ∧
        next.params = kind.add state.params
          (if kind.isGroup then names.getD .null else value) := by
  have single {slot : Option Json} {filled : Option Json} {kind : String}
      (filling : fillSingle index kind slot value = .ok filled) :
      slot.toList = [] ∧ filled = some value := by
    unfold fillSingle at filling
    split_ifs at filling with occupied
    rw [Bool.not_eq_true, Option.isSome_eq_false_iff, Option.isNone_iff_eq_none] at occupied
    rw [occupied]
    exact ⟨rfl, (Except.ok.inj filling).symm⟩
  have group {kind : String} {filled : Json}
      (filling : behaviorGroupNames index kind names = .ok filled) : names.getD .null = filled := by
    unfold behaviorGroupNames at filling
    split at filling
    · cases filling
    · split_ifs at filling
      exact Except.ok.inj filling
  unfold expandKind at expanded
  simp only at expanded
  split_ifs at expanded with ghost
  · obtain rfl := Except.ok.inj expanded
    exact .inl ⟨ghost, rfl⟩
  refine .inr ⟨Bool.eq_false_of_not_eq_true ghost, ?_⟩
  split at expanded
  · obtain rfl := Except.ok.inj expanded
    exact ⟨.global, AnnotationKind.ofTag_tag .global, nofun, rfl⟩
  · obtain rfl := Except.ok.inj expanded
    exact ⟨.behavior, AnnotationKind.ofTag_tag .behavior, nofun, rfl⟩
  · obtain rfl := Except.ok.inj expanded
    exact ⟨.requires, AnnotationKind.ofTag_tag .requires, nofun, rfl⟩
  · obtain rfl := Except.ok.inj expanded
    exact ⟨.ensures, AnnotationKind.ofTag_tag .ensures, nofun, rfl⟩
  · obtain rfl := Except.ok.inj expanded
    exact ⟨.assigns, AnnotationKind.ofTag_tag .assigns, nofun, rfl⟩
  · obtain rfl := Except.ok.inj expanded
    exact ⟨.assert, AnnotationKind.ofTag_tag .assert, nofun, rfl⟩
  · obtain rfl := Except.ok.inj expanded
    exact ⟨.loop, AnnotationKind.ofTag_tag .loop, nofun, rfl⟩
  · obtain ⟨slot, filling, rfl⟩ := map_eq_ok.mp expanded
    obtain ⟨free, rfl⟩ := single filling
    exact ⟨.terminates, AnnotationKind.ofTag_tag .terminates, fun _ => free, rfl⟩
  · obtain ⟨slot, filling, rfl⟩ := map_eq_ok.mp expanded
    obtain ⟨free, rfl⟩ := single filling
    exact ⟨.exits, AnnotationKind.ofTag_tag .exits, fun _ => free, rfl⟩
  · obtain ⟨slot, filling, rfl⟩ := map_eq_ok.mp expanded
    obtain ⟨free, rfl⟩ := single filling
    exact ⟨.decreases, AnnotationKind.ofTag_tag .decreases, fun _ => free, rfl⟩
  · obtain ⟨slot, filling, rfl⟩ := map_eq_ok.mp expanded
    obtain rfl := group filling
    exact ⟨.completeBehaviors, AnnotationKind.ofTag_tag .completeBehaviors, nofun, rfl⟩
  · obtain ⟨slot, filling, rfl⟩ := map_eq_ok.mp expanded
    obtain rfl := group filling
    exact ⟨.disjointBehaviors, AnnotationKind.ofTag_tag .disjointBehaviors, nofun, rfl⟩
  · cases expanded

/-- A ghost entry changes no field, and any other entry adds what it describes to its field. -/
theorem expandEntry_cases {state next : Expansion} {entry : Json × Nat}
    (expanded : expandEntry state entry = .ok next) :
    (clauseKind entry.1 = none ∧ next.params = state.params) ∨
      ∃ kind, clauseKind entry.1 = some kind ∧
        (kind.isSingle = true → kind.values state.params = []) ∧
        next.params = kind.add state.params (described kind entry.1) := by
  unfold expandEntry at expanded
  split at expanded
  · cases expanded
  rename_i fields object
  split at expanded
  · cases expanded
  rename_i tag tagged
  have kind : kindOf entry.1 = some tag := by
    rw [kindOf, object]
    exact tagged
  have left : untagged entry.1 = removeField "kind" fields := by
    rw [untagged, object]
    rfl
  have value {value : Json} {names : Option Json}
      (own : value = .obj (removeField
        (if ((untagged entry.1).lookup "behaviors").isSome then "behaviors" else "names")
        (untagged entry.1)))
      (group : names = entryNames entry.1)
      (expanded : expandKind state entry.2 tag value names = .ok next) :
      (clauseKind entry.1 = none ∧ next.params = state.params) ∨
        ∃ kind, clauseKind entry.1 = some kind ∧
          (kind.isSingle = true → kind.values state.params = []) ∧
          next.params = kind.add state.params (described kind entry.1) := by
    subst own group
    rw [clauseKind, kind, Option.bind_some]
    rcases expandKind_cases expanded with ⟨ghost, same⟩ | ⟨plain, kind, found, free, added⟩
    · rw [if_pos ghost]
      exact .inl ⟨rfl, same⟩
    · rw [if_neg (by rw [plain]; exact Bool.false_ne_true)]
      exact .inr ⟨kind, found, free, added⟩
  simp only at expanded
  split at expanded
  · rename_i names found
    apply value _ _ expanded
    · rw [left, found]
      rfl
    · rw [entryNames, left, found]
      rfl
  · rename_i absent
    apply value _ _ expanded
    · rw [left, absent]
      rfl
    · rw [entryNames, left, absent]
      rfl

end Expansion

section Paths

theorem field_letters (kind : AnnotationKind) :
    ∀ letter ∈ kind.field.toList, letter ≠ '[' ∧ letter ≠ '.' := by
  have plain : (kind.field.toList.all fun letter => letter != '[' && letter != '.') = true := by
    cases kind <;> rfl
  intro letter member
  have own := List.all_eq_true.mp plain letter member
  simpa only [Bool.and_eq_true, bne_iff_ne] using own

theorem field_injective : Function.Injective AnnotationKind.field := by
  have named : ∀ kind : AnnotationKind,
      AnnotationKind.all.find? (fun other => other.field == kind.field) = some kind := by
    intro kind
    cases kind <;> decide
  intro kind other same
  have found := named kind
  rw [same, named other] at found
  exact (Option.some.inj found).symm

theorem toList_indexed (path : String) (index : Nat) :
    (indexed path index).toList = path.toList ++ '[' :: ((toString index).toList ++ [']']) := by
  rw [indexed, String.toList_append, String.toList_append, String.toList_append]
  simp

theorem takeWhile_path (kind : AnnotationKind) (position : Nat) :
    (kind.path position).toList.takeWhile (· != '[') = kind.field.toList := by
  have inside : ∀ letter ∈ kind.field.toList, (letter != '[') = true := fun letter member =>
    bne_iff_ne.mpr (field_letters kind letter member).1
  rw [AnnotationKind.path]
  split_ifs
  · exact List.takeWhile_eq_self_iff.mpr inside
  · rw [toList_indexed, List.takeWhile_append_of_pos inside]
    simp

/-- A path names its kind, and the position in a list. -/
theorem path_injective {kind other : AnnotationKind} {position index : Nat}
    (same : kind.path position = other.path index) :
    kind = other ∧ (kind.isSingle = false → position = index) := by
  have fields : kind = other := by
    apply field_injective
    apply String.toList_injective
    rw [← takeWhile_path kind position, ← takeWhile_path other index, same]
  refine ⟨fields, fun list => ?_⟩
  subst fields
  rw [AnnotationKind.path, AnnotationKind.path, if_neg (by rw [list]; exact Bool.false_ne_true),
    if_neg (by rw [list]; exact Bool.false_ne_true), indexed, indexed, String.append_left_inj,
    String.append_right_inj] at same
  exact Json.nat_repr_inj same

theorem path_letters (kind : AnnotationKind) (position : Nat) :
    ∀ letter ∈ (kind.path position).toList, letter ≠ '.' := by
  intro letter member
  rw [AnnotationKind.path] at member
  split_ifs at member
  · exact (field_letters kind letter member).2
  · rw [toList_indexed] at member
    rcases List.mem_append.mp member with field | rest
    · exact (field_letters kind letter field).2
    · rcases List.mem_cons.mp rest with rfl | digits
      · decide
      · rcases List.mem_append.mp digits with digit | last
        · rintro rfl
          have numeral : '.' ∈ Nat.toDigits 10 position := by
            simpa [Nat.repr] using digit
          exact absurd (Nat.isDigit_of_mem_toDigits (by decide) (by decide) numeral) (by decide)
        · rw [List.mem_singleton.mp last]
          decide

end Paths

section Traces

variable [UnicodeTables] {params : InjectAllAnnotationsParams}

/-- These are the values that the entries add to the field of the kind, with the entries. -/
def tagged (kind : AnnotationKind) (entries : List (Json × Nat)) : List (Json × Nat) :=
  entries.filterMap fun entry =>
    if clauseKind entry.1 = some kind then some (described kind entry.1, entry.2) else none

/-- A position of a field belongs to the caller's own value or to the entry that filled it. -/
def sourceAt (params : InjectAllAnnotationsParams) (entries : List (Json × Nat))
    (kind : AnnotationKind) (position : Nat) : Option Nat :=
  if position < (kind.values params).length then none
  else ((tagged kind entries)[position - (kind.values params).length]?).map Prod.snd

/-- The fields hold the caller's own values and what the entries added, and the origins lead from
the paths of the added values to their entries. -/
structure Traces (params : InjectAllAnnotationsParams) (entries : List (Json × Nat))
    (state : Expansion × HashMap Nat) : Prop where
  values : ∀ kind : AnnotationKind, kind.values state.1.params =
    kind.values params ++ (tagged kind entries).map Prod.fst
  origin : ∀ (kind : AnnotationKind) (position : Nat),
    position < (kind.values state.1.params).length →
      state.2.lookup (kind.path position) = sourceAt params entries kind position
  keys : ∀ key index, state.2.lookup key = some index →
    ∃ (kind : AnnotationKind) (position : Nat), key = kind.path position

omit [UnicodeTables] in
theorem traces_start : Traces params [] (⟨{ params with annotations := none }, []⟩, ∅) where
  values := by
    intro kind
    cases kind <;> exact (List.append_nil _).symm
  origin := by
    intro kind position inside
    have own : position < (kind.values params).length := by cases kind <;> exact inside
    rw [sourceAt, if_pos own, AList.lookup_empty]
  keys := by
    intro key index found
    rw [AList.lookup_empty] at found
    cases found

section Step

variable {entries : List (Json × Nat)} {state : Expansion × HashMap Nat} {entry : Json × Nat}
  {expansion : Expansion}

omit [UnicodeTables] in
theorem tagged_of_ne {kind : AnnotationKind} (other : clauseKind entry.1 ≠ some kind) :
    tagged kind (entries ++ [entry]) = tagged kind entries := by
  rw [tagged, List.filterMap_append, List.filterMap_cons, if_neg other]
  exact List.append_nil _

omit [UnicodeTables] in
theorem tagged_of_eq {kind : AnnotationKind} (clause : clauseKind entry.1 = some kind) :
    tagged kind (entries ++ [entry]) = tagged kind entries ++ [(described kind entry.1, entry.2)] := by
  rw [tagged, List.filterMap_append, List.filterMap_cons, if_pos clause]
  rfl

omit [UnicodeTables] in
theorem Traces.silent (traces : Traces params entries state) (silent : clauseKind entry.1 = none)
    (same : expansion.params = state.1.params) :
    Traces params (entries ++ [entry]) (expansion, state.2) := by
  have untouched (kind : AnnotationKind) : tagged kind (entries ++ [entry]) = tagged kind entries :=
    tagged_of_ne (by rw [silent]; exact nofun)
  constructor
  · intro kind
    rw [untouched]
    simp only [same]
    exact traces.values kind
  · intro kind position inside
    simp only [same] at inside
    rw [sourceAt, untouched]
    exact traces.origin kind position inside
  · exact traces.keys

omit [UnicodeTables] in
theorem Traces.add (traces : Traces params entries state) {kind : AnnotationKind}
    (clause : clauseKind entry.1 = some kind)
    (free : kind.isSingle = true → kind.values state.1.params = [])
    (added : expansion.params = kind.add state.1.params (described kind entry.1)) :
    Traces params (entries ++ [entry])
      (expansion, state.2.insert (kind.path (kind.values state.1.params).length) entry.2) := by
  have apart {other : AnnotationKind} (different : other ≠ kind) :
      tagged other (entries ++ [entry]) = tagged other entries :=
    tagged_of_ne (by rw [clause]; exact fun same => different (Option.some.inj same).symm)
  have count := congrArg List.length (traces.values kind)
  rw [List.length_append, List.length_map] at count
  constructor
  · intro other
    simp only [added]
    by_cases same : other = kind
    · subst same
      rw [AnnotationKind.values_add_self other _ free, tagged_of_eq clause, traces.values,
        List.map_append, List.append_assoc]
      rfl
    · rw [AnnotationKind.values_add_of_ne same, apart same]
      exact traces.values other
  · intro other position inside
    simp only [added] at inside
    by_cases same : other = kind
    · subst same
      rw [AnnotationKind.values_add_self other _ free, List.length_append, List.length_singleton]
        at inside
      rw [sourceAt, tagged_of_eq clause]
      by_cases last : position = (other.values state.1.params).length
      · rw [last, AList.lookup_insert, if_neg (by omega)]
        have place : (other.values state.1.params).length - (other.values params).length =
            (tagged other entries).length := by omega
        rw [place, List.getElem?_concat_length]
        rfl
      · have different : other.path position ≠ other.path (other.values state.1.params).length := by
          intro paths
          cases single : other.isSingle with
          | true =>
              rw [free single, List.length_nil] at inside last
              omega
          | false => exact last ((path_injective paths).2 single)
        rw [AList.lookup_insert_ne different, traces.origin other position (by omega), sourceAt]
        split_ifs with own
        · rfl
        · rw [List.getElem?_append_left (by omega)]
    · rw [AnnotationKind.values_add_of_ne same] at inside
      have different : other.path position ≠ kind.path (kind.values state.1.params).length :=
        fun paths => same (path_injective paths).1
      rw [AList.lookup_insert_ne different, traces.origin other position inside, sourceAt, sourceAt,
        apart same]
  · intro key index found
    by_cases own : key = kind.path (kind.values state.1.params).length
    · exact ⟨kind, _, own⟩
    · rw [AList.lookup_insert_ne own] at found
      exact traces.keys key index found

theorem Traces.step {next : Expansion × HashMap Nat} (traces : Traces params entries state)
    (stepped : traceEntry state entry = .ok next) : Traces params (entries ++ [entry]) next := by
  unfold traceEntry at stepped
  cases expanded : expandEntry state.1 entry with
  | error message =>
      rw [expanded] at stepped
      cases stepped
  | ok expansion =>
      rw [expanded] at stepped
      obtain rfl := Except.ok.inj stepped
      rcases expandEntry_cases expanded with ⟨silent, same⟩ | ⟨kind, clause, free, added⟩
      · rw [silent]
        exact traces.silent silent same
      · rw [clause]
        exact traces.add clause free added

theorem Traces.run {next : Expansion × HashMap Nat} (later : List (Json × Nat))
    (traces : Traces params entries state) (ran : later.foldlM traceEntry state = .ok next) :
    Traces params (entries ++ later) next := by
  induction later generalizing entries state with
  | nil =>
      obtain rfl := Except.ok.inj ran
      rw [List.append_nil]
      exact traces
  | cons entry rest ih =>
      rw [List.foldlM_cons] at ran
      cases stepped : traceEntry state entry with
      | error message =>
          rw [stepped] at ran
          cases ran
      | ok between =>
          rw [stepped] at ran
          rw [List.append_cons]
          exact ih (traces.step stepped) ran

end Step

end Traces

section Pieces

instance : Add Plan where
  add first second := ⟨first.entries ++ second.entries, first.failures ++ second.failures⟩

instance : Zero Plan where
  zero := {}

instance : AddMonoid Plan where
  add_assoc _ _ _ := congrArg₂ Plan.mk (List.append_assoc _ _ _) (List.append_assoc _ _ _)
  zero_add _ := rfl
  add_zero _ := congrArg₂ Plan.mk (List.append_nil _) (List.append_nil _)
  nsmul := nsmulRec

/-- These are the paths that the clauses and the failures of a plan name. -/
def Plan.paths (plan : Plan) : List String :=
  plan.entries.map InjectionPlanEntry.derivedFrom ++
    plan.failures.map InjectionFailure.proposedPath

theorem Plan.mem_paths_add {first second : Plan} {path : String} :
    path ∈ (first + second).paths ↔ path ∈ first.paths ∨ path ∈ second.paths := by
  change path ∈ List.map _ (first.entries ++ second.entries) ++
    List.map _ (first.failures ++ second.failures) ↔ _
  simp only [Plan.paths, List.map_append, List.mem_append]
  tauto

/-- The path is the root itself, or a full stop follows the root. -/
def Below (root path : String) : Prop :=
  path = root ∨ ∃ part, path = root ++ "." ++ part

/-- The step adds clauses and failures whose paths lie below the root. -/
structure WritesBelow (root : String) (step : Plan → Plan) : Prop where
  adds : Accumulation.Adds step
  below : ∀ path ∈ (step 0).paths, Below root path

namespace WritesBelow

variable {root : String}

theorem same : WritesBelow root fun plan => plan where
  adds := Accumulation.adds_id
  below := nofun

theorem push {entry : InjectionPlanEntry} (below : Below root entry.derivedFrom) :
    WritesBelow root fun plan => plan.push entry where
  adds _ := congrArg₂ Plan.mk rfl (List.append_nil _).symm
  below := by
    intro path member
    rw [List.mem_singleton.mp member]
    exact below

theorem fail {failure : InjectionFailure} (below : Below root failure.proposedPath) :
    WritesBelow root fun plan => plan.fail failure where
  adds _ := congrArg₂ Plan.mk (List.append_nil _).symm rfl
  below := by
    intro path member
    rw [List.mem_singleton.mp member]
    exact below

theorem comp {first second : Plan → Plan} (own : WritesBelow root first)
    (other : WritesBelow root second) : WritesBelow root fun plan => second (first plan) where
  adds := own.adds.comp other.adds
  below := by
    intro path member
    simp only [other.adds (first 0)] at member
    exact (Plan.mem_paths_add.mp member).elim (own.below path) (other.below path)

theorem foldl {Item : Type} {step : Plan → Item → Plan} (items : List Item)
    (writes : ∀ item ∈ items, WritesBelow root fun plan => step plan item) :
    WritesBelow root fun plan => items.foldl step plan where
  adds := Accumulation.Adds.foldl items fun item member => (writes item member).adds
  below := by
    induction items with
    | nil => nofun
    | cons item rest ih =>
        obtain ⟨own, others⟩ := List.forall_mem_cons.mp writes
        have adds := Accumulation.Adds.foldl rest fun item member => (others item member).adds
        intro path member
        simp only [List.foldl_cons, adds (step 0 item)] at member
        exact (Plan.mem_paths_add.mp member).elim (own.below path) (ih others path)

theorem planWrapped {path acsl : String} {wrapped : Except String String}
    {entry : String → InjectionPlanEntry} (below : Below root path)
    (derived : ∀ acslText, (entry acslText).derivedFrom = path) :
    WritesBelow root fun plan => planWrapped plan path acsl wrapped entry := by
  cases wrapped with
  | error message => exact fail below
  | ok acslText => exact push (by rw [derived]; exact below)

end WritesBelow

/-- One value of the field is planned. -/
def AnnotationKind.planItem (behaviors : Behaviors) : AnnotationKind → Plan → Json × Nat → Plan
  | .global => planGlobal
  | .behavior => fun plan _ => plan
  | .requires => planRequire behaviors
  | .ensures => planEnsure behaviors
  | .assigns => planAssign behaviors
  | .assert => planAssert
  | .loop => loopAnnotsToAcsl behaviors
  | .terminates => fun plan value => pushSingleFunspecClause plan "terminates"
      "proposed_terminates" "termination clause" (some value.1) behaviors
  | .exits => fun plan value => pushSingleFunspecClause plan "exits" "proposed_exits" "exit clause"
      (some value.1) behaviors
  | .decreases => fun plan value => pushSingleFunspecClause plan "decreases" "proposed_decreases"
      "decreases clause" (some value.1) behaviors
  | .completeBehaviors => pushBehaviorGroup "complete" "proposed_complete_behaviors" behaviors
  | .disjointBehaviors => pushBehaviorGroup "disjoint" "proposed_disjoint_behaviors" behaviors

theorem writesBelow_clause (loop : Loop) (behaviors : Behaviors)
    (keyword part purpose label : String) (value : Json) :
    WritesBelow loop.path (loop.clause behaviors keyword part purpose label value) :=
  .planWrapped (.inr ⟨part, rfl⟩) fun _ => rfl

theorem writesBelow_assigns (loop : Loop) (behaviors : Behaviors) (value : Json × Nat) :
    WritesBelow loop.path fun plan => loop.assigns behaviors plan value := by
  unfold Loop.assigns
  split_ifs
  · exact .same
  · exact writesBelow_clause loop behaviors _ _ _ _ _

theorem writesBelow_variant (loop : Loop) (behaviors : Behaviors) (value : Option Json) :
    WritesBelow loop.path fun plan => loop.variant behaviors plan value := by
  unfold Loop.variant
  cases value with
  | none => exact .same
  | some value =>
      simp only
      split_ifs
      · exact .same
      · exact writesBelow_clause loop behaviors _ _ _ _ _

/-- The clauses of a loop lie below the path of the loop. -/
theorem writesBelow_loop (loop : Loop) (behaviors : Behaviors) (invariants assigns : List Json)
    (variant : Option Json) :
    WritesBelow loop.path fun plan => loop.variant behaviors
      (assigns.zipIdx.foldl (loop.assigns behaviors)
        (invariants.zipIdx.foldl (loop.invariant behaviors) plan)) variant :=
  ((WritesBelow.foldl invariants.zipIdx fun _ _ => writesBelow_clause loop behaviors _ _ _ _ _).comp
    (.foldl assigns.zipIdx fun value _ => writesBelow_assigns loop behaviors value)).comp
    (writesBelow_variant loop behaviors variant)

theorem writesBelow_single (behaviors : Behaviors) (keyword path purpose : String) (value : Json) :
    WritesBelow path fun plan =>
      pushSingleFunspecClause plan keyword path purpose (some value) behaviors := by
  unfold pushSingleFunspecClause
  simp only
  split_ifs
  · exact .same
  · exact .planWrapped (.inl rfl) fun _ => rfl

theorem writesBelow_group (behaviors : Behaviors) (keyword path : String) (group : Json × Nat) :
    WritesBelow (indexed path group.2) fun plan =>
      pushBehaviorGroup keyword path behaviors plan group := by
  unfold pushBehaviorGroup
  split
  · exact .fail (.inl rfl)
  · exact .push (.inl rfl)

theorem writesBelow_planItem (behaviors : Behaviors) (kind : AnnotationKind) (value : Json × Nat) :
    WritesBelow (kind.path value.2) fun plan => kind.planItem behaviors plan value := by
  cases kind with
  | global =>
      change WritesBelow _ fun plan => planGlobal plan value
      unfold planGlobal
      split_ifs
      · exact .same
      · exact .push (.inl rfl)
  | behavior => exact .same
  | requires => exact .planWrapped (.inl rfl) fun _ => rfl
  | ensures => exact .planWrapped (.inl rfl) fun _ => rfl
  | assigns =>
      change WritesBelow _ fun plan => planAssign behaviors plan value
      unfold planAssign
      simp only
      split_ifs
      · exact .same
      · exact .planWrapped (.inl rfl) fun _ => rfl
  | assert =>
      change WritesBelow _ fun plan => planAssert plan value
      unfold planAssert
      simp only
      split_ifs
      · exact .same
      · split
        · exact .fail (.inl rfl)
        · exact .push (.inl rfl)
  | loop =>
      exact writesBelow_loop ⟨indexed "proposed_loop_annots" value.2,
        (value.1.get "stmt_id").bind Json.asI64, textOr value.1 "loop_label" ""⟩ behaviors _ _ _
  | terminates => exact writesBelow_single behaviors _ _ _ value.1
  | exits => exact writesBelow_single behaviors _ _ _ value.1
  | decreases => exact writesBelow_single behaviors _ _ _ value.1
  | completeBehaviors => exact writesBelow_group behaviors _ _ value
  | disjointBehaviors => exact writesBelow_group behaviors _ _ value

/-- The clauses are planned in this order. -/
def AnnotationKind.planned : List AnnotationKind :=
  [.global, .requires, .terminates, .decreases, .exits, .ensures, .assigns, .completeBehaviors,
    .disjointBehaviors, .assert, .loop]

/-- A value of a field stands at its position. -/
structure Piece where
  kind : AnnotationKind
  position : Nat
  value : Json

/-- These are the clauses and the failures that the value alone leads to. -/
def Piece.made (behaviors : Behaviors) (piece : Piece) : Plan :=
  piece.kind.planItem behaviors 0 (piece.value, piece.position)

def Piece.root (piece : Piece) : String := piece.kind.path piece.position

def pieces (params : InjectAllAnnotationsParams) : List Piece :=
  AnnotationKind.planned.flatMap fun kind =>
    (kind.values params).zipIdx.map fun value => ⟨kind, value.2, value.1⟩

theorem foldl_planItem (behaviors : Behaviors) (kind : AnnotationKind) (values : List (Json × Nat))
    (plan : Plan) :
    values.foldl (kind.planItem behaviors) plan =
      plan + ((values.map fun value => Piece.mk kind value.2 value.1).map
        (Piece.made behaviors)).sum := by
  rw [Accumulation.foldl_eq_add_sum values fun value _ =>
    (writesBelow_planItem behaviors kind value).adds, List.map_map]
  rfl

theorem foldl_planned (behaviors : Behaviors) (params : InjectAllAnnotationsParams)
    (kinds : List AnnotationKind) (plan : Plan) :
    kinds.foldl (fun plan kind => (kind.values params).zipIdx.foldl (kind.planItem behaviors) plan)
        plan =
      plan + ((kinds.flatMap fun kind =>
        (kind.values params).zipIdx.map fun value => Piece.mk kind value.2 value.1).map
          (Piece.made behaviors)).sum := by
  induction kinds generalizing plan with
  | nil => exact (add_zero plan).symm
  | cons kind rest ih =>
      rw [List.foldl_cons, ih, foldl_planItem, List.flatMap_cons, List.map_append, List.sum_append,
        add_assoc]

/-- The plan has the clauses and the failures of each value in turn. -/
theorem buildInjectionPlan_eq_sum (params : InjectAllAnnotationsParams) :
    buildInjectionPlan params =
      ((pieces params).map (Piece.made (behaviorAssumesTable params.proposedBehaviors))).sum := by
  have planned : buildInjectionPlan params = AnnotationKind.planned.foldl (fun plan kind =>
      (kind.values params).zipIdx.foldl
        (kind.planItem (behaviorAssumesTable params.proposedBehaviors)) plan) {} := by
    rcases params with ⟨_, _, _, _, _, _, _, _, _, _, _, _, terminates, exits, decreases⟩
    cases terminates <;> cases exits <;> cases decreases <;> rfl
  rw [planned, foldl_planned]
  exact zero_add _

end Pieces

section Diagnostics

theorem splitPath_of_plain {path : String} (plain : ∀ letter ∈ path.toList, letter ≠ '.') :
    splitPath path = none := by
  rw [splitPath, if_neg]
  intro member
  exact plain '.' (List.contains_iff_mem.mp member) rfl

theorem splitPath_append {path : String} (plain : ∀ letter ∈ path.toList, letter ≠ '.')
    (part : String) : splitPath (path ++ "." ++ part) = some (path, part) := by
  have letters : (path ++ "." ++ part).toList = path.toList ++ '.' :: part.toList := by
    rw [String.toList_append, String.toList_append, List.append_assoc]
    rfl
  have inside : ∀ letter ∈ path.toList, (letter != '.') = true := fun letter member =>
    bne_iff_ne.mpr (plain letter member)
  rw [splitPath, letters, if_pos (by simp), List.takeWhile_append_of_pos inside,
    List.dropWhile_append_of_pos inside]
  simp

variable {params : InjectAllAnnotationsParams}

/-- A path below the path of a value leads where the value comes from. -/
theorem Traces.relabelPath_below {entries : List (Json × Nat)} {state : Expansion × HashMap Nat}
    (traces : Traces params entries state) {kind : AnnotationKind} {position : Nat}
    (inside : position < (kind.values state.1.params).length) {path : String}
    (below : Below (kind.path position) path) :
    ∃ rest, path = kind.path position ++ rest ∧ relabelPath path state.2 =
      (sourceAt params entries kind position).map fun index => (entryPath index ++ rest, index) := by
  have plain := path_letters kind position
  rcases below with rfl | ⟨part, rfl⟩
  · refine ⟨"", String.append_empty.symm, ?_⟩
    rw [relabelPath, traces.origin kind position inside]
    cases sourceAt params entries kind position with
    | none =>
        simp only [splitPath_of_plain plain]
        rfl
    | some index => simp
  · have absent : state.2.lookup (kind.path position ++ "." ++ part) = none := by
      cases found : state.2.lookup (kind.path position ++ "." ++ part) with
      | none => rfl
      | some index =>
          obtain ⟨other, place, same⟩ := traces.keys _ index found
          have dot : '.' ∈ (other.path place).toList := by
            rw [← same]
            simp
          exact absurd rfl (path_letters other place '.' dot)
    refine ⟨"." ++ part, String.append_assoc, ?_⟩
    rw [relabelPath, absent]
    simp only [splitPath_append plain, Option.bind_some, traces.origin kind position inside]
    simp only [String.append_assoc]

/-- The value of a piece is the caller's own, or it comes from the tagged entry at this index. -/
def Piece.source (params : InjectAllAnnotationsParams) (piece : Piece) : Option Nat :=
  sourceAt params (params.annotations.getD []).zipIdx piece.kind piece.position

/-- A caller's own value stands at its place in the field, and any other is what its entry describes. -/
def Piece.ComesFrom (params : InjectAllAnnotationsParams) (piece : Piece) : Option Nat → Prop
  | none => (piece.kind.values params)[piece.position]? = some piece.value
  | some index => ∃ entry, (params.annotations.getD [])[index]? = some entry ∧
      clauseKind entry = some piece.kind ∧ piece.value = described piece.kind entry

theorem mem_pieces {piece : Piece} : piece ∈ pieces params ↔
    piece.kind ≠ .behavior ∧ (piece.kind.values params)[piece.position]? = some piece.value := by
  have planned : ∀ kind : AnnotationKind, kind ∈ AnnotationKind.planned ↔ kind ≠ .behavior := by
    intro kind
    cases kind <;> decide
  simp only [pieces, List.mem_flatMap, List.mem_map, planned]
  constructor
  · rintro ⟨kind, clause, value, member, rfl⟩
    exact ⟨clause, List.mem_zipIdx_iff_getElem?.mp member⟩
  · rintro ⟨clause, found⟩
    exact ⟨piece.kind, clause, (piece.value, piece.position),
      List.mem_zipIdx_iff_getElem?.mpr found, rfl⟩

theorem mem_tagged {kind : AnnotationKind} {entries : List Json} {value : Json} {index : Nat} :
    (value, index) ∈ tagged kind entries.zipIdx ↔ ∃ entry, entries[index]? = some entry ∧
      clauseKind entry = some kind ∧ value = described kind entry := by
  simp only [tagged, List.mem_filterMap]
  constructor
  · rintro ⟨⟨entry, place⟩, member, made⟩
    split_ifs at made with clause
    obtain ⟨rfl, rfl⟩ := Prod.mk.inj (Option.some.inj made)
    exact ⟨entry, List.mem_zipIdx_iff_getElem?.mp member, clause, rfl⟩
  · rintro ⟨entry, found, clause, rfl⟩
    exact ⟨(entry, index), List.mem_zipIdx_iff_getElem?.mpr found, if_pos clause⟩

/-- No entry adds twice to a field. -/
theorem tagged_places_nodup (kind : AnnotationKind) (entries : List Json) :
    ((tagged kind entries.zipIdx).map Prod.snd).Nodup := by
  have rising : (entries.zipIdx.map Prod.snd).Pairwise (· < ·) := by
    rw [List.zipIdx_map_snd]
    exact List.pairwise_lt_range'
  rw [List.Nodup, List.pairwise_map, tagged]
  apply List.Pairwise.filterMap _ _ (List.pairwise_map.mp rising)
  intro first second less left made right other
  split_ifs at made with clause
  split_ifs at other with clause'
  rw [← Option.some.inj made, ← Option.some.inj other]
  exact less.ne

section Accepted

variable {state : Expansion × HashMap Nat}
  (traces : Traces params (params.annotations.getD []).zipIdx state)

include traces

theorem Traces.comesFrom {piece : Piece} (listed : piece ∈ pieces state.1.params) :
    piece.ComesFrom params (piece.source params) := by
  have found := (mem_pieces.mp listed).2
  rw [traces.values] at found
  rw [Piece.source, sourceAt]
  split_ifs with own
  · rw [List.getElem?_append_left own] at found
    exact found
  · rw [List.getElem?_append_right (by omega), List.getElem?_map] at found
    obtain ⟨⟨value, index⟩, added, same⟩ := Option.map_eq_some_iff.mp found
    rw [added]
    change piece.ComesFrom params (some index)
    have described := mem_tagged.mp (List.mem_of_getElem? added)
    simp only at same
    rwa [same] at described

theorem Traces.existsUnique_piece {index : Nat} {entry : Json} {kind : AnnotationKind}
    (given : (params.annotations.getD [])[index]? = some entry)
    (clause : clauseKind entry = some kind) (plans : kind ≠ .behavior) :
    ∃! piece, piece ∈ pieces state.1.params ∧ piece.source params = some index := by
  obtain ⟨place, added⟩ := List.mem_iff_getElem?.mp
    (mem_tagged.mpr ⟨entry, given, clause, rfl⟩ :
      (described kind entry, index) ∈ tagged kind (params.annotations.getD []).zipIdx)
  refine ⟨⟨kind, (kind.values params).length + place, described kind entry⟩, ⟨?_, ?_⟩, ?_⟩
  · apply mem_pieces.mpr
    refine ⟨plans, ?_⟩
    rw [traces.values, List.getElem?_append_right (Nat.le_add_right _ _), Nat.add_sub_cancel_left,
      List.getElem?_map, added]
    rfl
  · change sourceAt params _ kind ((kind.values params).length + place) = some index
    rw [sourceAt, if_neg (by omega), Nat.add_sub_cancel_left, added]
    rfl
  · rintro ⟨other, position, value⟩ ⟨listed, source⟩
    obtain ⟨named, same, otherClause, describes⟩ :
        (Piece.mk other position value).ComesFrom params (some index) :=
      source ▸ traces.comesFrom listed
    rw [given] at same
    obtain rfl := Option.some.inj same
    rw [clause] at otherClause
    change some kind = some other at otherClause
    obtain rfl := Option.some.inj otherClause
    change value = described kind entry at describes
    change sourceAt params _ kind position = some index at source
    rw [sourceAt] at source
    split_ifs at source with own
    have here := congrArg (Option.map Prod.snd) added
    rw [← List.getElem?_map] at here source
    have distinct := tagged_places_nodup kind (params.annotations.getD [])
    obtain ⟨bound, -⟩ := List.getElem?_eq_some_iff.mp source
    have places : position - (kind.values params).length = place :=
      (List.getElem?_inj bound distinct).mp (source.trans here.symm)
    have behind : position = (kind.values params).length + place := by omega
    rw [behind, describes]

end Accepted

/-- A path leads to the tagged entry that its clause came from, and to nothing for a clause of the
caller's own fields. Each clause entry is the source of what its own value leads to. -/
theorem buildInjectionPlan_origins [UnicodeTables] (params : InjectAllAnnotationsParams)
    (expansion : Expansion) (origin : HashMap Nat)
    (accepted : expandWithOrigin params = .ok (expansion, origin)) :
    buildInjectionPlan expansion.params = ((pieces expansion.params).map
        (Piece.made (behaviorAssumesTable expansion.params.proposedBehaviors))).sum ∧
      (∀ piece ∈ pieces expansion.params,
        piece.ComesFrom params (piece.source params) ∧
        ∀ path ∈ (piece.made
            (behaviorAssumesTable expansion.params.proposedBehaviors)).paths,
          ∃ rest, path = piece.root ++ rest ∧ relabelPath path origin =
            (piece.source params).map fun index => (entryPath index ++ rest, index)) ∧
      ∀ index entry kind, (params.annotations.getD [])[index]? = some entry →
        clauseKind entry = some kind → kind ≠ .behavior →
          ∃! piece, piece ∈ pieces expansion.params ∧ piece.source params = some index := by
  have traces : Traces params (params.annotations.getD []).zipIdx (expansion, origin) :=
    traces_start.run _ accepted
  refine ⟨buildInjectionPlan_eq_sum _, fun piece listed => ⟨traces.comesFrom listed, ?_⟩,
    fun index entry kind given clause plans => traces.existsUnique_piece given clause plans⟩
  intro path member
  obtain ⟨inside, -⟩ := List.getElem?_eq_some_iff.mp (mem_pieces.mp listed).2
  exact traces.relabelPath_below inside ((writesBelow_planItem _ piece.kind
    (piece.value, piece.position)).below path member)

/-- This call has a precondition in its own field and a tagged one with a tagged loop. -/
def mixedCall : InjectAllAnnotationsParams where
  function := some "f"
  proposedRequires := some [.obj [("acsl", .str "a >= 0")]]
  annotations := some [
    .obj [("kind", .str "loop"), ("invariants", .arr [.obj [("acsl", .str "i >= 0")]])],
    .obj [("kind", .str "requires"), ("acsl", .str "b >= 0")]]

theorem buildInjectionPlan_origins_mixedCall :
    ∃ expansion origin, @expandWithOrigin .ascii mixedCall = .ok (expansion, origin) ∧
      ∀ piece ∈ pieces expansion.params, ∀ path ∈ (piece.made
          (behaviorAssumesTable expansion.params.proposedBehaviors)).paths,
        ∃ rest, path = piece.root ++ rest ∧ relabelPath path origin =
          (piece.source mixedCall).map fun index => (entryPath index ++ rest, index) :=
  ⟨_, _, rfl, fun piece listed =>
    ((@buildInjectionPlan_origins .ascii mixedCall _ _ rfl).2.1 piece listed).2⟩

end Diagnostics

end FramaCMcp.Annotations
