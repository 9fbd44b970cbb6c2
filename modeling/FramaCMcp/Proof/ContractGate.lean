/-
This file says which calls bring a contract past the gate of the main project.
-/

import FramaCMcp.Construction.InjectionPlan
import FramaCMcp.Foundation.Accumulation
import FramaCMcp.Proof.ContractTexts

namespace FramaCMcp.Annotations

open Accumulation

/-- These are the texts of the function-level clauses. -/
def specTexts (plan : Plan) : List String :=
  (plan.entries.filter fun entry => entry.kind == "spec").map InjectionPlanEntry.acslText

def PlansContract (plan : Plan) : Prop := ∃ text ∈ specTexts plan, containsContract text = true

/-- The clause is wrapped and contains a contract. -/
def ClauseHides (behaviors : Behaviors) (behavior : Option String) (keyword body : String) : Prop :=
  match behavior with
  | none => hidesContract body = true
  | some name => ∃ assumes, behaviors.lookup name = some assumes ∧
      behaviorHides name (behaviorTexts keyword assumes body) = true

/-- A text of the call brings a contract into a function-level clause. -/
inductive CarriesContract (params : InjectAllAnnotationsParams) : Prop where
  | single (value : Json) (given : some value ∈
        [params.proposedTerminates, params.proposedDecreases, params.proposedExits])
      (hidden : hidesContract (clauseText value) = true)
  | assigns (value : Json) (given : value ∈ params.proposedAssigns.getD [])
      (filled : isBlank (textOr value "acsl" "") = false)
      (hidden : ClauseHides (behaviorAssumesTable params.proposedBehaviors)
        (text value "behavior") "assigns" (textOr value "acsl" ""))
  | group (value : Json)
      (given : value ∈ params.proposedCompleteBehaviors.getD [] ++
        params.proposedDisjointBehaviors.getD [])
      (declared : ∀ name ∈ groupNames value,
        ((behaviorAssumesTable params.proposedBehaviors).lookup name).isSome = true)
      (hidden : hidesContract (Text.join (groupNames value) ", ") = true)

section Plans

variable (plan : Plan) (behaviors : Behaviors)

theorem plansContract_push (entry : InjectionPlanEntry) :
    PlansContract (plan.push entry) ↔
      PlansContract plan ∨ entry.kind = "spec" ∧ containsContract entry.acslText = true := by
  simp only [PlansContract, specTexts, Plan.push, List.filter_append, List.map_append,
    List.mem_append, or_and_right, exists_or]
  by_cases spec : entry.kind = "spec"
  · simp [spec]
  · simp [spec]

theorem plansContract_fail (failure : InjectionFailure) :
    PlansContract (plan.fail failure) ↔ PlansContract plan := Iff.rfl

theorem plansContract_planWrapped (path acsl : String) (wrapped : Except String String)
    (entry : String → InjectionPlanEntry) :
    PlansContract (planWrapped plan path acsl wrapped entry) ↔
      PlansContract plan ∨ ∃ acslText, wrapped = .ok acslText ∧
        (entry acslText).kind = "spec" ∧ containsContract (entry acslText).acslText = true := by
  cases wrapped with
  | error message => simp [planWrapped, plansContract_fail]
  | ok acslText => simp [planWrapped, plansContract_push]

theorem wrapFunspecClause_contract {keyword : String} (single : IsKeyword keyword)
    (body path : String) (behavior : Option String) :
    (∃ acslText, wrapFunspecClause keyword body behavior behaviors path = .ok acslText ∧
      containsContract acslText = true) ↔ ClauseHides behaviors behavior keyword body := by
  cases behavior with
  | none => simp [wrapFunspecClause, ClauseHides, containsContract_clause single]
  | some name =>
      cases declared : behaviors.lookup name with
      | none => simp [wrapFunspecClause, ClauseHides, declared]
      | some assumes =>
          simp [wrapFunspecClause, ClauseHides, declared, containsContract_behavior single]

theorem plansContract_pushSingleFunspecClause {keyword : String} (single : IsKeyword keyword)
    (path purpose : String) (value : Option Json) :
    PlansContract (pushSingleFunspecClause plan keyword path purpose value behaviors) ↔
      PlansContract plan ∨ ∃ given, value = some given ∧
        hidesContract (clauseText given) = true := by
  cases value with
  | none => simp [pushSingleFunspecClause]
  | some given =>
      by_cases blank : isBlank (clauseText given) = true
      · simp [pushSingleFunspecClause, blank, hidesContract_blank blank]
      · rw [pushSingleFunspecClause, if_neg blank, plansContract_planWrapped]
        refine or_congr_right ?_
        simp only [true_and, Option.some.injEq, exists_eq_left']
        exact wrapFunspecClause_contract behaviors single _ _ none

theorem plansContract_planAssigns (assigns : Option (List Json)) :
    PlansContract (planAssigns plan assigns behaviors) ↔
      PlansContract plan ∨ ∃ value ∈ assigns.getD [], isBlank (textOr value "acsl" "") = false ∧
        ClauseHides behaviors (text value "behavior") "assigns" (textOr value "acsl" "") := by
  refine holds_foldl_zipIdx PlansContract (planAssign behaviors) _ ?_ _ plan
  intro plan value
  rw [planAssign]
  by_cases blank : isBlank (textOr value.1 "acsl" "") = true
  · simp [blank]
  · simp only [blank, Bool.false_eq_true, if_false, plansContract_planWrapped, true_and,
      containsContract_normalizeAcsl, wrapFunspecClause_contract behaviors (isKeyword_of_mem "assigns" (by simp))]

theorem plansContract_groups {keyword : String} (single : IsKeyword keyword) (path : String)
    (groups : Option (List Json)) :
    PlansContract (pushBehaviorGroupClauses plan keyword path groups behaviors) ↔
      PlansContract plan ∨ ∃ value ∈ groups.getD [],
        (∀ name ∈ groupNames value, (behaviors.lookup name).isSome = true) ∧
          hidesContract (Text.join (groupNames value) ", ") = true := by
  refine holds_foldl_zipIdx PlansContract (pushBehaviorGroup keyword path behaviors) _ ?_ _ plan
  intro plan value
  rw [pushBehaviorGroup]
  cases missing : (groupNames value.1).find? fun name => (behaviors.lookup name).isNone with
  | some name =>
      have found := List.find?_some missing
      have member := List.mem_of_find?_eq_some missing
      simp only [plansContract_fail]
      refine (or_iff_left ?_).symm
      intro declared
      have present := declared.1 name member
      simp [Option.isNone_iff_eq_none.mp found] at present
  | none =>
      have declared : ∀ name ∈ groupNames value.1, (behaviors.lookup name).isSome = true := by
        simpa [List.find?_eq_none, Option.isSome_iff_ne_none] using missing
      simp only [plansContract_push, containsContract_group single, true_and]
      exact or_congr_right ⟨fun hidden => ⟨declared, hidden⟩, fun hidden => hidden.2⟩

theorem plansContract_planGlobals (globals : Option (List Json)) :
    PlansContract (planGlobals plan globals) ↔ PlansContract plan := by
  refine holds_foldl_same PlansContract planGlobal ?_ _ plan
  intro plan value
  rw [planGlobal]
  split_ifs
  · rfl
  · simp [plansContract_push]

theorem plansContract_planAsserts (asserts : Option (List Json)) :
    PlansContract (planAsserts plan asserts) ↔ PlansContract plan := by
  refine holds_foldl_same PlansContract planAssert ?_ _ plan
  intro plan value
  rw [planAssert]
  split_ifs
  · rfl
  · split
    · rfl
    · simp [plansContract_push]

theorem plansContract_clause (loop : Loop) (keyword part purpose label : String) (value : Json) :
    PlansContract (loop.clause behaviors keyword part purpose label value plan) ↔
      PlansContract plan := by
  rw [Loop.clause, plansContract_planWrapped]
  simp

theorem plansContract_loop (value : Json × Nat) :
    PlansContract (loopAnnotsToAcsl behaviors plan value) ↔ PlansContract plan := by
  have invariant : ∀ (loop : Loop) (plan : Plan) (value : Json × Nat),
      PlansContract (loop.invariant behaviors plan value) ↔ PlansContract plan := by
    intro loop plan value
    exact plansContract_clause _ _ _ _ _ _ _ _
  have assigns : ∀ (loop : Loop) (plan : Plan) (value : Json × Nat),
      PlansContract (loop.assigns behaviors plan value) ↔ PlansContract plan := by
    intro loop plan value
    rw [Loop.assigns]
    split_ifs
    · rfl
    · exact plansContract_clause _ _ _ _ _ _ _ _
  have variant : ∀ (loop : Loop) (plan : Plan) (value : Option Json),
      PlansContract (loop.variant behaviors plan value) ↔ PlansContract plan := by
    intro loop plan value
    cases value with
    | none => rfl
    | some value =>
        rw [Loop.variant]
        split_ifs
        · rfl
        · exact plansContract_clause _ _ _ _ _ _ _ _
  rw [loopAnnotsToAcsl, variant, holds_foldl_same PlansContract _ (assigns _),
    holds_foldl_same PlansContract _ (invariant _)]

end Plans

/-- A plan without contract lists holds a contract exactly where a text of the call carries one. -/
theorem plansContract_buildInjectionPlan (params : InjectAllAnnotationsParams)
    (noRequires : params.proposedRequires.getD [] = [])
    (noEnsures : params.proposedEnsures.getD [] = []) :
    PlansContract (buildInjectionPlan params) ↔ CarriesContract params := by
  have loops := holds_foldl_same PlansContract
    (loopAnnotsToAcsl (behaviorAssumesTable params.proposedBehaviors))
    (fun plan => plansContract_loop plan _) (params.proposedLoopAnnots.getD []).zipIdx
  have none : PlansContract {} ↔ False := by simp [PlansContract, specTexts]
  simp only [buildInjectionPlan, planRequires, planEnsures, noRequires, noEnsures,
    List.zipIdx_nil, List.foldl_nil]
  rw [loops, plansContract_planAsserts, plansContract_groups _ _ (isKeyword_of_mem _ (by simp)),
    plansContract_groups _ _ (isKeyword_of_mem _ (by simp)), plansContract_planAssigns,
    plansContract_pushSingleFunspecClause _ _ (isKeyword_of_mem _ (by simp)),
    plansContract_pushSingleFunspecClause _ _ (isKeyword_of_mem _ (by simp)),
    plansContract_pushSingleFunspecClause _ _ (isKeyword_of_mem _ (by simp)),
    plansContract_planGlobals, none]
  constructor
  · intro planned
    rcases planned with (((((impossible | ⟨value, given, hidden⟩) | ⟨value, given, hidden⟩) |
      ⟨value, given, hidden⟩) | ⟨value, given, filled, hidden⟩) |
      ⟨value, given, declared, hidden⟩) | ⟨value, given, declared, hidden⟩
    · exact impossible.elim
    · exact .single value (by simp [given]) hidden
    · exact .single value (by simp [given]) hidden
    · exact .single value (by simp [given]) hidden
    · exact .assigns value given filled hidden
    · exact .group value (List.mem_append_left _ given) declared hidden
    · exact .group value (List.mem_append_right _ given) declared hidden
  · intro carried
    cases carried with
    | single value given hidden =>
        simp only [List.mem_cons, List.not_mem_nil, or_false] at given
        rcases given with given | given | given
        · exact .inl (.inl (.inl (.inl (.inl (.inr ⟨value, given.symm, hidden⟩)))))
        · exact .inl (.inl (.inl (.inl (.inr ⟨value, given.symm, hidden⟩))))
        · exact .inl (.inl (.inl (.inr ⟨value, given.symm, hidden⟩)))
    | assigns value given filled hidden =>
        exact .inl (.inl (.inr ⟨value, given, filled, hidden⟩))
    | group value given declared hidden =>
        rcases List.mem_append.mp given with given | given
        · exact .inl (.inr ⟨value, given, declared, hidden⟩)
        · exact .inr ⟨value, given, declared, hidden⟩

/-- The gate of the main project leaves no contract list. -/
theorem admitCall_lists [UnicodeTables] {params : InjectAllAnnotationsParams} {target : String}
    {expanded : Expansion} (admitted : admitCall params = .ok (target, expanded))
    (main : isSandbox target = false) :
    expanded.params.proposedRequires.getD [] = [] ∧ expanded.params.proposedEnsures.getD [] = [] := by
  have empty : ∀ list : Option (List Json), isNonempty list = false → list.getD [] = [] := by
    intro list none
    cases list with
    | none => rfl
    | some values => simpa [isNonempty] using none
  rw [admitCall] at admitted
  cases found : injectionTarget params with
  | error message => simp [found, bind, Except.bind] at admitted
  | ok name =>
      cases taken : expandTaggedAnnotations params with
      | error message => simp [found, taken, bind, Except.bind] at admitted
      | ok state =>
          simp only [found, taken, bind, Except.bind] at admitted
          split_ifs at admitted with refused
          obtain ⟨rfl, rfl⟩ := Prod.mk.inj (Except.ok.inj admitted)
          simp only [main, Bool.not_false, Bool.true_and, Bool.or_eq_true, not_or,
            Bool.not_eq_true] at refused
          exact ⟨empty _ refused.1, empty _ refused.2⟩

/-- The plan for the main project holds no contract exactly where no text of the admitted call
carries one behind a semicolon. -/
theorem mainPlan_noContract_iff [UnicodeTables] (remapLoopSids : List Json → List Json)
    (params : InjectAllAnnotationsParams) (target : String) (expanded : Expansion)
    (admitted : admitCall params = .ok (target, expanded)) (main : isSandbox target = false) :
    (∀ text ∈ specTexts (injectAllPlan remapLoopSids target expanded.params),
      containsContract text = false) ↔ ¬ CarriesContract expanded.params := by
  obtain ⟨noRequires, noEnsures⟩ := admitCall_lists admitted main
  have planned := plansContract_buildInjectionPlan { expanded.params with
    proposedLoopAnnots := expanded.params.proposedLoopAnnots.map remapLoopSids } noRequires noEnsures
  have same : CarriesContract { expanded.params with
      proposedLoopAnnots := expanded.params.proposedLoopAnnots.map remapLoopSids } ↔
        CarriesContract expanded.params := by
    constructor
    · intro carried
      cases carried with
      | single value given hidden => exact .single value given hidden
      | assigns value given filled hidden => exact .assigns value given filled hidden
      | group value given declared hidden => exact .group value given declared hidden
    · intro carried
      cases carried with
      | single value given hidden => exact .single value given hidden
      | assigns value given filled hidden => exact .assigns value given filled hidden
      | group value given declared hidden => exact .group value given declared hidden
  rw [injectAllPlan, if_neg (by simp [main]), ← same, ← planned, PlansContract]
  simp only [not_exists, not_and, Bool.not_eq_true]

/-- This call gives a frame whose text goes on with a precondition. -/
def hiddenRequires : InjectAllAnnotationsParams where
  function := some "f"
  annotations := some [.obj [("kind", .str "assigns"), ("acsl", .str "\\nothing; requires x > 0")]]

theorem hiddenRequires_admitted : @admitCall .ascii hiddenRequires = .ok ("f", ⟨{
    function := some "f"
    proposedAssigns := some [.obj [("acsl", .str "\\nothing; requires x > 0")]] }, []⟩) := by rfl

/-- The admitted call plans a precondition for the main project. -/
theorem not_mainPlan_noContract :
    ¬ ∀ [UnicodeTables] (remapLoopSids : List Json → List Json)
      (params : InjectAllAnnotationsParams) (target : String) (expanded : Expansion),
      admitCall params = .ok (target, expanded) → isSandbox target = false →
      ∀ text ∈ specTexts (injectAllPlan remapLoopSids target expanded.params),
        containsContract text = false := by
  intro clean
  have planned := @clean .ascii id hiddenRequires "f" _ hiddenRequires_admitted (by decide)
    "assigns \\nothing; requires x > 0;" (by decide +kernel)
  exact absurd planned (by decide +kernel)

/-- This call gives a frame and the termination of the function. -/
def plainFrame : InjectAllAnnotationsParams where
  function := some "f"
  proposedAssigns := some [.obj [("acsl", .str "assigns \\nothing;")]]
  proposedTerminates := some (.str "\\true")

theorem mainPlan_noContract_iff_example :
    (∀ text ∈ specTexts (injectAllPlan id "f" plainFrame), containsContract text = false) ↔
      ¬ CarriesContract plainFrame :=
  @mainPlan_noContract_iff .ascii id plainFrame "f" ⟨plainFrame, []⟩ (by rfl) (by decide)

end FramaCMcp.Annotations
