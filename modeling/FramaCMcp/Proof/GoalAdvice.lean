/-
This file proves that each advice has one carrier and that a summary keeps it.
-/

import FramaCMcp.Construction.GoalAdvice

namespace FramaCMcp.GoalAdvice

open EvidenceGates Goals Status Verdicts WpClass

/-- This is the advice that the classification of a goal names. -/
def adviceKey (goal : Json) : Option String :=
  (goal.pointer ["failure_classification", "advice_key"]).bind Json.asStr

def names (key : String) (goal : Json) : Bool := adviceKey goal == some key

/-- The goal holds the text of its advice itself. -/
def carries (goal : Json) : Bool := (goal.pointer ["failure_classification", "advice"]).isSome

/-- The goal is an object that is not classified yet. -/
structure Unclassified (goal : Json) : Prop where
  object : goal.isObject = true
  absent : goal.get "failure_classification" = none

section Enrichment

variable {goal : Json}

theorem isObject_insert (goal : Json) (key : String) (value : Json) :
    (goal.insert key value).isObject = goal.isObject := by
  cases goal <;> rfl

/-- A field of another name classifies nothing. -/
theorem Unclassified.insert (unclassified : Unclassified goal) {key : String} (value : Json)
    (other : "failure_classification" ≠ key) : Unclassified (goal.insert key value) where
  object := (isObject_insert goal key value).trans unclassified.object
  absent := (goal.get_insert_of_ne key _ value other).trans unclassified.absent

theorem Unclassified.insertAbsent (unclassified : Unclassified goal) {key : String} (value : Json)
    (other : "failure_classification" ≠ key) : Unclassified (goal.insertAbsent key value) := by
  unfold Json.insertAbsent
  cases goal.get key with
  | none => exact unclassified.insert value other
  | some _ => exact unclassified

theorem Unclassified.insertAbsent? (unclassified : Unclassified goal) {key : String}
    (value : Option Json) (other : "failure_classification" ≠ key) :
    Unclassified (insertAbsent? goal key value) := by
  cases value with
  | none => exact unclassified
  | some value => exact unclassified.insertAbsent value other

theorem Unclassified.insertStatusFlags (unclassified : Unclassified goal) (normalized : String) :
    Unclassified (insertStatusFlags goal normalized) :=
  ((unclassified.insert _ (by decide)).insert _ (by decide)).insert _ (by decide)

/-- The fields of the status classify nothing. -/
theorem Unclassified.addStatusFields (unclassified : Unclassified goal) :
    Unclassified (addStatusFields goal) := by
  unfold Status.addStatusFields
  split
  · exact unclassified
  · exact ((unclassified.insert _ (by decide)).insert _ (by decide)).insertStatusFlags _

theorem Unclassified.addIdentityFields (unclassified : Unclassified goal) :
    Unclassified (addIdentityFields goal) :=
  ((((unclassified.addStatusFields.insertAbsent? _ (by decide)).insertAbsent? _
    (by decide)).insertAbsent? _ (by decide)).insertAbsent? _ (by decide)).insertAbsent? _ (by decide)

theorem Unclassified.insertOrigin (unclassified : Unclassified goal) (origin : Option Json) :
    Unclassified (match origin with
      | some origin => goal.insert "origin" origin
      | none => goal) := by
  split
  · exact unclassified.insert _ (by decide)
  · exact unclassified

theorem Unclassified.enrichWithProperty (unclassified : Unclassified goal) (marker : String)
    (property : Json) : Unclassified (enrichWithProperty goal marker property) := by
  apply Unclassified.insertOrigin
  exact (((((((unclassified.insert _ (by decide)).insertAbsent _ (by decide)).insert _
    (by decide)).insert _ (by decide)).insertStatusFlags _).insertAbsent? _ (by decide)).insertAbsent?
    _ (by decide)).insertAbsent? _ (by decide)

theorem Unclassified.enrichWithHypotheses (unclassified : Unclassified goal)
    (hypotheses : List Json) : Unclassified (enrichWithHypotheses goal hypotheses) := by
  unfold Goals.enrichWithHypotheses
  split_ifs
  · exact unclassified
  · exact (((unclassified.insert _ (by decide)).insert _ (by decide)).insert _ (by decide)).insert _
      (by decide)
  · exact unclassified.insert _ (by decide)

/-- What is known of the property goes into fields of its own. -/
theorem Unclassified.enrichGoalWithPropertyStatus (unclassified : Unclassified goal)
    (properties : HashMap Json) : Unclassified (enrichGoalWithPropertyStatus goal properties) := by
  have joined : Unclassified (((valueMarker goal).bind fun marker =>
      (properties.lookup marker).map (Goals.enrichWithProperty goal marker)).getD goal) := by
    cases found : (valueMarker goal).bind fun marker =>
        (properties.lookup marker).map (Goals.enrichWithProperty goal marker) with
    | none => exact unclassified
    | some enriched =>
        obtain ⟨marker, -, row⟩ := Option.bind_eq_some_iff.mp found
        obtain ⟨property, -, rfl⟩ := Option.map_eq_some_iff.mp row
        exact unclassified.enrichWithProperty marker property
  unfold Goals.enrichGoalWithPropertyStatus
  simp only
  split
  · exact joined
  · exact joined.enrichWithHypotheses _

theorem Unclassified.extendHypotheses (unclassified : Unclassified goal) (rows : List Json) :
    Unclassified (extendHypotheses goal rows) := by
  unfold GoalAdvice.extendHypotheses
  split
  · exact unclassified.insert _ (by decide)
  · exact unclassified.insert _ (by decide)
  · exact unclassified

/-- The goals that a goal rests on extend its hypotheses. -/
theorem Unclassified.enrichGoalWithGoalDependencies (unclassified : Unclassified goal)
    (goals : HashMap Json) : Unclassified (enrichGoalWithGoalDependencies goal goals) := by
  unfold GoalAdvice.enrichGoalWithGoalDependencies
  split
  · exact unclassified
  · simp only
    split_ifs
    · exact unclassified
    · exact ((((unclassified.extendHypotheses _).insert _ (by decide)).insert _ (by decide)).insert _
        (by decide)).insert _ (by decide)
    · exact unclassified.extendHypotheses _

theorem Unclassified.insertLabel (unclassified : Unclassified goal) (label : Option String) :
    Unclassified (match label with
      | some label => goal.insert "hash_label" (.str label)
      | none => goal) := by
  split
  · exact unclassified.insert _ (by decide)
  · exact unclassified

/-- No stage before the classification writes its field. -/
theorem Unclassified.finishGoal [UnicodeTables] [Sha256] (unclassified : Unclassified goal)
    (goalsByMarker : HashMap Json) (stableScope : Option String) :
    Unclassified (finishGoal goal goalsByMarker stableScope) := by
  exact (((unclassified.enrichGoalWithGoalDependencies goalsByMarker).insert _
    (by decide)).insertLabel _ |>.insertAbsent _ (by decide)).insertAbsent? _ (by decide)

/-- The list that is classified holds no classification yet, whatever filters it went through. -/
theorem unclassified_finishedGoals [UnicodeTables] [Sha256] (goals : List GoalRow)
    (properties : List Json) (scopeMarker stableScope status : Option String) :
    ∀ goal ∈ finishedGoals goals properties scopeMarker stableScope status, Unclassified goal := by
  intro goal member
  obtain ⟨identified, selected, rfl⟩ := List.mem_map.mp member
  obtain ⟨row, -, rfl⟩ := List.mem_map.mp (List.mem_filter.mp selected).1
  have unclassified : Unclassified row.json := ⟨rfl, row.unclassified⟩
  exact (unclassified.addIdentityFields.addIdentityFields.enrichGoalWithPropertyStatus _).finishGoal
    _ _

end Enrichment

section Election

variable (classifyWpFailureFromGoal : Json → Json)

/-- The classification is no part of what decides about it. -/
theorem goalNeedsFailureClassification_insert (goal classification : Json) :
    goalNeedsFailureClassification (goal.insert "failure_classification" classification) =
      goalNeedsFailureClassification goal := by
  have kept (name : String) (other : name ≠ "failure_classification") :
      (goal.insert "failure_classification" classification).get name = goal.get name :=
    goal.get_insert_of_ne _ name classification other
  unfold goalNeedsFailureClassification ownStatusIsProved ownStatus goalIsVacuouslyProved
    propertyIsDead consolidatedVerdict propertyNormalizedStatus ownStatus
  rw [kept "normalized_status" (by decide), kept "raw_status" (by decide),
    kept "status" (by decide), kept "vacuous" (by decide),
    kept "normalized_property_status" (by decide)]

/-- The part that each goal keeps names the advice and does not hold it. -/
theorem key_splitGoalClassification (classification : Json) :
    ((splitGoalClassification classification).perGoal.get "advice_key").bind Json.asStr =
        some (splitGoalClassification classification).key ∧
      (splitGoalClassification classification).perGoal.get "advice" = none := ⟨rfl, rfl⟩

/-- A goal that is not classified names no key. -/
theorem Unclassified.adviceKey {goal : Json} (unclassified : Unclassified goal) :
    adviceKey goal = none ∧ carries goal = false := by
  unfold GoalAdvice.adviceKey carries Json.pointer
  rw [unclassified.absent]
  exact ⟨rfl, rfl⟩

/-- The inserted classification alone decides what a goal names and carries. -/
theorem adviceKey_insert {goal : Json} (unclassified : Unclassified goal) (classification : Json) :
    adviceKey (goal.insert "failure_classification" classification) =
        (classification.get "advice_key").bind Json.asStr ∧
      carries (goal.insert "failure_classification" classification) =
        (classification.get "advice").isSome := by
  have found : (goal.insert "failure_classification" classification).get "failure_classification" =
      some classification := by
    cases goal with
    | obj fields => exact Json.get_insert_self fields _ _
    | _ => cases unclassified.object
  unfold adviceKey carries
  simp only [Json.pointer, found, Option.bind_some]
  constructor
  · cases classification.get "advice_key" <;> rfl
  · cases classification.get "advice" <;> rfl

/-- The goals of a fresh key are its carrier and goals that only name it. The goals of a key that
went before only name it. -/
structure Elects (adviceCarried : List String) (goals : List Json) : Prop where
  classified : ∀ goal ∈ goals, (adviceKey goal).isSome = true →
    goalNeedsFailureClassification goal = true
  later : ∀ key ∈ adviceCarried, ∀ goal ∈ goals.filter (names key), carries goal = false
  first : ∀ key ∉ adviceCarried, ∀ goal rest, goals.filter (names key) = goal :: rest →
    carries goal = true ∧ ∀ other ∈ rest, carries other = false

variable {adviceCarried : List String} {goal : Json} {goals : List Json}

theorem names_eq (key : String) (goal : Json) : names key goal = true ↔ adviceKey goal = some key :=
  beq_iff_eq

/-- A goal without advice leaves the choice to the others. -/
theorem Elects.cons_silent (elects : Elects adviceCarried goals) (silent : adviceKey goal = none) :
    Elects adviceCarried (goal :: goals) := by
  have skipped (key : String) : (goal :: goals).filter (names key) = goals.filter (names key) := by
    apply List.filter_cons_of_neg
    rw [names_eq, silent]
    exact nofun
  constructor
  · intro other member named
    rcases List.mem_cons.mp member with rfl | behind
    · rw [silent] at named
      cases named
    · exact elects.classified other behind named
  · intro key carried
    rw [skipped]
    exact elects.later key carried
  · intro key fresh
    rw [skipped]
    exact elects.first key fresh

/-- A goal whose advice was carried before names it only. -/
theorem Elects.cons_later (elects : Elects adviceCarried goals)
    (needs : goalNeedsFailureClassification goal = true) {key : String}
    (named : adviceKey goal = some key) (went : key ∈ adviceCarried)
    (bare : carries goal = false) : Elects adviceCarried (goal :: goals) := by
  constructor
  · intro other member named
    rcases List.mem_cons.mp member with rfl | behind
    · exact needs
    · exact elects.classified other behind named
  · intro name carried other member
    rcases List.mem_cons.mp (List.mem_filter.mp member).1 with rfl | behind
    · exact bare
    · exact elects.later name carried other (List.mem_filter.mpr ⟨behind, (List.mem_filter.mp member).2⟩)
  · intro name fresh
    have skipped : (goal :: goals).filter (names name) = goals.filter (names name) := by
      apply List.filter_cons_of_neg
      rw [names_eq, named]
      intro same
      exact fresh (Option.some.inj same ▸ went)
    rw [skipped]
    exact elects.first name fresh

/-- The first goal that names an advice carries it for those behind. -/
theorem Elects.cons_first {key : String} (elects : Elects (key :: adviceCarried) goals)
    (needs : goalNeedsFailureClassification goal = true) (named : adviceKey goal = some key)
    (fresh : key ∉ adviceCarried) (advised : carries goal = true) :
    Elects adviceCarried (goal :: goals) := by
  have skipped (name : String) (other : name ≠ key) :
      (goal :: goals).filter (names name) = goals.filter (names name) := by
    apply List.filter_cons_of_neg
    rw [names_eq, named]
    intro same
    exact other (Option.some.inj same).symm
  constructor
  · intro other member named
    rcases List.mem_cons.mp member with rfl | behind
    · exact needs
    · exact elects.classified other behind named
  · intro name carried
    rw [skipped name fun same => fresh (same ▸ carried)]
    exact elects.later name (List.mem_cons_of_mem _ carried)
  · intro name new
    by_cases same : name = key
    · subst same
      intro head rest split
      rw [List.filter_cons_of_pos ((names_eq _ _).mpr named)] at split
      obtain ⟨rfl, rfl⟩ := List.cons.inj split
      exact ⟨advised, elects.later name List.mem_cons_self⟩
    · rw [skipped name same]
      exact elects.first name fun member => (List.mem_cons.mp member).elim same new

/-- The induction is on the goals, and the invariant says which advice was carried before. -/
theorem elects_adviseGoals (goals : List Json) (unclassified : ∀ goal ∈ goals, Unclassified goal)
    (adviceCarried : List String) :
    Elects adviceCarried (adviseGoals classifyWpFailureFromGoal adviceCarried goals) := by
  induction goals generalizing adviceCarried with
  | nil => exact ⟨nofun, nofun, nofun⟩
  | cons goal rest ih =>
      obtain ⟨own, others⟩ := List.forall_mem_cons.mp unclassified
      obtain ⟨key, bare⟩ := key_splitGoalClassification (classifyWpFailureFromGoal goal)
      rw [adviseGoals]
      simp only
      split_ifs with needs went
      · obtain ⟨named, carried⟩ := adviceKey_insert own
          (splitGoalClassification (classifyWpFailureFromGoal goal)).perGoal
        apply (ih others adviceCarried).cons_later _ (named.trans key)
          (List.contains_iff_mem.mp went) (carried.trans (by rw [bare]; rfl))
        rw [goalNeedsFailureClassification_insert]
        exact needs
      · obtain ⟨named, carried⟩ := adviceKey_insert own
          ((splitGoalClassification (classifyWpFailureFromGoal goal)).perGoal.insert "advice"
            (splitGoalClassification (classifyWpFailureFromGoal goal)).advice)
        apply (ih others _).cons_first _ (named.trans (by rfl))
          (fun member => went (List.contains_iff_mem.mpr member)) (carried.trans (by rfl))
        rw [goalNeedsFailureClassification_insert]
        exact needs
      · exact (ih others adviceCarried).cons_silent own.adviceKey.1

/-- Each advice that is named is carried once. -/
theorem Elects.countP_eq_one (elects : Elects [] goals) {key : String}
    (named : ∃ goal ∈ goals, adviceKey goal = some key) :
    goals.countP (fun goal => names key goal && carries goal) = 1 := by
  obtain ⟨goal, member, own⟩ := named
  have listed : goal ∈ goals.filter (names key) :=
    List.mem_filter.mpr ⟨member, (names_eq _ _).mpr own⟩
  obtain ⟨first, rest, split⟩ := List.exists_cons_of_ne_nil (List.ne_nil_of_mem listed)
  obtain ⟨advised, bare⟩ := elects.first key List.not_mem_nil first rest split
  have none : rest.countP carries = 0 := by
    rw [List.countP_eq_zero]
    intro other later
    rw [bare other later]
    exact Bool.false_ne_true
  calc goals.countP (fun goal => names key goal && carries goal)
      = (goals.filter (names key)).countP carries := by
        rw [List.countP_filter]
        apply List.countP_congr
        intro other _
        rw [Bool.and_comm]
    _ = 1 := by rw [split, List.countP_cons_of_pos advised, none]

/-- The first goals that need advice hold the carrier of each key that they name. -/
theorem Elects.carrier_mem_keptEntries (elects : Elects [] goals) (previewItems : Nat)
    {key : String}
    (named : ∃ goal ∈ keptEntries goals goalNeedsFailureClassification previewItems,
      adviceKey goal = some key) :
    ∃ goal ∈ keptEntries goals goalNeedsFailureClassification previewItems,
      adviceKey goal = some key ∧ carries goal = true := by
  obtain ⟨goal, member, own⟩ := named
  have same : (goals.filter goalNeedsFailureClassification).filter (names key) =
      goals.filter (names key) := by
    rw [List.filter_filter]
    apply List.filter_congr
    intro other listed
    by_cases naming : names key other = true
    · have named := (names_eq _ _).mp naming
      rw [naming, Bool.true_and]
      exact elects.classified other listed (by rw [named]; rfl)
    · rw [Bool.eq_false_of_not_eq_true naming, Bool.false_and]
  have listed : goal ∈
      (keptEntries goals goalNeedsFailureClassification previewItems).filter (names key) :=
    List.mem_filter.mpr ⟨member, (names_eq _ _).mpr own⟩
  obtain ⟨first, rest, split⟩ := List.exists_cons_of_ne_nil (List.ne_nil_of_mem listed)
  -- the kept goals of the key come before the goals of the key that are left out
  have whole : goals.filter (names key) = first :: (rest ++
      ((goals.filter goalNeedsFailureClassification).drop previewItems).filter (names key)) := by
    rw [← same, ← List.cons_append, ← split, keptEntries, ← List.filter_append,
      List.take_append_drop]
  have kept : first ∈ (keptEntries goals goalNeedsFailureClassification previewItems).filter
      (names key) := split ▸ List.mem_cons_self
  exact ⟨first, (List.mem_filter.mp kept).1, (names_eq _ _).mp (List.mem_filter.mp kept).2,
    (elects.first key List.not_mem_nil first _ whole).1⟩

end Election

/-- Each advice has one carrier in the list, and each summary keeps the carriers of its keys. -/
theorem wpGoalsPayload_advice_resolves [UnicodeTables] [Sha256]
    (classifyWpFailureFromGoal : Json → Json) (goals : List GoalRow) (properties : List Json)
    (scopeMarker stableScope status : Option String) :
    ∃ entries, wpGoalsPayload classifyWpFailureFromGoal goals properties scopeMarker stableScope
        status = .arr entries ∧
      (∀ key, (∃ goal ∈ entries, adviceKey goal = some key) →
        entries.countP (fun goal => names key goal && carries goal) = 1) ∧
      ∀ previewItems, ∃ kept,
        (summarizeUnlessSkipped (.arr entries) goalNeedsFailureClassification goalSummaryBucket
          previewItems).get "entries" = some (.arr kept) ∧
        ∀ key, (∃ goal ∈ kept, adviceKey goal = some key) →
          ∃ goal ∈ kept, adviceKey goal = some key ∧ carries goal = true := by
  have elects := elects_adviseGoals classifyWpFailureFromGoal
    (finishedGoals goals properties scopeMarker stableScope status)
    (unclassified_finishedGoals goals properties scopeMarker stableScope status) []
  refine ⟨_, rfl, fun key named => elects.countP_eq_one named, fun previewItems =>
    ⟨_, rfl, fun key named => elects.carrier_mem_keptEntries previewItems named⟩⟩

/-- This goal is one part of a postcondition that timed out. -/
def timedOut (marker name : String) : GoalRow where
  fields := [("wpo", .str marker), ("name", .str name), ("fct", .str "f"),
    ("property", .str "#p1"), ("status", .str "TIMEOUT")]
  unclassified := rfl

def timeoutClassification (goal : Json) : Json :=
  .obj [("category", .str "timeout"), ("goal_kind", goal.index "goal_kind")]

/-- Of two goals that time out, one carries the advice of both. -/
theorem wpGoalsPayload_advice_resolves_timedOut :
    ∃ entries, @wpGoalsPayload timeoutClassification .ascii .zeros
        [timedOut "#w1" "Post-condition (part 1/2)", timedOut "#w2" "Post-condition (part 2/2)"]
        [] none none none = .arr entries ∧
      entries.countP (names "timeout:spec") = 2 ∧
      entries.countP (fun goal => names "timeout:spec" goal && carries goal) = 1 := by
  obtain ⟨entries, listed, carried, -⟩ := @wpGoalsPayload_advice_resolves .ascii .zeros
    timeoutClassification
    [timedOut "#w1" "Post-condition (part 1/2)", timedOut "#w2" "Post-condition (part 2/2)"]
    [] none none none
  have both : entries.countP (names "timeout:spec") = 2 := by
    rw [← Json.arr.inj listed]
    decide +kernel
  refine ⟨entries, listed, both, carried _ ?_⟩
  obtain ⟨goal, member, named⟩ := List.countP_pos_iff.mp (both ▸ Nat.zero_lt_two)
  exact ⟨goal, member, beq_iff_eq.mp named⟩

end FramaCMcp.GoalAdvice
