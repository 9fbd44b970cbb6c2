/-
This file says when the comparison of two runs depends on the order of their goals and shows that
it counts every goal with an identifier once.
-/

import FramaCMcp.Construction.Receipt
import FramaCMcp.Foundation.MatchingOrder
import Mathlib.Algebra.BigOperators.Pi

namespace FramaCMcp.GoalDiff

open Matching

/-- The goal is on one side of the progress boundary and has a status. -/
def goalMark (goal : Json) : Bool × String :=
  (Receipt.receiptGoalIsProgress goal, statusOf goal)

def withId (goals : List Json) (id : String) : List Json :=
  goals.filter fun goal => stableGoalId goal = some id

def marks (goals : List Json) (id : String) : List (Bool × String) :=
  (withId goals id).map goalMark

/-- These are the six numbers of a comparison. -/
def ProofDiff.counts (diff : ProofDiff) : Outcome → Nat
  | .raised => diff.newlyProved.length
  | .lowered => diff.newlyUnproved.length
  | .changed => diff.statusChanged.length
  | .kept => diff.unchangedCount
  | .added => diff.appeared.length
  | .removed => diff.disappeared.length

theorem matchKey_eq (goal candidate : Json) :
    matchKey goal candidate = rank (goalMark goal) (goalMark candidate) := by
  unfold matchKey rank goalMark
  simp only [ne_eq, ite_not]

theorem counts_appear (diff : ProofDiff) (id : String) (goal : Json) :
    (diff.appear id goal).counts = diff.counts + Pi.single .added 1 := by
  funext result
  cases result <;> simp [ProofDiff.appear, ProofDiff.counts]

theorem counts_share (diff : ProofDiff) (id : String) (goal earlier : Json) :
    (diff.share id goal earlier).counts =
      diff.counts + Pi.single (outcome (goalMark goal) (goalMark earlier)) 1 := by
  unfold ProofDiff.share outcome goalMark
  funext result
  by_cases same : Receipt.receiptGoalIsProgress goal = Receipt.receiptGoalIsProgress earlier
  · by_cases equal : statusOf earlier = statusOf goal
    · cases result <;> simp [same, equal, ProofDiff.counts]
    · cases result <;> simp [same, equal, ProofDiff.counts]
  · cases proved : Receipt.receiptGoalIsProgress goal with
    | true =>
        rw [proved] at same
        cases result <;> simp [same, ProofDiff.counts]
    | false =>
        rw [proved] at same
        cases result <;> simp [same, ProofDiff.counts]

/-- The earlier goals that the map keeps under an identifier. -/
def kept (before : OrderedMap String (List Json)) (id : String) : List Json :=
  (before.lookup id).getD []

theorem kept_goalsById (goals : List Json) (before : OrderedMap String (List Json)) (id : String) :
    kept (goalsById goals before) id = kept before id ++ withId goals id := by
  induction goals generalizing before with
  | nil => exact (List.append_nil _).symm
  | cons goal rest ih =>
      unfold goalsById withId
      cases named : stableGoalId goal with
      | none =>
          rw [List.filter_cons_of_neg (by simp [named])]
          exact ih before
      | some name =>
          show kept (goalsById rest (before.modify name [] (· ++ [goal]))) id = _
          rw [ih, kept, OrderedMap.lookup_modify]
          by_cases same : id = name
          · rw [if_pos same, Option.getD_some, List.filter_cons_of_pos (by simp [named, same]),
              List.append_assoc, same]
            rfl
          · rw [if_neg same, List.filter_cons_of_neg (by simp [named, Ne.symm same])]
            rfl

theorem kept_insert (before : OrderedMap String (List Json)) (id name : String)
    (others : List Json) :
    kept (before.insert id others) name = if name = id then others else kept before name := by
  unfold kept
  rw [OrderedMap.lookup_insert]
  split_ifs <;> rfl

/-- The numbers of the goals that are left under the identifiers. -/
def left (ids : Finset String) (before : OrderedMap String (List Json)) : Outcome → Nat :=
  Pi.single .removed (∑ id ∈ ids, (kept before id).length)

/-- The comparison adds up the matchings of the identifiers. -/
theorem diffGoals_counts (ids : Finset String) (goals : List Json)
    (known : ∀ goal ∈ goals, ∀ id, stableGoalId goal = some id → id ∈ ids)
    (before : OrderedMap String (List Json)) (diff : ProofDiff) :
    (diffGoals goals before diff).1.counts + left ids (diffGoals goals before diff).2 =
      diff.counts +
        ∑ id ∈ ids, tally (marks goals id) ((kept before id).map goalMark) := by
  induction goals generalizing before diff with
  | nil =>
      have none : ∀ id ∈ ids, tally (marks [] id) ((kept before id).map goalMark) =
          Pi.single .removed (kept before id).length := by
        intro id _
        simp [marks, withId, tally]
      rw [Finset.sum_congr rfl none]
      show diff.counts + left ids before = _
      rw [left]
      congr 1
      funext result
      cases result <;> simp [Finset.sum_apply]
  | cons goal rest ih =>
      have later := ih fun other member => known other (List.mem_cons_of_mem _ member)
      cases named : stableGoalId goal with
      | none =>
          have skipped : ∀ id, marks (goal :: rest) id = marks rest id := by
            intro id
            rw [marks, withId, List.filter_cons_of_neg (by simp [named])]
            rfl
          simp only [diffGoals, named, skipped]
          exact later before diff
      | some name =>
          have inside : name ∈ ids := known goal (List.mem_cons_self ..) name named
          have own : marks (goal :: rest) name = goalMark goal :: marks rest name := by
            rw [marks, withId, List.filter_cons_of_pos (by simp [named])]
            rfl
          have other : ∀ id ∈ ids.erase name, marks (goal :: rest) id = marks rest id := by
            intro id member
            have different := (Finset.mem_erase.mp member).1
            rw [marks, withId, List.filter_cons_of_neg (by simp [named, Ne.symm different])]
            rfl
          have taken := takeMin_map goalMark (rank (goalMark goal)) (kept before name)
          simp only [← matchKey_eq] at taken
          rw [← Finset.add_sum_erase ids _ inside, own, tally, taken,
            Finset.sum_congr rfl fun id member => by rw [other id member]]
          simp only [diffGoals, named]
          cases found : takeMin (matchKey goal) ((before.lookup name).getD []) with
          | none =>
              have none : kept before name = [] := takeMin_eq_none.mp found
              simp only [kept, found, Option.map_none]
              rw [later, counts_appear, ← Finset.add_sum_erase ids _ inside]
              simp only [kept, add_assoc]
          | some pair =>
              rcases pair with ⟨earlier, others⟩
              simp only [kept, found, Option.map_some]
              rw [later, counts_share, ← Finset.add_sum_erase ids _ inside]
              have same : ∀ id ∈ ids.erase name,
                  tally (marks rest id) ((kept (before.insert name others) id).map goalMark) =
                    tally (marks rest id) ((kept before id).map goalMark) := by
                intro id member
                rw [kept_insert, if_neg (Finset.mem_erase.mp member).1]
              rw [Finset.sum_congr rfl same, kept_insert, if_pos rfl]
              simp only [kept, add_assoc]

/-- A goal that is left keeps an identifier of one of the two runs. -/
theorem kept_diffGoals {ids : Finset String} {goals : List Json}
    (known : ∀ goal ∈ goals, ∀ id, stableGoalId goal = some id → id ∈ ids)
    (before : OrderedMap String (List Json)) (diff : ProofDiff) {id : String}
    (absent : id ∉ ids) : kept (diffGoals goals before diff).2 id = kept before id := by
  induction goals generalizing before diff with
  | nil => rfl
  | cons goal rest ih =>
      have later := ih fun other member => known other (List.mem_cons_of_mem _ member)
      cases named : stableGoalId goal with
      | none =>
          simp only [diffGoals, named]
          exact later before diff
      | some name =>
          have different : id ≠ name := by
            rintro rfl
            exact absent (known goal (List.mem_cons_self ..) id named)
          simp only [diffGoals, named]
          cases takeMin (matchKey goal) ((before.lookup name).getD []) with
          | none => exact later before _
          | some pair =>
              show kept (diffGoals rest (before.insert name pair.2) _).2 id = _
              rw [later, kept_insert, if_neg different]

theorem disappeared_length (before : OrderedMap String (List Json)) :
    (before.entries.flatMap fun entry => entry.2.map (disappearedRow entry.1)).length =
      before.total List.length := by
  rw [List.length_flatMap, OrderedMap.total, OrderedMap.values, List.map_map]
  simp only [List.length_map]
  rfl

theorem disappeared_diffGoals (goals : List Json) (before : OrderedMap String (List Json))
    (diff : ProofDiff) : (diffGoals goals before diff).1.disappeared = diff.disappeared := by
  induction goals generalizing before diff with
  | nil => rfl
  | cons goal rest ih =>
      unfold diffGoals
      split
      · exact ih before diff
      · split
        · exact ih before _
        · refine (ih _ _).trans ?_
          unfold ProofDiff.share
          simp only
          split_ifs <;> rfl

/-- The identifiers cover both runs. -/
def Covers (ids : Finset String) (goals : List Json) : Prop :=
  ∀ goal ∈ goals, ∀ id, stableGoalId goal = some id → id ∈ ids

/-- The six numbers of a comparison add up the matchings of the identifiers. -/
theorem proofGoalDiff_counts (since : String) {previous current : List Json} {ids : Finset String}
    (now : Covers ids current) (was : Covers ids previous) :
    (proofGoalDiff since previous current).diff.counts =
      ∑ id ∈ ids, tally (marks current id) (marks previous id) := by
  have run := diffGoals_counts ids current now (goalsById previous OrderedMap.empty) emptyDiff
  have unnamed : ∀ id ∉ ids,
      (kept (diffGoals current (goalsById previous OrderedMap.empty) emptyDiff).2 id).length = 0 := by
    intro id absent
    rw [kept_diffGoals now _ _ absent, kept_goalsById]
    have none : withId previous id = [] := by
      apply List.filter_eq_nil_iff.mpr
      intro goal member same
      exact absent (was goal member id (of_decide_eq_true same))
    rw [none]
    rfl
  have total : (diffGoals current (goalsById previous OrderedMap.empty) emptyDiff).2.total
      List.length = ∑ id ∈ ids, (kept _ id).length :=
    OrderedMap.total_eq_sum _ List.length [] rfl ids unnamed
  have empty : emptyDiff.counts = 0 := by
    funext result
    cases result <;> rfl
  have sum : (diffGoals current (goalsById previous OrderedMap.empty) emptyDiff).1.counts +
      left ids (diffGoals current (goalsById previous OrderedMap.empty) emptyDiff).2 =
        ∑ id ∈ ids, tally (marks current id) (marks previous id) := by
    rw [run, empty, zero_add]
    simp only [kept_goalsById]
    rfl
  rw [← sum, left, ← total]
  funext result
  cases result with
  | removed =>
      rw [Pi.add_apply, Pi.single_eq_same, ProofDiff.counts]
      show (List.flatMap _ _).length = List.length _ + _
      rw [disappeared_length, disappeared_diffGoals]
      exact (Nat.zero_add _).symm
  | _ => exact (Nat.add_zero _).symm

/-- The goals of one identifier can take any order. -/
theorem exists_reordered (goals : List Json) (id : String) {order : List (Bool × String)}
    (permuted : order.Perm (marks goals id)) :
    ∃ reordered : List Json, reordered.Perm goals ∧ marks reordered id = order ∧
      ∀ other ≠ id, marks reordered other = marks goals other := by
  have chosen : Relation.Comp (fun first second => first = List.map goalMark second) List.Perm
      order (withId goals id) := by
    rw [List.eq_map_comp_perm]
    exact permuted
  obtain ⟨own, rfl, same⟩ := chosen
  have named : ∀ goal ∈ own, stableGoalId goal = some id := fun goal member =>
    of_decide_eq_true (List.mem_filter.mp (same.subset member)).2
  refine ⟨own ++ goals.filter (fun goal => !decide (stableGoalId goal = some id)), ?_, ?_, ?_⟩
  · exact (same.append_right _).trans (List.filter_append_perm _ goals)
  · have all : own.filter (fun goal => stableGoalId goal = some id) = own :=
      List.filter_eq_self.mpr fun goal member => decide_eq_true (named goal member)
    have none : withId (goals.filter fun goal => !decide (stableGoalId goal = some id)) id = [] := by
      apply List.filter_eq_nil_iff.mpr
      intro goal member
      simpa using (List.mem_filter.mp member).2
    rw [marks, withId, List.filter_append, all, show List.filter _ _ = [] from none,
      List.append_nil]
  · intro other different
    have none : own.filter (fun goal => stableGoalId goal = some other) = [] := by
      apply List.filter_eq_nil_iff.mpr
      intro goal member
      simp [named goal member, Ne.symm different]
    have rest : withId (goals.filter fun goal => !decide (stableGoalId goal = some id)) other =
        withId goals other := by
      unfold withId
      rw [List.filter_filter]
      apply List.filter_congr
      intro goal _
      by_cases equal : stableGoalId goal = some other
      · simp [equal, different]
      · simp [equal]
    rw [marks, withId, List.filter_append, none, List.nil_append]
    exact congrArg (List.map goalMark) rest

/-- The reordered runs have the same numbers. -/
def OrderFree (since : String) (previous current : List Json) : Prop :=
  ∀ earlier now : List Json, earlier.Perm previous → now.Perm current →
    (proofGoalDiff since earlier now).diff.counts =
      (proofGoalDiff since previous current).diff.counts

/-- These are the identifiers of some goals. -/
def identifiers (goals : List Json) : Finset String := (goals.filterMap stableGoalId).toFinset

theorem covers_identifiers {goals all : List Json} (sub : ∀ goal ∈ goals, goal ∈ all) :
    Covers (identifiers all) goals := fun goal member _ named =>
  List.mem_toFinset.mpr (List.mem_filterMap.mpr ⟨goal, sub goal member, named⟩)

/-- The numbers of a comparison depend on no order exactly where the marks of every identifier are
balanced. -/
theorem proofGoalDiff_orderFree_iff (since : String) (previous current : List Json) :
    OrderFree since previous current ↔
      ∀ id, Balanced (marks current id : Multiset (Bool × String)) (marks previous id) := by
  have now := covers_identifiers fun goal (member : goal ∈ current) =>
    List.mem_append_right previous member
  have was := covers_identifiers fun goal (member : goal ∈ previous) =>
    List.mem_append_left current member
  refine ⟨fun free id => ?_, fun balanced earlier later sameWas sameNow => ?_⟩
  · rw [← orderFree_iff]
    intro order older sameNow sameWas
    obtain ⟨later, permuted, own, others⟩ := exists_reordered current id sameNow
    obtain ⟨earlier, before, former, rest⟩ := exists_reordered previous id sameWas
    have equal := free earlier later before permuted
    have inside := Finset.mem_insert_self id (identifiers (previous ++ current))
    have wide {goals : List Json} (covers : Covers (identifiers (previous ++ current)) goals) :
        Covers (insert id (identifiers (previous ++ current))) goals :=
      fun goal member name named => Finset.mem_insert_of_mem (covers goal member name named)
    rw [proofGoalDiff_counts since (wide now) (wide was),
      proofGoalDiff_counts since (fun goal member => wide now goal (permuted.subset member))
        (fun goal member => wide was goal (before.subset member)),
      ← Finset.add_sum_erase _ _ inside, ← Finset.add_sum_erase _ _ inside, own, former] at equal
    have same : ∀ name ∈ (insert id (identifiers (previous ++ current))).erase id,
        tally (marks later name) (marks earlier name) =
          tally (marks current name) (marks previous name) := by
      intro name member
      have different := (Finset.mem_erase.mp member).1
      rw [others name different, rest name different]
    rw [Finset.sum_congr rfl same] at equal
    exact add_right_cancel equal
  · rw [proofGoalDiff_counts since now was]
    rw [proofGoalDiff_counts since (fun goal member => now goal (sameNow.subset member))
      (fun goal member => was goal (sameWas.subset member))]
    apply Finset.sum_congr rfl
    intro id _
    exact (orderFree_iff _ _).mpr (balanced id) _ _ ((sameNow.filter _).map _)
      ((sameWas.filter _).map _)

def receiptGoal (status : String) : Json :=
  .obj [("stable_goal_id", .str "sg_1"), ("status", .str status)]

/-- A regression appears where two goals with one identifier change places. -/
theorem proofGoalDiff_reorders : ¬ ∀ (since : String) (previous current : List Json),
    OrderFree since previous current := by
  intro free
  have moved := free "run" [receiptGoal "valid"] [receiptGoal "valid", receiptGoal "unknown"]
    [receiptGoal "valid"] [receiptGoal "unknown", receiptGoal "valid"] (.refl _) (.swap ..)
  have lowered := congrFun moved .lowered
  revert lowered
  decide

end FramaCMcp.GoalDiff

namespace FramaCMcp.GoalDiff

open Matching

/-- The goals with an identifier are counted once for each identifier. -/
theorem sum_marks {goals : List Json} {ids : Finset String} (covers : Covers ids goals) :
    ∑ id ∈ ids, (marks goals id).length = (goals.filterMap stableGoalId).length := by
  induction goals with
  | nil => exact Finset.sum_const_zero
  | cons goal rest ih =>
      have later := ih fun other member => covers other (List.mem_cons_of_mem _ member)
      cases named : stableGoalId goal with
      | none =>
          have skipped : ∀ id ∈ ids, (marks (goal :: rest) id).length = (marks rest id).length := by
            intro id _
            simp [marks, withId, named]
          rw [Finset.sum_congr rfl skipped, later, List.filterMap_cons_none named]
      | some name =>
          have inside : name ∈ ids := covers goal (List.mem_cons_self ..) name named
          have longer : ∀ id ∈ ids, (marks (goal :: rest) id).length =
              (marks rest id).length + if id = name then 1 else 0 := by
            intro id _
            by_cases same : id = name
            · simp [marks, withId, named, same]
            · simp [marks, withId, named, same, Ne.symm same]
          rw [Finset.sum_congr rfl longer, Finset.sum_add_distrib, later,
            Finset.sum_ite_eq_of_mem' ids name _ inside, List.filterMap_cons_some named,
            List.length_cons]

/-- The shared goals are the transitions, the changed ones and the unchanged ones. -/
def ProofDiff.Shares (diff : ProofDiff) : Prop := diff.sharedTotal = paired diff.counts

theorem ProofDiff.Shares.appear {diff : ProofDiff} (shares : diff.Shares) (id : String)
    (goal : Json) : (diff.appear id goal).Shares := by
  unfold ProofDiff.Shares
  rw [counts_appear, paired_add]
  exact shares

theorem ProofDiff.Shares.share {diff : ProofDiff} (shares : diff.Shares) (id : String)
    (goal earlier : Json) : (diff.share id goal earlier).Shares := by
  have one : (diff.share id goal earlier).sharedTotal = diff.sharedTotal + 1 := by
    unfold ProofDiff.share
    simp only
    split_ifs <;> rfl
  unfold ProofDiff.Shares at shares ⊢
  rw [counts_share, paired_add, paired_outcome, one, shares]

theorem shares_diffGoals {goals : List Json} {before : OrderedMap String (List Json)}
    {diff : ProofDiff} (shares : diff.Shares) : (diffGoals goals before diff).1.Shares := by
  induction goals generalizing before diff with
  | nil => exact shares
  | cons goal rest ih =>
      unfold diffGoals
      split
      · exact ih shares
      · split
        · exact ih (shares.appear _ _)
        · exact ih (shares.share _ _ _)

/-- No goal changed its side or its status, and both runs have the same goals. -/
structure ProofDiff.Quiet (diff : ProofDiff) : Prop where
  newlyProved : diff.newlyProved = []
  newlyUnproved : diff.newlyUnproved = []
  statusChanged : diff.statusChanged = []
  appeared : diff.appeared = []
  disappeared : diff.disappeared = []

theorem ProofDiff.quiet_of_counts {diff : ProofDiff}
    (none : ∀ result, result ≠ .kept → diff.counts result = 0) : diff.Quiet where
  newlyProved := List.length_eq_zero_iff.mp (none .raised (by decide))
  newlyUnproved := List.length_eq_zero_iff.mp (none .lowered (by decide))
  statusChanged := List.length_eq_zero_iff.mp (none .changed (by decide))
  appeared := List.length_eq_zero_iff.mp (none .added (by decide))
  disappeared := List.length_eq_zero_iff.mp (none .removed (by decide))

theorem proofGoalDiff_quiet (since : String) {previous current : List Json}
    (permuted : current.Perm previous) : (proofGoalDiff since previous current).diff.Quiet := by
  have now := covers_identifiers fun goal (member : goal ∈ current) => member
  have was : Covers (identifiers current) previous := fun goal member id named =>
    now goal (permuted.symm.subset member) id named
  have own : ∀ id ∈ identifiers current, tally (marks current id) (marks previous id) =
      Pi.single .kept (marks current id).length := fun id _ =>
    tally_perm ((permuted.filter _).map _)
  apply ProofDiff.quiet_of_counts
  intro result different
  rw [proofGoalDiff_counts since now was, Finset.sum_congr rfl own, Finset.sum_apply]
  exact Finset.sum_eq_zero fun id _ => Pi.single_eq_of_ne different _

/-- Every goal with an identifier is counted once on its side. -/
structure ProofDiff.Conserves (previous current : List Json) (diff : ProofDiff) : Prop where
  shared : diff.sharedTotal = diff.newlyProved.length + diff.newlyUnproved.length +
    diff.statusChanged.length + diff.unchangedCount
  current : diff.newlyProved.length + diff.newlyUnproved.length + diff.statusChanged.length +
    diff.unchangedCount + diff.appeared.length = (current.filterMap stableGoalId).length
  previous : diff.sharedTotal + diff.disappeared.length =
    (previous.filterMap stableGoalId).length

theorem shares_proofGoalDiff (since : String) (previous current : List Json) :
    (proofGoalDiff since previous current).diff.Shares :=
  @shares_diffGoals _ _ emptyDiff rfl

/-- The comparison conserves the goals of both runs, and a reordered run is no change. -/
theorem proofGoalDiff_conserves (since : String) (previous current : List Json) :
    (proofGoalDiff since previous current).diff.Conserves previous current ∧
      ∀ reordered : List Json, reordered.Perm current →
        (proofGoalDiff since current reordered).diff.Quiet := by
  have now := covers_identifiers fun goal (member : goal ∈ current) =>
    List.mem_append_right previous member
  have was := covers_identifiers fun goal (member : goal ∈ previous) =>
    List.mem_append_left current member
  have shared := shares_proofGoalDiff since previous current
  have counts := proofGoalDiff_counts since now was
  have each (side : Outcome) : paired (proofGoalDiff since previous current).diff.counts +
      (proofGoalDiff since previous current).diff.counts side =
        ∑ id ∈ identifiers (previous ++ current),
          (paired (tally (marks current id) (marks previous id)) +
            tally (marks current id) (marks previous id) side) := by
    rw [counts]
    simp only [paired, Finset.sum_apply, Finset.sum_add_distrib]
  refine ⟨⟨shared, ?_, ?_⟩, fun reordered permuted => proofGoalDiff_quiet since permuted⟩
  · calc _ = _ := each .added
      _ = _ := Finset.sum_congr rfl fun id _ => tally_current _ _
      _ = _ := sum_marks now
  · rw [shared]
    calc _ = _ := each .removed
      _ = _ := Finset.sum_congr rfl fun id _ => tally_earlier _ _
      _ = _ := sum_marks was

theorem proofGoalDiff_conserves_example :
    (proofGoalDiff "run" [receiptGoal "valid", receiptGoal "unknown"]
      [receiptGoal "unknown", receiptGoal "valid"]).diff.Quiet :=
  (proofGoalDiff_conserves "run" [] [receiptGoal "valid", receiptGoal "unknown"]).2
    [receiptGoal "unknown", receiptGoal "valid"] (.swap ..)

end FramaCMcp.GoalDiff
