/-
This file shows that the settled lock facts claim no more than one more walk gives.
-/

import FramaCMcp.Proof.UnlockedProgram

namespace FramaCMcp.Concurrency

theorem summaryOf_foldl (value : String → Summary) (functions : List String)
    (found : OrderedMap String Summary) (name : String) :
    summaryOf (functions.foldl
        (fun found function => insertSummary found function (value function)) found) name =
      if name ∈ functions ∧ value name ≠ .empty then value name else summaryOf found name := by
  induction functions generalizing found with
  | nil => simp
  | cons function rest ih =>
      rw [List.foldl_cons, ih]
      by_cases later : name ∈ rest ∧ value name ≠ .empty
      · rw [if_pos later, if_pos ⟨List.mem_cons_of_mem _ later.1, later.2⟩]
      · rw [if_neg later]
        unfold insertSummary
        by_cases same : name = function
        · subst same
          by_cases empty : value name = .empty
          · rw [if_pos empty, if_neg fun first => first.2 empty]
          · rw [if_neg empty, if_pos ⟨List.mem_cons_self .., empty⟩, summaryOf,
              OrderedMap.lookup_insert, if_pos rfl]
            rfl
        · have absent : ¬(name ∈ function :: rest ∧ value name ≠ .empty) := fun first =>
            later ⟨(List.mem_cons.mp first.1).resolve_left same, first.2⟩
          rw [if_neg absent]
          split_ifs
          · rfl
          · rw [summaryOf, OrderedMap.lookup_insert, if_neg same]
            rfl

theorem summaryOf_of_not_mem {summaries : OrderedMap String Summary} {name : String}
    (absent : name ∉ summaries.keys) : summaryOf summaries name = .empty := by
  rw [OrderedMap.mem_keys, OrderedMap.contains, Bool.not_eq_true, Option.isSome_eq_false_iff,
    Option.isNone_iff_eq_none] at absent
  rw [summaryOf, absent]
  rfl

/-- A widened round widens the summary of each function. -/
theorem summaryOf_widen (previous next : OrderedMap String Summary) (name : String) :
    summaryOf (widen previous next) name =
      widenSummary (summaryOf previous name) (summaryOf next name) := by
  unfold widen
  rw [summaryOf_foldl]
  by_cases named : name ∈ previous.keys ++ next.keys
  · by_cases empty : widenSummary (summaryOf previous name) (summaryOf next name) = .empty
    · rw [if_neg fun both => both.2 empty, empty]
      rfl
    · rw [if_pos ⟨named, empty⟩]
  · rw [if_neg fun both => named both.1]
    rw [List.mem_append, not_or] at named
    rw [summaryOf_of_not_mem named.1, summaryOf_of_not_mem named.2]
    rfl

/-- The released locks of both rounds are kept. -/
theorem subset_released (before : List LockRef) (after : List LockRef) :
    before ⊆ after.foldl
        (fun released named => if named ∈ released then released else released ++ [named]) before ∧
      after ⊆ after.foldl
        (fun released named => if named ∈ released then released else released ++ [named])
        before := by
  induction after generalizing before with
  | nil => exact ⟨List.Subset.refl _, List.nil_subset _⟩
  | cons named rest ih =>
      obtain ⟨kept, added⟩ := ih (if named ∈ before then before else before ++ [named])
      rw [List.foldl_cons]
      have first : named ∈ if named ∈ before then before else before ++ [named] := by
        split_ifs with inside
        · exact inside
        · exact List.mem_append_right _ (List.mem_singleton_self _)
      have old : before ⊆ if named ∈ before then before else before ++ [named] := by
        split_ifs
        · exact List.Subset.refl _
        · exact List.subset_append_left ..
      exact ⟨List.Subset.trans old kept, List.cons_subset.mpr ⟨kept first, added⟩⟩

/-- The second summary acquires at least the locks of the first one and releases at most those. -/
structure SummaryLe (claimed again : Summary) : Prop where
  acquired : claimed.acquired.Sublist again.acquired
  released : again.released ⊆ claimed.released

/-- The claimed summary of each function stands below that of the next walk. -/
def Claims (claimed again : OrderedMap String Summary) : Prop :=
  ∀ function, SummaryLe (summaryOf claimed function) (summaryOf again function)

theorem claims_refl (summaries : OrderedMap String Summary) : Claims summaries summaries :=
  fun _ => ⟨.refl _, List.Subset.refl _⟩

/-- Summaries that a widened round keeps claim no more than the walk of that round gives. -/
theorem claims_of_widen {summaries plain : OrderedMap String Summary}
    (settled : widen summaries plain = summaries) : Claims summaries plain := by
  intro function
  have here := summaryOf_widen summaries plain function
  rw [settled] at here
  rw [here]
  exact ⟨List.filter_sublist, (subset_released ..).2⟩

section Rounds

variable (deadline : Deadline) (scans : List FileScan) (base : Context)

/-- This is the round of the summaries without a deadline. -/
def nextSummaries (summaries : OrderedMap String Summary) : Option (OrderedMap String Summary) :=
  (factsOf scans (factsContext base { summaries, entries := OrderedMap.empty })).map
    fun facts => summariesFrom facts base.program

variable {checks : Nat}

theorem summaryRound_some {summaries next : OrderedMap String Summary}
    (ended : (summaryRound deadline scans base summaries checks).1 = some next) :
    nextSummaries scans base summaries = some next := by
  unfold summaryRound at ended
  simp only [Option.map_eq_some_iff] at ended
  obtain ⟨facts, walked, same⟩ := ended
  rw [nextSummaries, walkForFacts_some deadline walked, ← same]
  rfl

/-- Rounds that settle end with summaries that their last walk stands above. -/
theorem summaryRounds_claims {left : Nat} {summaries settled : OrderedMap String Summary}
    (ended : (summaryRounds deadline scans base left summaries checks).1 = some (settled, true)) :
    ∃ again, nextSummaries scans base settled = some again ∧ Claims settled again := by
  induction left generalizing summaries checks with
  | zero => exact nomatch ended
  | succ left ih =>
      unfold summaryRounds at ended
      cases step : summaryRound deadline scans base summaries checks with
      | mk found count =>
          rw [step] at ended
          cases found with
          | none => exact nomatch ended
          | some plain =>
              have walked : nextSummaries scans base summaries = some plain :=
                summaryRound_some deadline scans base (congrArg Prod.fst step)
              simp only at ended
              by_cases same : (if left + 1 ≤ lockSummaryRounds / 2 then widen summaries plain
                  else plain) = summaries
              · rw [if_pos same] at ended
                obtain rfl : summaries = settled := congrArg Prod.fst (Option.some.inj ended)
                refine ⟨plain, walked, ?_⟩
                split_ifs at same
                · exact claims_of_widen same
                · exact same ▸ claims_refl plain
              · rw [if_neg same] at ended
                exact ih ended

/-- This is the round of the entry locksets without a deadline. -/
def nextEntries (interproc : Interproc) : Option (OrderedMap String (List Held)) :=
  (factsOf scans (factsContext base interproc)).map fun facts => entriesFrom facts base.program

theorem entryRound_some {interproc : Interproc} {next : OrderedMap String (List Held)}
    (ended : (entryRound deadline scans base interproc checks).1 = some next) :
    nextEntries scans base interproc = some next := by
  unfold entryRound at ended
  simp only [Option.map_eq_some_iff] at ended
  obtain ⟨facts, walked, same⟩ := ended
  rw [nextEntries, walkForFacts_some deadline walked, ← same]
  rfl

/-- What each round keeps holds after any number of rounds. -/
theorem entryRounds_invariant (Holds : Interproc → Prop)
    (kept : ∀ interproc next, Holds interproc → nextEntries scans base interproc = some next →
      Holds { interproc with entries := next }) {left : Nat} {interproc last : Interproc}
    (start : Holds interproc)
    (ended : (entryRounds deadline scans base left interproc checks).1 = some last) :
    Holds last := by
  induction left generalizing interproc checks with
  | zero =>
      obtain rfl : interproc = last := Option.some.inj ended
      exact start
  | succ left ih =>
      unfold entryRounds at ended
      rcases step : entryRound deadline scans base interproc checks with ⟨_ | next, count⟩
      · rw [step] at ended
        exact nomatch ended
      · rw [step] at ended
        simp only at ended
        split_ifs at ended
        · obtain rfl : interproc = last := Option.some.inj ended
          exact start
        · have walked : nextEntries scans base interproc = some next :=
            entryRound_some deadline scans base (congrArg Prod.fst step)
          exact ih (kept interproc next start walked) ended

theorem entryRounds_summaries {left : Nat} {interproc last : Interproc}
    (ended : (entryRounds deadline scans base left interproc checks).1 = some last) :
    last.summaries = interproc.summaries :=
  entryRounds_invariant deadline scans base (fun other => other.summaries = interproc.summaries)
    (fun _ _ same _ => same) rfl ended

/-- Each function starts with more locks on the right. -/
def EntriesLe (left right : OrderedMap String (List Held)) : Prop :=
  ∀ function, ((left.lookup function).getD []).Sublist ((right.lookup function).getD [])

/-- The round of the entry locksets is monotone. -/
theorem nextEntries_le (summaries : OrderedMap String Summary)
    {left right : OrderedMap String (List Held)} (le : EntriesLe left right) :
    Option.Rel EntriesLe (nextEntries scans base ⟨summaries, left⟩)
      (nextEntries scans base ⟨summaries, right⟩) := by
  have more : ContextLe (factsContext base ⟨summaries, left⟩)
      (factsContext base ⟨summaries, right⟩) := ⟨rfl, rfl, rfl, rfl, rfl, le⟩
  exact rel_map (factsOf_le scans more) fun _ _ sites => entriesFrom_le sites base.program

/-- The entries of this state stand below those of one more round. -/
def Rising (interproc : Interproc) : Prop :=
  ∀ next, nextEntries scans base interproc = some next → EntriesLe interproc.entries next

theorem rising_empty (summaries : OrderedMap String Summary) :
    Rising scans base ⟨summaries, OrderedMap.empty⟩ :=
  fun _ _ _ => List.nil_sublist _

theorem rising_next {interproc : Interproc} {next : OrderedMap String (List Held)}
    (rising : Rising scans base interproc)
    (walked : nextEntries scans base interproc = some next) :
    Rising scans base { interproc with entries := next } := by
  intro later again
  have monotone := nextEntries_le scans base interproc.summaries (rising next walked)
  rw [again, walked] at monotone
  cases monotone with
  | some le => exact le

/-- After any number of rounds, the entries stand below those of the next round. -/
theorem entryRounds_rising {left : Nat} {interproc last : Interproc}
    (rising : Rising scans base interproc)
    (ended : (entryRounds deadline scans base left interproc checks).1 = some last) :
    Rising scans base last :=
  entryRounds_invariant deadline scans base _ (fun _ _ => rising_next scans base) rising ended

/-- Without a lock call, no walk releases anything. -/
theorem claims_of_unlocked (surveyed : base.program = survey scans)
    (uncounted : base.program.lockCalls = 0) {again : OrderedMap String Summary}
    (walked : nextSummaries scans base OrderedMap.empty = some again) :
    Claims OrderedMap.empty again := by
  obtain ⟨facts, ended, rfl⟩ := Option.map_eq_some_iff.mp walked
  rw [surveyed] at uncounted
  have quiet : Quiet facts :=
    factsOf_quiet rfl (fun _ member index => unlocked_of_survey uncounted member index) ended
  intro function
  refine ⟨List.nil_sublist _, ?_⟩
  have silent : (summaryFrom facts base.program function).released = [] := by
    unfold summaryFrom
    rw [quiet.released, quiet.known]
    rfl
  unfold summariesFrom
  rw [summaryOf_foldl]
  split_ifs
  · rw [silent]
    exact List.nil_subset _
  · exact List.nil_subset _

theorem lookup_unknownSummaries (program : Program) {function : String}
    (defined : OrderedMap.contains program.defined function = true) :
    (unknownSummaries program).lookup function =
      some { acquired := [], released := [.unknown] } := by
  have each (functions : List String) (found : OrderedMap String Summary) :
      (functions.foldl (fun found function =>
          found.insert function { acquired := [], released := [.unknown] }) found).lookup function =
        if function ∈ functions then some { acquired := [], released := [.unknown] }
        else found.lookup function := by
    induction functions generalizing found with
    | nil => simp
    | cons name rest ih =>
        rw [List.foldl_cons, ih, OrderedMap.lookup_insert]
        by_cases same : function = name
        · simp [same]
        · simp [same]
  unfold unknownSummaries
  rw [each, if_pos ((OrderedMap.mem_keys ..).mpr defined)]

/-- The returned facts come from settled summaries, from unknown ones or from no walk. -/
theorem interprocedural_cases {interproc : Interproc} {converged : Bool}
    (ended : (interprocedural deadline scans base checks).1 = some (interproc, converged)) :
    (base.program.lockCalls = 0 ∧ converged = true ∧
      interproc = ⟨OrderedMap.empty, OrderedMap.empty⟩) ∨
    ∃ settled count, (summaryRounds deadline scans base lockSummaryRounds OrderedMap.empty
        checks).1 = some (settled, converged) ∧
      (entryRounds deadline scans base lockSummaryRounds
        ⟨if converged then settled else unknownSummaries base.program, OrderedMap.empty⟩
        count).1 = some interproc := by
  unfold interprocedural at ended
  split_ifs at ended with uncounted
  · have same := Option.some.inj ended
    exact .inl ⟨uncounted, (congrArg Prod.snd same).symm, (congrArg Prod.fst same).symm⟩
  · rcases first : summaryRounds deadline scans base lockSummaryRounds OrderedMap.empty checks with
      ⟨_ | ⟨settled, flag⟩, count⟩
    · rw [first] at ended
      exact nomatch ended
    · rw [first] at ended
      simp only at ended
      rcases second : entryRounds deadline scans base lockSummaryRounds
          ⟨if flag then settled else unknownSummaries base.program, OrderedMap.empty⟩ count with
        ⟨_ | last, final⟩
      · rw [second] at ended
        exact nomatch ended
      · rw [second] at ended
        have same := Option.some.inj ended
        obtain rfl : last = interproc := congrArg Prod.fst same
        obtain rfl : flag = converged := congrArg Prod.snd same
        exact .inr ⟨settled, count, rfl, congrArg Prod.fst second⟩

end Rounds

/-- Settled summaries claim at most what one more walk gives. Unsettled ones acquire nothing and
release anything. The entry locksets rise from round to round. -/
theorem interprocedural_claims_no_more (deadline : Deadline) (scans : List FileScan)
    (base : Context) (surveyed : base.program = survey scans) (checks : Nat)
    (interproc : Interproc) (converged : Bool)
    (ended : (interprocedural deadline scans base checks).1 = some (interproc, converged)) :
    (converged = true →
      (∀ later count again,
        (summaryRound later scans base interproc.summaries count).1 = some again →
          Claims interproc.summaries again) ∧
      (base.program.lockCalls ≠ 0 → ∀ later, (∀ check, later.passed check = false) →
        ∀ count, (summaryRound later scans base interproc.summaries count).1.isSome = true)) ∧
    (converged = false → ∀ function, OrderedMap.contains base.program.defined function = true →
      interproc.summaries.lookup function = some { acquired := [], released := [.unknown] }) ∧
    (∀ later count next, (entryRound later scans base interproc count).1 = some next →
      EntriesLe interproc.entries next) ∧
    (∀ summaries left right, EntriesLe left right → ∀ earlier check less later count more,
      (entryRound earlier scans base ⟨summaries, left⟩ check).1 = some less →
        (entryRound later scans base ⟨summaries, right⟩ count).1 = some more →
          EntriesLe less more) ∧
    ∀ summaries rounds earlier check last,
      (entryRounds earlier scans base rounds ⟨summaries, OrderedMap.empty⟩ check).1 = some last →
        ∀ later count next, (entryRound later scans base last count).1 = some next →
          EntriesLe last.entries next := by
  have rounds (summaries : OrderedMap String Summary) (rounds : Nat) (earlier : Deadline)
      (check : Nat) (last : Interproc) (ended : (entryRounds earlier scans base rounds
        ⟨summaries, OrderedMap.empty⟩ check).1 = some last) (later : Deadline) (count : Nat)
      (next : OrderedMap String (List Held))
      (walked : (entryRound later scans base last count).1 = some next) :
      EntriesLe last.entries next :=
    entryRounds_rising earlier scans base (rising_empty scans base summaries) ended next
      (entryRound_some later scans base walked)
  have monotone (summaries : OrderedMap String Summary) (left right : OrderedMap String (List Held))
      (le : EntriesLe left right) (earlier : Deadline) (check : Nat)
      (less : OrderedMap String (List Held)) (later : Deadline) (count : Nat)
      (more : OrderedMap String (List Held))
      (narrow : (entryRound earlier scans base ⟨summaries, left⟩ check).1 = some less)
      (wide : (entryRound later scans base ⟨summaries, right⟩ count).1 = some more) :
      EntriesLe less more := by
    have both := nextEntries_le scans base summaries le
    rw [entryRound_some earlier scans base narrow, entryRound_some later scans base wide] at both
    cases both with
    | some kept => exact kept
  rcases interprocedural_cases deadline scans base ended with
    ⟨uncounted, rfl, rfl⟩ | ⟨settled, count, first, second⟩
  · refine ⟨fun _ => ⟨?_, fun counted => absurd uncounted counted⟩, nofun, ?_, monotone, rounds⟩
    · intro later count again walked
      exact claims_of_unlocked scans base surveyed uncounted
        (summaryRound_some later scans base walked)
    · intro later count next walked
      exact rising_empty scans base _ next (entryRound_some later scans base walked)
  · have kept : interproc.summaries =
        if converged then settled else unknownSummaries base.program :=
      entryRounds_summaries deadline scans base second
    refine ⟨?_, ?_, rounds _ _ _ _ _ second, monotone, rounds⟩
    · rintro rfl
      obtain ⟨plain, walked, claims⟩ := summaryRounds_claims deadline scans base first
      rw [if_pos rfl] at kept
      rw [kept]
      refine ⟨?_, ?_⟩
      · intro later count again recomputed
        have same := summaryRound_some later scans base recomputed
        obtain rfl : plain = again := Option.some.inj (walked.symm.trans same)
        exact claims
      · intro _ later never count
        obtain ⟨facts, given, _⟩ := Option.map_eq_some_iff.mp walked
        unfold summaryRound
        simp only [walkForFacts_patient never, given]
        rfl
    · rintro rfl function defined
      rw [kept]
      exact lookup_unknownSummaries base.program defined

/-- The first function takes a lock for the second one, which calls the third one. -/
def wrapperScan : FileScan where
  path := "f.c"
  lines := ["void grab(void) \x7b", "pthread_mutex_lock(&m);", "\x7d", "void use(void) \x7b", "\x7d",
    "void work(void) \x7b", "grab();", "use();", "pthread_mutex_unlock(&m);", "\x7d"].map
      String.toList
  functions := [⟨"grab", []⟩, ⟨"use", []⟩, ⟨"work", []⟩]
  owner := [some 0, some 0, some 0, some 1, some 1, some 2, some 2, some 2, some 2, some 2]
  sameLength := rfl
  globals := OrderedMap.empty
  atomics := OrderedMap.empty

def wrapperContext : Context where
  program := survey [wrapperScan]
  sets := OrderedMap.empty
  repeating := ∅
  includeUnshared := false
  interproc := ⟨OrderedMap.empty, OrderedMap.empty⟩

def noDeadline : Deadline := ⟨fun _ => false⟩

/-- The wrapper acquires the lock, and the third function starts with it. -/
def wrapperFacts : Interproc where
  summaries := OrderedMap.empty.insert "grab"
    { acquired := [(.name "m", false)], released := [] }
  entries := OrderedMap.empty.insert "use" [⟨"m", false⟩]

theorem interprocedural_claims_no_more_example :
    (∀ later count again,
      (summaryRound later [wrapperScan] wrapperContext wrapperFacts.summaries count).1 =
          some again →
        Claims wrapperFacts.summaries again) ∧
      ∀ later count next,
        (entryRound later [wrapperScan] wrapperContext wrapperFacts count).1 = some next →
          EntriesLe wrapperFacts.entries next := by
  obtain ⟨settled, _, rising, _⟩ := interprocedural_claims_no_more noDeadline [wrapperScan]
    wrapperContext rfl 0 wrapperFacts true (by decide +kernel)
  exact ⟨(settled rfl).1, rising⟩

end FramaCMcp.Concurrency
