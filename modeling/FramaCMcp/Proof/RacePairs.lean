/-
This file compares the counted candidates with the pairs of accesses that may race.
-/

import FramaCMcp.Construction.RaceCandidates

namespace FramaCMcp.Concurrency

section Scans

variable (deadline : Deadline) (repeating : Finset String)

/-- The two accesses conflict and their threads may run at the same time. -/
def paired (left right : Event) : Bool :=
  conflicting left.kind right.kind && mayRunConcurrently left right repeating

/-- The event is an access to a named zone. -/
def zoned (event : Event) : Bool := isAccess event.kind && event.zone.isSome

/-- The two events are accesses to one zone that may race. -/
def races (left right : Event) : Bool :=
  zoned left && zoned right && (left.zone == right.zone && paired repeating left right)

/-- No limit stopped the scan. -/
def Candidates.Whole (out : Candidates) : Prop := out.exhausted = false ∧ out.timedOut = false

instance (out : Candidates) : Decidable out.Whole := inferInstanceAs (Decidable (_ ∧ _))

/-- What a scan that no limit stopped has counted. -/
structure Counted (out : Candidates) (count : Nat) (scan : Scan) : Prop where
  start : out.Whole
  goesOn : scan.goesOn = true
  total : scan.out.total = out.total + count

theorem pairRow_counted {left : Event} {row : List Event} {out : Candidates} {checks : Nat}
    (whole : (pairRow deadline repeating left row out checks).out.Whole) :
    Counted out (row.countP (paired repeating left))
      (pairRow deadline repeating left row out checks) := by
  induction row generalizing out checks with
  | nil => exact ⟨whole, rfl, rfl⟩
  | cons right rest ih =>
      unfold pairRow at whole ⊢
      by_cases late : deadline.passed checks = true
      · rw [if_pos late] at whole
        cases whole.2
      · simp only [late, if_false, Bool.false_eq_true] at whole ⊢
        by_cases empty : out.budget = 0
        · simp only [Candidates.spend, empty, if_true] at whole
          cases whole.1
        · simp only [Candidates.spend, empty, if_false] at whole ⊢
          rw [List.countP_cons]
          by_cases racing : paired repeating left right = true
          · rw [if_pos racing]
            unfold paired at racing
            simp only [racing, if_true] at whole ⊢
            obtain ⟨start, goesOn, total⟩ := ih whole
            refine ⟨start, goesOn, total.trans ?_⟩
            simp only [Candidates.push]
            omega
          · rw [if_neg racing]
            unfold paired at racing
            simp only [racing, if_false, Bool.false_eq_true] at whole ⊢
            obtain ⟨start, goesOn, total⟩ := ih whole
            exact ⟨start, goesOn, total⟩

theorem zoneCandidates_counted {group : List Event} {out : Candidates} {checks : Nat}
    (whole : (zoneCandidates deadline repeating group out checks).out.Whole) :
    Counted out (Pairs.strictPairs (paired repeating) group)
      (zoneCandidates deadline repeating group out checks) := by
  induction group generalizing out checks with
  | nil => exact ⟨whole, rfl, rfl⟩
  | cons left rest ih =>
      have row := @pairRow_counted deadline repeating left rest out checks
      unfold zoneCandidates at whole ⊢
      rcases scanned : pairRow deadline repeating left rest out checks with ⟨done, count, goesOn⟩
      rw [scanned] at row
      cases goesOn with
      | false =>
          simp only [scanned] at whole
          cases (row whole).goesOn
      | true =>
          simp only [scanned] at whole ⊢
          obtain ⟨start, goesOn, total⟩ := ih whole
          have first := row start
          refine ⟨first.start, goesOn, ?_⟩
          rw [total, first.total, Pairs.strictPairs, Nat.add_assoc]

theorem selfCandidates_counted {events : List Event} {out : Candidates} {checks : Nat}
    (whole : (selfCandidates deadline events out checks).out.Whole) :
    Counted out (events.countP fun event => event.kind = .write && event.mayRepeat)
      (selfCandidates deadline events out checks) := by
  induction events generalizing out checks with
  | nil => exact ⟨whole, rfl, rfl⟩
  | cons event rest ih =>
      unfold selfCandidates at whole ⊢
      rw [List.countP_cons]
      by_cases again : (event.kind = .write && event.mayRepeat) = true
      · rw [if_pos again] at whole ⊢
        by_cases late : deadline.passed checks = true
        · rw [if_pos late] at whole
          cases whole.2
        · rw [if_neg late] at whole ⊢
          obtain ⟨start, goesOn, total⟩ := ih whole
          rw [if_pos again]
          exact ⟨start, goesOn, total.trans (by simp only [Candidates.push]; omega)⟩
      · rw [if_neg again] at whole ⊢
        rw [if_neg again]
        exact ih whole

theorem allZones_counted {groups : List (List Event)} {out : Candidates} {checks : Nat}
    (whole : (allZones deadline repeating groups out checks).1.Whole) :
    out.Whole ∧ (allZones deadline repeating groups out checks).1.total =
      out.total + (groups.map (Pairs.strictPairs (paired repeating))).sum := by
  induction groups generalizing out checks with
  | nil => exact ⟨whole, rfl⟩
  | cons group rest ih =>
      unfold allZones at whole ⊢
      by_cases stopped : (out.exhausted || out.timedOut) = true
      · rw [if_pos stopped] at whole
        rw [whole.1, whole.2] at stopped
        cases stopped
      · rw [if_neg stopped] at whole ⊢
        obtain ⟨start, total⟩ := ih whole
        have first := zoneCandidates_counted deadline repeating start
        refine ⟨first.start, ?_⟩
        rw [total, first.total, List.map_cons, List.sum_cons, Nat.add_assoc]

/-- The zone of an access, where it has one. -/
def zoneName (event : Event) : String := event.zone.getD ""

theorem groupByZone_eq {events : List Event} {groups collected : OrderedMap String (List Event)}
    {checks count : Nat}
    (whole : groupByZone deadline events groups checks = (some collected, count)) :
    collected = Pairs.group zoneName (events.filter zoned) groups := by
  induction events generalizing groups checks with
  | nil => exact (Option.some.inj (congrArg Prod.fst whole)).symm
  | cons event rest ih =>
      unfold groupByZone at whole
      by_cases access : isAccess event.kind = true
      · rw [if_pos access] at whole
        by_cases late : deadline.passed checks = true
        · rw [if_pos late] at whole
          cases whole
        · rw [if_neg late] at whole
          cases zone : event.zone with
          | none =>
              simp only [zone] at whole
              rw [List.filter_cons_of_neg (by simp [zoned, zone])]
              exact ih whole
          | some name =>
              simp only [zone] at whole
              rw [List.filter_cons_of_pos (by simp [zoned, access, zone]), Pairs.group]
              simp only [zoneName, zone, Option.getD_some]
              exact ih whole
      · rw [if_neg access] at whole
        rw [List.filter_cons_of_neg (by simp [zoned, access])]
        exact ih whole

/-- The pairs within the groups are the pairs of accesses to one zone. -/
theorem groups_pairs (events : List Event) :
    (Pairs.group zoneName (events.filter zoned) OrderedMap.empty).total
        (Pairs.strictPairs (paired repeating)) =
      Pairs.strictPairs (races repeating) events := by
  have grouped := (Pairs.grouped_empty (paired repeating) zoneName).group (events.filter zoned)
  rw [grouped.pairs, List.nil_append, Pairs.strictPairs_filter]
  apply Pairs.strictPairs_congr
  intro left _ right _
  unfold races
  cases access : zoned left && zoned right with
  | false => rfl
  | true =>
      rw [Bool.and_eq_true, zoned, zoned, Bool.and_eq_true, Bool.and_eq_true] at access
      obtain ⟨⟨_, first⟩, ⟨_, second⟩⟩ := access
      obtain ⟨one, named⟩ := Option.isSome_iff_exists.mp first
      obtain ⟨other, called⟩ := Option.isSome_iff_exists.mp second
      simp only [zoneName, named, called, Option.getD_some, Bool.true_and]
      rfl

/-- Where no limit stops the scan, every write that may repeat is counted once and every pair of
different accesses that may race is counted once. -/
theorem candidateList_total {events : List Event} {cap : Nat}
    (whole : (candidateList deadline repeating events cap).Whole) :
    (candidateList deadline repeating events cap).total =
      (events.countP fun event => event.kind = .write && event.mayRepeat) +
        Pairs.strictPairs (races repeating) events := by
  unfold candidateList at whole ⊢
  rcases grouped : groupByZone deadline events OrderedMap.empty 0 with ⟨collected, checks⟩
  cases collected with
  | none =>
      simp only [grouped] at whole
      cases whole.2
  | some groups =>
      simp only [grouped] at whole ⊢
      have alone := @selfCandidates_counted deadline events (startCandidates cap) checks
      rcases repeated : selfCandidates deadline events (startCandidates cap) checks with
        ⟨out, count, goesOn⟩
      rw [repeated] at alone
      cases goesOn with
      | false =>
          simp only [repeated] at whole
          cases (alone whole).goesOn
      | true =>
          simp only [repeated] at whole ⊢
          have zones : (allZones deadline repeating groups.values out count).1.Whole :=
            ⟨whole.1, (Bool.or_eq_false_iff.mp whole.2).1⟩
          obtain ⟨start, total⟩ := allZones_counted deadline repeating zones
          rw [total, (alone start).total, ← groups_pairs, ← groupByZone_eq deadline grouped]
          show 0 + _ + _ = _
          rw [Nat.zero_add]
          rfl

/-- Only a plain write conflicts with itself. -/
theorem conflicting_self (kind : EventKind) :
    (isAccess kind && conflicting kind kind) = decide (kind = .write) := by
  cases kind <;> decide

/-- An event races with itself where it is a plain write of a named zone whose threads may run at
the same time as themselves. -/
theorem races_self (event : Event) :
    races repeating event event = (decide (event.kind = .write) && (event.zone.isSome &&
      threadsConcurrent event.threads event.threads repeating)) := by
  rw [← conflicting_self]
  unfold races zoned paired mayRunConcurrently
  rw [beq_self_eq_true, Bool.true_and, Bool.and_self]
  ac_rfl

/-- The candidates are complete exactly where as many plain writes carry the flag of a repeating
thread as may race with themselves. -/
theorem complete_iff_count {events : List Event} {cap : Nat}
    (whole : (candidateList deadline repeating events cap).Whole) :
    (candidateList deadline repeating events cap).total =
        Pairs.unorderedPairs (races repeating) events ↔
      (events.countP fun event => event.kind = .write && event.mayRepeat) =
        events.countP fun event => decide (event.kind = .write) && (event.zone.isSome &&
          threadsConcurrent event.threads event.threads repeating) := by
  rw [candidateList_total deadline repeating whole, Pairs.unorderedPairs_eq]
  simp only [races_self]
  omega

/-- An event as the scan emits it has the flag of its threads, some thread, and a zone if it is an
access. -/
structure Event.Emitted (event : Event) : Prop where
  flag : event.mayRepeat = repeats repeating event.threads
  attributed : event.threads ≠ []
  named : isAccess event.kind = true → event.zone.isSome = true

/-- The threads run at the same time as themselves, and none of them repeats. -/
def UnflaggedRace (event : Event) : Prop :=
  event.kind = .write ∧ repeats repeating event.threads = false ∧
    (2 ≤ event.threads.length ∨ event.threads = [unattributed])

/-- A repeating thread runs at the same time as itself. -/
theorem threadsConcurrent_self {threads : List String} (some : threads ≠ []) :
    threadsConcurrent threads threads repeating = true ↔
      repeats repeating threads = true ∨ 2 ≤ threads.length ∨ threads = [unattributed] := by
  cases threads with
  | nil => exact absurd rfl some
  | cons one rest =>
      cases rest with
      | nil => simp [threadsConcurrent, repeats]
      | cons other rest => simp [threadsConcurrent]

/-- The flag of an emitted plain write misses exactly the races of threads that run once. -/
theorem unflaggedRace_iff {event : Event} (emitted : event.Emitted repeating) :
    ¬ UnflaggedRace repeating event ↔
      ((decide (event.kind = .write) && (event.zone.isSome &&
          threadsConcurrent event.threads event.threads repeating)) = true →
        (event.kind = .write && event.mayRepeat) = true) := by
  unfold UnflaggedRace
  by_cases kind : event.kind = .write
  · have named : event.zone.isSome = true := emitted.named (by rw [kind]; decide)
    have self := threadsConcurrent_self repeating emitted.attributed
    rw [named, emitted.flag]
    simp only [kind, decide_true, Bool.true_and, true_and, self]
    cases repeats repeating event.threads <;> simp
  · simp [kind]

theorem complete_iff_flagged {events : List Event} {cap : Nat}
    (whole : (candidateList deadline repeating events cap).Whole)
    (emitted : ∀ event ∈ events, event.Emitted repeating) :
    (candidateList deadline repeating events cap).total =
        Pairs.unorderedPairs (races repeating) events ↔
      ∀ event ∈ events, ¬ UnflaggedRace repeating event := by
  rw [complete_iff_count deadline repeating whole, Pairs.countP_eq_iff]
  · exact forall₂_congr fun event member => (unflaggedRace_iff repeating (emitted event member)).symm
  · intro event member flagged
    obtain ⟨kind, flag⟩ := Bool.and_eq_true_iff.mp flagged
    have named := (emitted event member).named (by rw [of_decide_eq_true kind]; decide)
    rw [(emitted event member).flag] at flag
    rw [kind, named, (threadsConcurrent_self repeating (emitted event member).attributed).mpr
      (.inl flag)]
    rfl

/-- Where no limit stops the scan, the candidates are complete exactly where as many plain writes
carry the flag of a repeating thread as may race with themselves. For emitted events this means
that no plain write belongs to two threads that run once or to unattributed code alone. -/
theorem candidateList_complete_iff (events : List Event) (cap : Nat)
    (whole : (candidateList deadline repeating events cap).Whole) :
    ((candidateList deadline repeating events cap).total =
        Pairs.unorderedPairs (races repeating) events ↔
      (events.countP fun event => event.kind = .write && event.mayRepeat) =
        events.countP fun event => decide (event.kind = .write) && (event.zone.isSome &&
          threadsConcurrent event.threads event.threads repeating)) ∧
    ((∀ event ∈ events, event.Emitted repeating) →
      ((candidateList deadline repeating events cap).total =
          Pairs.unorderedPairs (races repeating) events ↔
        ∀ event ∈ events, ¬ UnflaggedRace repeating event)) :=
  ⟨complete_iff_count deadline repeating whole, complete_iff_flagged deadline repeating whole⟩

end Scans

/-- This write stands in a helper that two threads reach, each of which runs once. -/
def sharedWrite : Event where
  id := "E1"
  threads := ["reader", "writer"]
  mayRepeat := false
  kind := .write
  file := "f.c"
  line := 4
  function := "helper"
  zone := some "counter"
  lockset := []
  readLocks := []
  lockMode := none

def patient : Deadline := ⟨fun _ => false⟩

def flaggedWrite : Event := { sharedWrite with threads := ["writer"], mayRepeat := true }

theorem candidateList_complete_iff_example :
    (candidateList patient {"writer"} [flaggedWrite] 8).total =
      Pairs.unorderedPairs (races {"writer"}) [flaggedWrite] :=
  (candidateList_complete_iff patient {"writer"} [flaggedWrite] 8 (by decide)).1.mpr (by decide)

/-- The write of the helper may race with itself, and the complete scan has no candidate. -/
theorem candidateList_misses_shared :
    (candidateList patient ∅ [sharedWrite] 8).exhausted = false ∧
      (candidateList patient ∅ [sharedWrite] 8).timedOut = false ∧
      (candidateList patient ∅ [sharedWrite] 8).total = 0 ∧
      Pairs.unorderedPairs (races ∅) [sharedWrite] = 1 := by
  decide

end FramaCMcp.Concurrency
