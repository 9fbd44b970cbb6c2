/-
This file shows for which probes a check stays silent although the probe is not complete.
-/

import Mathlib.Algebra.Order.BigOperators.Group.List
import FramaCMcp.Construction.EvidenceGates

namespace FramaCMcp.ProbeGates

open CheckGaps EvidenceGates

def smokeProbe (wp : Json) : Json := (wp.get "smoke_probe").getD .null

def number (probe : Json) (key : String) : Option Nat := (probe.get key).bind Json.asU64

def list (probe : Json) (key : String) : Option (List Json) := (probe.get key).bind Json.asArray

def provedNothing (probe : Json) : Bool :=
  ((probe.get "nothing_was_proved").bind Json.asBool).getD false

def named (entry : Json) : Bool := (entry.get "function").any fun name => !name.isNull

/-- The probe ran, all smoke goals passed, and none of them is listed as failed. -/
structure SmokeComplete (probe : Json) : Prop where
  ran : probeRan probe = true
  failed : list probe "failed" = some []
  passed : ∃ total, number probe "total" = some total ∧ number probe "passed" = some total

/-- The probe ran, and each entry of its list says that no hypothesis was found. -/
structure MemoryComplete (probe : Json) : Prop where
  ran : probeRan probe = true
  read : ∃ entries, list probe "hypotheses" = some entries ∧
    ∀ entry ∈ entries, named entry = false ∧ number entry "unparsed_warning_count" = some 0

/-- The probes of a check with proofs are complete, or nothing was proved, or there is a gap. -/
def FailsClosed (wanted : WantedAnalyses) (requested : Bool) (wp probe : Json) : Prop :=
  wanted.wp = true →
    ((requested = true → SmokeComplete (smokeProbe wp)) ∧ MemoryComplete probe) ∨
      provedNothing probe = true ∨ smokeTestGaps requested wp ≠ [] ∨
        (memoryModelHypothesisGap probe).isSome = true ∨
          (memoryModelUncheckedGap probe wanted).isSome = true

/-- A field of the smoke probe shows a failure or that nothing was measured. -/
def SmokeShows (probe : Json) : Prop :=
  probeRan probe = false ∨ number probe "total" = none ∨
    (∃ name names, list probe "failed" = some (name :: names)) ∨
      ∃ passed total, number probe "passed" = some passed ∧ number probe "total" = some total ∧
        passed < total

/-- The warnings that the probe could not read are counted entry by entry. -/
def unread (probe : Json) : Nat :=
  ((hypothesisEntries probe).filterMap fun entry => number entry "unparsed_warning_count").sum

/-- A field of the memory-model probe shows a hypothesis, an unread warning or why it did not run. -/
def MemoryShows (probe : Json) : Prop :=
  if probeRan probe then
    (∃ entry ∈ hypothesisEntries probe, named entry = true) ∨ unread probe % 2 ^ 64 ≠ 0
  else ((probe.get "reason").bind Json.asStr).isSome = true ∧ provedNothing probe = false

/-- The list of failures is there, and no more goals passed than there are. -/
structure SmokeFilled (probe : Json) : Prop where
  failed : (list probe "failed").isSome = true
  passed : ∃ passed total, number probe "passed" = some passed ∧
    number probe "total" = some total ∧ passed ≤ total

/-- The list of hypotheses is there, each entry counts its warnings, and the sum does not wrap. -/
structure MemoryFilled (probe : Json) : Prop where
  ran : probeRan probe = true
  read : ∃ entries, list probe "hypotheses" = some entries ∧
    ∀ entry ∈ entries, (number entry "unparsed_warning_count").isSome = true
  small : unread probe < 2 ^ 64

section Smoke

theorem probeRan_filter (wp : Json) :
    ((wp.get "smoke_probe").filter fun probe => (probe.get "ran").bind Json.asBool == some true) =
      if probeRan (smokeProbe wp) then some (smokeProbe wp) else none := by
  rw [smokeProbe, probeRan]
  cases wp.get "smoke_probe" with
  | none => rfl
  | some probe => exact Option.filter_some

theorem smokeTestGaps_ne_nil (wp : Json) :
    smokeTestGaps true wp ≠ [] ↔ SmokeShows (smokeProbe wp) := by
  rw [smokeTestGaps, probeRan_filter, SmokeShows]
  generalize smokeProbe wp = probe
  rw [if_neg (by decide)]
  cases probeRan probe with
  | false => simp
  | true =>
      simp only [if_true, number, list, Bool.true_eq_false, false_or]
      generalize (probe.get "total").bind Json.asU64 = total
      generalize (probe.get "passed").bind Json.asU64 = passed
      generalize (probe.get "failed").bind Json.asArray = failed
      cases total with
      | none => simp
      | some total =>
          rcases failed with _ | _ | ⟨name, names⟩
          · cases passed with
            | none => simp
            | some passed => simp [Nat.sub_eq_zero_iff_le]
          · cases passed with
            | none => simp
            | some passed => simp [Nat.sub_eq_zero_iff_le]
          · simp

theorem smokeTestGaps_not_requested (wp : Json) : smokeTestGaps false wp = [] := rfl

theorem smokeComplete_iff {probe : Json} (silent : ¬ SmokeShows probe) :
    SmokeComplete probe ↔ SmokeFilled probe := by
  simp only [SmokeShows, not_or] at silent
  obtain ⟨ran, -, unlisted, enough⟩ := silent
  constructor
  · rintro ⟨-, failed, total, counted, passed⟩
    exact ⟨by rw [failed]; rfl, total, total, passed, counted, le_refl total⟩
  · rintro ⟨failed, passed, total, passes, counted, most⟩
    refine ⟨Bool.eq_true_of_not_eq_false ran, ?_, total, counted, ?_⟩
    · obtain ⟨names, listed⟩ := Option.isSome_iff_exists.mp failed
      cases names with
      | nil => exact listed
      | cons name names => exact absurd ⟨name, names, listed⟩ unlisted
    · have least : total ≤ passed := Nat.le_of_not_lt fun fewer =>
        enough ⟨passed, total, passes, counted, fewer⟩
      rw [passes, Nat.le_antisymm most least]

end Smoke

section Memory

theorem parsed_eq_nil_iff (probe : Json) :
    parsedHypothesisEntries probe = [] ↔ ¬ ∃ entry ∈ hypothesisEntries probe, named entry = true := by
  rw [parsedHypothesisEntries, List.filter_eq_nil_iff]
  simp only [not_exists, not_and]
  rfl

theorem isSome_ite {Entry : Type} {test : Prop} [Decidable test] {entry : Entry} :
    (if test then none else some entry).isSome = true ↔ ¬ test := by
  split_ifs with holds
  · exact ⟨fun found => (by cases found), fun other => absurd holds other⟩
  · exact ⟨fun _ => holds, fun _ => rfl⟩

theorem isSome_hypothesisGap (probe : Json) : (memoryModelHypothesisGap probe).isSome = true ↔
    probeRan probe = true ∧ ∃ entry ∈ hypothesisEntries probe, named entry = true := by
  have empty := parsed_eq_nil_iff probe
  rw [memoryModelHypothesisGap, isSome_ite, Bool.or_eq_true, List.isEmpty_iff, empty]
  cases probeRan probe <;> simp

theorem isSome_uncheckedGap {wanted : WantedAnalyses} (wants : wanted.wp = true) (probe : Json) :
    (memoryModelUncheckedGap probe wanted).isSome = true ↔
      if probeRan probe then
        unread probe % 2 ^ 64 ≠ 0 ∧ ¬ ∃ entry ∈ hypothesisEntries probe, named entry = true
      else ((probe.get "reason").bind Json.asStr).isSome = true ∧ provedNothing probe = false := by
  have sum : unparsedHypothesisWarnings probe = unread probe % 2 ^ 64 := rfl
  rw [memoryModelUncheckedGap, sum, wants]
  generalize unread probe % 2 ^ 64 = unread
  rw [if_neg (by decide)]
  cases probeRan probe with
  | true => rw [if_pos rfl, if_pos rfl, isSome_ite, not_or, ne_eq, not_not, parsed_eq_nil_iff]
  | false =>
      rw [if_neg (by decide), if_neg (by decide)]
      cases (probe.get "reason").bind Json.asStr with
      | none => exact ⟨fun found => (by cases found), fun found => (by cases found.1)⟩
      | some reason =>
          rw [Option.bind_some, isSome_ite, provedNothing, Bool.not_eq_true]
          exact ⟨fun kept => ⟨rfl, kept⟩, And.right⟩

theorem memoryGap_iff {wanted : WantedAnalyses} (wants : wanted.wp = true) (probe : Json) :
    (memoryModelHypothesisGap probe).isSome = true ∨
      (memoryModelUncheckedGap probe wanted).isSome = true ↔ MemoryShows probe := by
  rw [isSome_hypothesisGap, isSome_uncheckedGap wants, MemoryShows]
  cases probeRan probe with
  | true =>
      rw [if_pos rfl, if_pos rfl, eq_self_iff_true, true_and]
      by_cases found : ∃ entry ∈ hypothesisEntries probe, named entry = true
      · simp only [found, true_or]
      · simp only [found, false_or, not_false_eq_true, and_true]
  | false => simp

theorem memoryComplete_iff {probe : Json} (silent : ¬ MemoryShows probe) :
    MemoryComplete probe ↔ MemoryFilled probe := by
  constructor
  · rintro ⟨ran, entries, listed, clean⟩
    have whole : hypothesisEntries probe = entries := by
      rw [hypothesisEntries, ← list, listed, Option.getD_some]
    refine ⟨ran, ⟨entries, listed, fun entry member => ?_⟩, ?_⟩
    · rw [(clean entry member).2]
      rfl
    · have none : unread probe = 0 := by
        rw [unread, whole, List.sum_eq_zero_iff]
        intro count member
        obtain ⟨entry, there, counted⟩ := List.mem_filterMap.mp member
        rw [(clean entry there).2] at counted
        exact (Option.some.inj counted).symm
      rw [none]
      exact Nat.two_pow_pos 64
  · rintro ⟨ran, ⟨entries, listed, counted⟩, small⟩
    have whole : hypothesisEntries probe = entries := by
      rw [hypothesisEntries, ← list, listed, Option.getD_some]
    rw [MemoryShows, if_pos ran, not_or, not_not, Nat.mod_eq_of_lt small, unread, whole,
      List.sum_eq_zero_iff] at silent
    obtain ⟨unnamed, zero⟩ := silent
    refine ⟨ran, entries, listed, fun entry member => ⟨?_, ?_⟩⟩
    · exact Bool.eq_false_of_not_eq_true fun holds => unnamed ⟨entry, member, holds⟩
    · obtain ⟨count, is⟩ := Option.isSome_iff_exists.mp (counted entry member)
      rw [is, zero count (List.mem_filterMap.mpr ⟨entry, member, is⟩)]

end Memory

/-- A check fails closed exactly where a probe that shows nothing by itself has all its fields. -/
theorem failsClosed_iff (wanted : WantedAnalyses) (requested : Bool) (wp probe : Json) :
    FailsClosed wanted requested wp probe ↔
      (wanted.wp = true → provedNothing probe = true ∨ MemoryShows probe ∨
        (requested = true ∧ SmokeShows (smokeProbe wp)) ∨
          ((requested = true → SmokeFilled (smokeProbe wp)) ∧ MemoryFilled probe)) := by
  refine imp_congr_right fun wants => ?_
  have smoke : smokeTestGaps requested wp ≠ [] ↔
      requested = true ∧ SmokeShows (smokeProbe wp) := by
    cases requested with
    | false => simp [smokeTestGaps_not_requested]
    | true => rw [smokeTestGaps_ne_nil, eq_self_iff_true, true_and]
  rw [memoryGap_iff wants, smoke]
  by_cases memory : MemoryShows probe
  · simp only [memory, true_or, or_true]
  · rw [memoryComplete_iff memory]
    by_cases asked : requested = true ∧ SmokeShows (smokeProbe wp)
    · simp only [asked, and_self, true_or, or_true]
    · have complete : (requested = true → SmokeComplete (smokeProbe wp)) ↔
          (requested = true → SmokeFilled (smokeProbe wp)) :=
        imp_congr_right fun requests => smokeComplete_iff fun shows => asked ⟨requests, shows⟩
      rw [complete]
      tauto

/-- A memory-model probe that did not run and gives no reason leaves no gap. -/
theorem not_failsClosed : ¬ ∀ (wanted : WantedAnalyses) (requested : Bool) (wp probe : Json),
    FailsClosed wanted requested wp probe := by
  intro always
  rcases always .both false .null (.obj [("ran", .bool false)]) rfl with
    complete | nothing | smoke | hypothesis | unchecked
  · exact absurd complete.2.ran (by decide)
  · exact absurd nothing (by decide)
  · exact smoke rfl
  · exact absurd hypothesis (by decide)
  · exact absurd unchecked (by decide)

end FramaCMcp.ProbeGates
