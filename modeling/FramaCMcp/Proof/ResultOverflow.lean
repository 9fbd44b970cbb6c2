/-
This file shows when the arithmetic of the result-range lint stays within 64 bits.
-/

import FramaCMcp.Proof.ResultReadings

namespace FramaCMcp.ResultRange

section Bounds

def Fits (value : Int) : Prop := -2 ^ 63 ≤ value ∧ value < 2 ^ 63

theorem checked_of_fits {value : Int} (fits : Fits value) : checked value = .ok value := if_pos fits

theorem checked_of_not_fits {value : Int} (large : ¬Fits value) :
    checked value = .error .overflow := if_neg large

/-- The bound on one side is the tightest of the values read on that side. -/
def IsTightest (values : List Int) (tighter : Int → Int → Prop) : Option Int → Prop
  | none => values = []
  | some bound => bound ∈ values ∧ ∀ value ∈ values, tighter bound value

def lows (rows : List Reading) : List Int := (rows.filter Reading.isLow).map Reading.value

def highs (rows : List Reading) : List Int :=
  (rows.filter fun row => !row.isLow).map Reading.value

/-- Both bounds are the tightest ones. -/
def Tightest (rows : List Reading) (bounds : Bounds) : Prop :=
  IsTightest (lows rows) (fun bound value => value ≤ bound) bounds.low ∧
    IsTightest (highs rows) (fun bound value => bound ≤ value) bounds.high

theorem isTightest_append {values : List Int} {bound : Option Int} {tighter : Int → Int → Prop}
    {pick : Int → Int → Int} (value : Int) (tightest : IsTightest values tighter bound)
    (one : ∀ old, pick old value = old ∨ pick old value = value)
    (both : ∀ old, tighter (pick old value) old ∧ tighter (pick old value) value)
    (reflexive : ∀ value, tighter value value)
    (chain : ∀ first second third, tighter first second → tighter second third →
      tighter first third) :
    IsTightest (values ++ [value]) tighter (some (bound.elim value (pick · value))) := by
  cases bound with
  | none =>
      subst tightest
      exact ⟨List.mem_singleton_self _, fun other member =>
        List.mem_singleton.mp member ▸ reflexive _⟩
  | some old =>
      refine ⟨?_, fun other member => ?_⟩
      · rcases one old with same | same
        · rw [Option.elim_some, same]
          exact List.mem_append_left _ tightest.1
        · rw [Option.elim_some, same]
          exact List.mem_append_right _ (List.mem_singleton_self _)
      · rcases List.mem_append.mp member with earlier | last
        · exact chain _ _ _ (both old).1 (tightest.2 other earlier)
        · exact List.mem_singleton.mp last ▸ (both old).2

theorem narrow_step {rows : List Reading} {bounds : Bounds} (tightest : Tightest rows bounds)
    (row : Reading) (fits : Fits row.value) :
    ∃ later, narrow bounds row = .ok later ∧ Tightest (rows ++ [row]) later := by
  have value : (if row.isLow then row.literal + row.strictBy else row.literal - row.strictBy) =
      row.value := rfl
  rw [narrow, tighten, value, checked_of_fits fits]
  cases side : row.isLow with
  | true =>
      refine ⟨_, rfl, ?_, ?_⟩
      · rw [lows, List.filter_append, List.map_append, List.filter_singleton, side]
        exact isTightest_append row.value tightest.1 (fun old => max_choice old _)
          (fun old => ⟨le_max_left _ _, le_max_right _ _⟩) (fun _ => le_rfl)
          fun _ _ _ first second => second.trans first
      · rw [highs, List.filter_append, List.map_append, List.filter_singleton, side]
        simpa [highs] using tightest.2
  | false =>
      refine ⟨_, rfl, ?_, ?_⟩
      · rw [lows, List.filter_append, List.map_append, List.filter_singleton, side]
        simpa [lows] using tightest.1
      · rw [highs, List.filter_append, List.map_append, List.filter_singleton, side]
        exact isTightest_append row.value tightest.2 (fun old => min_choice old _)
          (fun old => ⟨min_le_left _ _, min_le_right _ _⟩) (fun _ => le_rfl)
          fun _ _ _ first second => first.trans second

theorem narrow_overflow (bounds : Bounds) {row : Reading} (large : ¬Fits row.value) :
    narrow bounds row = .error .overflow := by
  have value : (if row.isLow then row.literal + row.strictBy else row.literal - row.strictBy) =
      row.value := rfl
  rw [narrow, tighten, value, checked_of_not_fits large]
  rfl

/-- The scan of a contract overflows at the first value that does not fit, and else it finds the
tightest bounds. -/
theorem narrow_run (rows : List Reading) {before : List Reading} {bounds : Bounds}
    (tightest : Tightest before bounds) :
    ((∀ row ∈ rows, Fits row.value) ∧
        ∃ later, rows.foldlM narrow bounds = .ok later ∧ Tightest (before ++ rows) later) ∨
      ((∃ row ∈ rows, ¬Fits row.value) ∧ rows.foldlM narrow bounds = .error .overflow) := by
  induction rows generalizing before bounds with
  | nil => exact .inl ⟨nofun, bounds, rfl, by rwa [List.append_nil]⟩
  | cons row rows ih =>
      rw [List.foldlM_cons]
      by_cases fits : Fits row.value
      · obtain ⟨next, narrowed, tighter⟩ := narrow_step tightest row fits
        rw [narrowed]
        rcases ih tighter with
          ⟨all, later, found, whole⟩ | ⟨⟨other, member, large⟩, failed⟩
        · refine .inl ⟨List.forall_mem_cons.mpr ⟨fits, all⟩, later, found, ?_⟩
          rwa [List.append_assoc] at whole
        · exact .inr ⟨⟨other, .tail _ member, large⟩, failed⟩
      · rw [narrow_overflow bounds fits]
        exact .inr ⟨⟨row, List.mem_cons_self .., fits⟩, rfl⟩

end Bounds

section Lint

/-- A strict comparison with a literal at the end of its range has no neighbouring value, and a
range whose ends are far apart has no width. -/
structure StaysInRange (texts : List Line) : Prop where
  neighbours : ∀ row ∈ readings texts, row.strictBy = 1 →
    row.literal ≠ if row.isLow then 2 ^ 63 - 1 else -2 ^ 63
  width : lows (readings texts) ≠ [] → highs (readings texts) ≠ [] →
    ∃ low ∈ lows (readings texts), ∃ high ∈ highs (readings texts), high - low < 2 ^ 63 - 1

theorem fits_of_parseI64 {text : Line} {literal : Int} (parsed : parseI64 text = some literal) :
    Fits literal := by
  obtain ⟨fits, same⟩ := Option.ite_none_right_eq_some.mp parsed
  rw [← Option.some.inj same]
  exact fits.2.2

theorem fits_literalBefore {before : Line} {literal : Int}
    (read : literalBefore before = some literal) : Fits literal := by
  rw [literalBefore] at read
  split_ifs at read
  exact fits_of_parseI64 read

variable {texts : List Line}

theorem reading_literal {row : Reading} (member : row ∈ readings texts) :
    Fits row.literal ∧ (row.strictBy = 0 ∨ row.strictBy = 1) := by
  obtain ⟨before, after, _, read⟩ := mem_readings.mp member
  obtain ⟨comparison, listed, here⟩ := List.mem_flatMap.mp read
  have step : comparison.strictBy = 0 ∨ comparison.strictBy = 1 := by
    simp only [comparisons, List.mem_cons, List.not_mem_nil, or_false] at listed
    obtain rfl | rfl | rfl | rfl := listed
    · exact .inl rfl
    · exact .inr rfl
    · exact .inl rfl
    · exact .inr rfl
  rcases List.mem_append.mp here with left | right
  · obtain ⟨literal, found, rfl⟩ := Option.map_eq_some_iff.mp (Option.mem_toList.mp left)
    refine ⟨?_, step⟩
    rw [leftLiteral] at found
    split_ifs at found
    exact fits_literalBefore found
  · obtain ⟨literal, found, rfl⟩ := Option.map_eq_some_iff.mp (Option.mem_toList.mp right)
    refine ⟨?_, step⟩
    rw [rightLiteral] at found
    split_ifs at found
    exact fits_of_parseI64 found

theorem fits_value_iff {row : Reading} (member : row ∈ readings texts) :
    Fits row.value ↔
      (row.strictBy = 1 → row.literal ≠ if row.isLow then 2 ^ 63 - 1 else -2 ^ 63) := by
  obtain ⟨⟨above, below⟩, none | one⟩ := reading_literal member
  · rw [Reading.value, none, Fits]
    split_ifs <;> omega
  · rw [Reading.value, one, Fits]
    split_ifs <;> omega

/-- The widths of the range are checked one after the other. -/
theorem width_eq {low high : Int} (ordered : low ≤ high) :
    width low high =
      if high - low < 2 ^ 63 - 1 then .ok (high - low + 1) else .error .overflow := by
  rw [width]
  by_cases first : Fits (high - low)
  · rw [checked_of_fits first]
    simp only [bind, Except.bind]
    unfold Fits at first
    split_ifs with second
    · exact checked_of_fits ⟨by omega, by omega⟩
    · exact checked_of_not_fits fun fits => by unfold Fits at fits; omega
  · rw [checked_of_not_fits first]
    unfold Fits at first
    rw [if_neg (by omega)]
    rfl

theorem resultRange_overflow {row : Reading} (member : row ∈ readings texts)
    (large : ¬Fits row.value) : resultRange texts = .error .overflow := by
  rcases narrow_run (readings texts) (show Tightest [] {} from ⟨rfl, rfl⟩) with
    ⟨all, _⟩ | ⟨_, failed⟩
  · exact absurd (all row member) large
  · rw [resultRange, scanRange_eq, failed]
    rfl

theorem resultRange_eq (fits : ∀ row ∈ readings texts, Fits row.value) :
    ∃ bounds, Tightest (readings texts) bounds ∧ resultRange texts = .ok (
      match bounds.low, bounds.high with
      | some low, some high => if low ≤ high then some (low, high) else none
      | _, _ => none) := by
  rcases narrow_run (readings texts) (show Tightest [] {} from ⟨rfl, rfl⟩) with
    ⟨_, bounds, found, tightest⟩ | ⟨⟨row, member, large⟩, _⟩
  · refine ⟨bounds, tightest, ?_⟩
    rw [resultRange, scanRange_eq, found]
    simp only [bind, Except.bind]
    cases bounds.low <;> cases bounds.high <;> rfl
  · exact absurd (fits row member) large

theorem acslNormalize_ok (text : Line) : ∃ normalized, acslNormalize text = .ok normalized := by
  rw [acslNormalize, Utf8.find]
  cases found : Utf8.splitOnce [':'] text with
  | none => exact ⟨_, rfl⟩
  | some parts =>
      obtain ⟨label, body⟩ := parts
      have whole := (Utf8.splitOnce_some found).1
      have lead : Utf8.takeTo text (Utf8.size label) = some label := by
        rw [whole, List.append_assoc, Utf8.takeTo_append]
      have behind : Utf8.dropTo text (Utf8.size label + 1) = some body := by
        have size : Utf8.size label + 1 = Utf8.size (label ++ [':']) := by
          rw [Utf8.size_append]
          rfl
        rw [size, whole, Utf8.dropTo_append]
      simp only [Option.map_some, lead, behind, sliced_some, bind, Except.bind]
      split_ifs <;> exact ⟨_, rfl⟩

theorem ensuresTexts_ok (context : Json) : ∃ texts, ensuresTexts context = .ok texts := by
  have normalized (texts : List String) :
      ∃ lines, (texts.mapM fun text => acslNormalize text.toList) = .ok lines := by
    induction texts with
    | nil => exact ⟨[], rfl⟩
    | cons text texts ih =>
        obtain ⟨line, read⟩ := acslNormalize_ok text.toList
        obtain ⟨lines, others⟩ := ih
        exact ⟨line :: lines, by rw [List.mapM_cons, read, others]; rfl⟩
  rw [ensuresTexts]
  split
  · exact ⟨[], rfl⟩
  · split_ifs
    · exact ⟨[], rfl⟩
    · exact normalized _

theorem length_enumerate (low high : Int) :
    (enumerate low high).length = (high - low + 1).toNat := by
  rw [enumerate, List.length_map, List.length_range]

/-- The lint overflows or enumerates at most eight values. -/
theorem resultUnconstrainedLint_cases (function : String) {context : Json}
    (read : ensuresTexts context = .ok texts) :
    (StaysInRange texts ∧ ∃ lint, resultUnconstrainedLint function context = .ok lint ∧
        lint.enumerated.length ≤ 8) ∨
      (¬StaysInRange texts ∧ resultUnconstrainedLint function context = .error .overflow) := by
  rw [resultUnconstrainedLint, read]
  simp only [bind, Except.bind]
  by_cases empty : texts.isEmpty = true
  · obtain rfl := List.isEmpty_iff.mp empty
    exact .inl ⟨⟨nofun, fun filled => absurd rfl filled⟩, _, rfl, Nat.zero_le _⟩
  rw [if_neg empty]
  by_cases all : ∀ row ∈ readings texts, Fits row.value
  · have neighbours := fun row member => (fits_value_iff member).mp (all row member)
    obtain ⟨⟨low, high⟩, ⟨lowest, highest⟩, found⟩ := resultRange_eq all
    rw [found]
    cases low with
    | none => exact .inl ⟨⟨neighbours, fun filled => absurd lowest filled⟩, _, rfl, Nat.zero_le _⟩
    | some low =>
        cases high with
        | none =>
            exact .inl ⟨⟨neighbours, fun _ filled => absurd highest filled⟩, _, rfl, Nat.zero_le _⟩
        | some high =>
            obtain ⟨lowRead, lowTight⟩ := lowest
            obtain ⟨highRead, highTight⟩ := highest
            by_cases ordered : low ≤ high
            · dsimp only
              rw [if_pos ordered]
              dsimp only
              rw [width_eq ordered]
              by_cases small : high - low < 2 ^ 63 - 1
              · have narrow : StaysInRange texts :=
                  ⟨neighbours, fun _ _ => ⟨low, lowRead, high, highRead, small⟩⟩
                rw [if_pos small]
                dsimp only
                split_ifs with wide
                · exact .inl ⟨narrow, _, rfl, Nat.zero_le _⟩
                · have eight : (enumerate low high).length ≤ 8 := by
                    rw [length_enumerate]
                    rw [maxEnumerable] at wide
                    omega
                  rw [resultValuesDetermined_eq]
                  dsimp only
                  split_ifs
                  · exact .inl ⟨narrow, _, rfl, eight⟩
                  · exact .inl ⟨narrow, _, rfl, eight⟩
              · rw [if_neg small]
                refine .inr ⟨fun stays => ?_, rfl⟩
                obtain ⟨other, otherLow, another, otherHigh, near⟩ :=
                  stays.width (List.ne_nil_of_mem lowRead) (List.ne_nil_of_mem highRead)
                have below := lowTight other otherLow
                have above := highTight another otherHigh
                omega
            · have narrow : StaysInRange texts :=
                ⟨neighbours, fun _ _ => ⟨low, lowRead, high, highRead, by omega⟩⟩
              dsimp only
              rw [if_neg ordered]
              exact .inl ⟨narrow, _, rfl, Nat.zero_le _⟩
  · obtain ⟨row, member, large⟩ := not_forall₂.mp all
    rw [resultRange_overflow member large]
    refine .inr ⟨fun stays => large ((fits_value_iff member).mpr (stays.neighbours row member)), rfl⟩

/-- The lint ends without an overflow exactly where its literals stay in range. -/
theorem resultUnconstrainedLint_ok_iff (function : String) (context : Json) :
    (∃ lint, resultUnconstrainedLint function context = .ok lint ∧
        (lint.enumerated.length : Int) ≤ maxEnumerable) ↔
      ∃ texts, ensuresTexts context = .ok texts ∧ StaysInRange texts := by
  obtain ⟨texts, read⟩ := ensuresTexts_ok context
  constructor
  · rintro ⟨lint, found, _⟩
    rcases resultUnconstrainedLint_cases function read with ⟨stays, _⟩ | ⟨_, failed⟩
    · exact ⟨texts, read, stays⟩
    · rw [failed] at found
      cases found
  · rintro ⟨others, same, stays⟩
    obtain rfl := Except.ok.inj (read.symm.trans same)
    rcases resultUnconstrainedLint_cases function read with ⟨_, lint, found, few⟩ | ⟨leaves, _⟩
    · exact ⟨lint, found, by rw [maxEnumerable]; omega⟩
    · exact absurd stays leaves

/-- This contract bounds its result strictly by the largest number of 64 bits. -/
def strictContext : Json :=
  .obj [("function", .obj [("contract", .obj [("empty", .bool false),
    ("ensures", .arr [.obj [("kind", .str "ensures"), ("behavior", .str "default!"),
      ("predicate", .obj [("text", .str "\\result > 9223372036854775807")])]])])])]

/-- The strict bound lies one above the largest number. -/
theorem not_resultUnconstrainedLint_ok :
    ¬∀ (function : String) (context : Json), ∃ lint,
      resultUnconstrainedLint function context = .ok lint ∧
        (lint.enumerated.length : Int) ≤ maxEnumerable := by
  intro total
  obtain ⟨lint, found, _⟩ := total "f" strictContext
  have failed : (resultUnconstrainedLint "f" strictContext).toBool = false := by decide +kernel
  rw [found] at failed
  cases failed

end Lint

end FramaCMcp.ResultRange
