/-
This file shows when a runtime check that says nothing was reported has missed a report.
-/

import FramaCMcp.Construction.RuntimeCheck

namespace FramaCMcp.RuntimeCheck

/-- These are the bytes of `Error:`. -/
def errorMark : List UInt8 := [69, 114, 114, 111, 114, 58]

/-- These are the bytes of `Aborted`. -/
def abortMark : List UInt8 := [65, 98, 111, 114, 116, 101, 100]

/-- A complete stream reports something. -/
def Reports (bytes : List UInt8) : Prop := errorMark <:+: bytes ∨ abortMark <:+: bytes

/-- A report ends before the stream is cut. -/
def ReportsEarly (bytes : List UInt8) : Prop :=
  ∃ before mark after, mark ∈ [errorMark, abortMark] ∧ bytes = before ++ mark ++ after ∧
    before.length + mark.length ≤ 256 * 1024

theorem contains_iff (text : Line) (needle : String) :
    contains text needle = true ↔ needle.toList <:+: text := by
  rw [contains, Line.find]
  constructor
  · intro found
    obtain ⟨start, place⟩ := Option.isSome_iff_exists.mp found
    have parts : Utf8.splitOnce needle.toList text =
        some (text.take start, text.drop (start + needle.toList.length)) := by
      rw [Utf8.splitOnce, place, Option.map_some]
    exact ⟨_, _, (Utf8.splitOnce_some parts).1.symm⟩
  · rintro ⟨before, after, whole⟩
    by_contra missing
    have none : Utf8.splitOnce needle.toList text = none := by
      rw [Utf8.splitOnce, Option.not_isSome_iff_eq_none.mp missing, Option.map_none]
    exact Utf8.splitOnce_none none before after whole.symm

theorem contains_error (bytes : List UInt8) :
    contains (Utf8.lossy bytes) "Error:" = true ↔ errorMark <:+: bytes := by
  rw [contains_iff, ← Utf8.asciiText_isInfix_lossy (.of_all (by decide)) (by decide)]
  rfl

theorem contains_abort (bytes : List UInt8) :
    contains (Utf8.lossy bytes) "Aborted" = true ↔ abortMark <:+: bytes := by
  rw [contains_iff, ← Utf8.asciiText_isInfix_lossy (.of_all (by decide)) (by decide)]
  rfl

/-- The kept text is clean where the kept bytes report nothing. -/
theorem cleanByOutput_iff (stdout stderr : List UInt8) :
    cleanByOutput (Utf8.lossy stdout) (Utf8.lossy stderr) = true ↔
      ¬Reports stdout ∧ ¬Reports stderr := by
  simp [cleanByOutput, Reports, ← contains_error, ← contains_abort]

theorem reportsEarly_iff (bytes : List UInt8) :
    ReportsEarly bytes ↔ Reports (bytes.take maxEAcslOutputBytes) := by
  have early (mark : List UInt8) : mark <:+: bytes.take maxEAcslOutputBytes ↔
      ∃ before after, bytes = before ++ mark ++ after ∧
        before.length + mark.length ≤ 256 * 1024 := by
    constructor
    · rintro ⟨before, after, whole⟩
      refine ⟨before, after ++ bytes.drop maxEAcslOutputBytes, ?_, ?_⟩
      · rw [← List.append_assoc, whole, List.take_append_drop]
      · have length := congrArg List.length whole
        rw [List.length_append, List.length_append, List.length_take] at length
        have cap : maxEAcslOutputBytes = 256 * 1024 := rfl
        omega
    · rintro ⟨before, after, rfl, short⟩
      refine ⟨before, after.take (maxEAcslOutputBytes - (before ++ mark).length), ?_⟩
      rw [List.take_append, List.take_of_length_le (l := before ++ mark)]
      rw [List.length_append]
      exact short
  constructor
  · rintro ⟨before, mark, after, member, whole, short⟩
    have inside := (early mark).mpr ⟨before, after, whole, short⟩
    obtain rfl | member := List.mem_cons.mp member
    · exact .inl inside
    · obtain rfl := List.mem_singleton.mp member
      exact .inr inside
  · rintro (inside | inside)
    · obtain ⟨before, after, whole, short⟩ := (early errorMark).mp inside
      exact ⟨before, errorMark, after, by decide, whole, short⟩
    · obtain ⟨before, after, whole, short⟩ := (early abortMark).mp inside
      exact ⟨before, abortMark, after, by decide, whole, short⟩

section Verdict

variable [DigitTables] (process : Process) (instrumentedExec : String) (programArgs : List String)
  (timeoutSeconds : Nat)

/-- Only a process that ended by itself gets a verdict, and it is that of the kept bytes. -/
theorem runStep_clean :
    (runStep process instrumentedExec programArgs timeoutSeconds).get "status" =
        some (.str "clean") ↔
      (∃ code success, process.ending = .exited code success) ∧
        ¬ReportsEarly process.stdout ∧ ¬ReportsEarly process.stderr := by
  rw [reportsEarly_iff, reportsEarly_iff, ← cleanByOutput_iff, runStep, capture]
  cases process.ending with
  | exited code success =>
      simp only [cappedLossyString, Json.get_obj, Ending.exited.injEq]
      split_ifs with clean <;> simp [clean]
  | failed error => simp
  | timedOut => simp

/-- A clean verdict is right where each report that was printed has one that was kept. -/
theorem runStep_clean_sound_iff :
    ((runStep process instrumentedExec programArgs timeoutSeconds).get "status" =
        some (.str "clean") → ¬Reports process.stdout ∧ ¬Reports process.stderr) ↔
      ((∃ code success, process.ending = .exited code success) →
        Reports process.stdout ∨ Reports process.stderr →
          ReportsEarly process.stdout ∨ ReportsEarly process.stderr) := by
  rw [runStep_clean]
  generalize (∃ code success, process.ending = .exited code success) = ended
  tauto

end Verdict

/-- The report of this process stands behind the part that is kept. -/
def lateReport : Process where
  stdout := List.replicate (256 * 1024) 32 ++ errorMark
  stderr := []
  ending := .exited none false

theorem lateReport_clean :
    (@runStep DigitTables.ascii lateReport "run.e-acsl" [] 60).get "status" =
        some (.str "clean") ∧ Reports lateReport.stdout := by
  have quiet (bytes : List UInt8) (plain : ∀ byte ∈ bytes, byte = 32) : ¬Reports bytes := by
    have spaces (mark : List UInt8) (first : mark.head? ≠ some 32) (filled : mark ≠ []) :
        ¬mark <:+: bytes := by
      intro inside
      obtain ⟨byte, rest, rfl⟩ := List.exists_cons_of_ne_nil filled
      have space := plain byte (inside.subset (List.mem_cons_self ..))
      exact first (congrArg some space)
    rintro (inside | inside)
    · exact spaces errorMark (by decide) (by decide) inside
    · exact spaces abortMark (by decide) (by decide) inside
  refine ⟨?_, .inl ⟨List.replicate (256 * 1024) 32, [], List.append_nil _⟩⟩
  apply (@runStep_clean DigitTables.ascii _ _ _ _).mpr
  refine ⟨⟨none, false, rfl⟩, ?_, ?_⟩
  · rw [reportsEarly_iff]
    apply quiet
    intro byte member
    rw [lateReport, maxEAcslOutputBytes, List.take_append_of_le_length
      (List.length_replicate ..).ge, List.take_replicate] at member
    exact List.eq_of_mem_replicate member
  · rw [reportsEarly_iff]
    exact quiet _ (by intro byte member; rw [lateReport, List.take_nil] at member; cases member)

/-- A clean run can have printed a report. -/
theorem not_clean_sound :
    ¬∀ (process : Process) (instrumentedExec : String) (programArgs : List String)
      (timeoutSeconds : Nat),
      (@runStep DigitTables.ascii process instrumentedExec programArgs timeoutSeconds).get
          "status" = some (.str "clean") →
        ¬Reports process.stdout ∧ ¬Reports process.stderr := by
  intro sound
  obtain ⟨clean, reported⟩ := lateReport_clean
  exact (sound _ _ _ _ clean).1 reported

end FramaCMcp.RuntimeCheck
