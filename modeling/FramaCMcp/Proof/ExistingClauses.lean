/-
This file shows when a planned clause is passed over although it is not there.
-/

import FramaCMcp.Foundation.Accumulation
import FramaCMcp.Proof.AstLabels
import FramaCMcp.Proof.InsertedLabels

namespace FramaCMcp.Annotations

/-- A global annotation stands in no function, and a function clause at no statement. -/
structure ClauseSite where
  function : Option String
  stmt : Option Int
  deriving DecidableEq

/-- A fetched row has the text of its annotation. Its place is not read. -/
structure PlacedAnnotation where
  place : ClauseSite
  row : Json

def PlacedAnnotation.acsl (annotated : PlacedAnnotation) : Option String := text annotated.row "acsl"

def fetched (existing : List PlacedAnnotation) : Except String Json :=
  .ok (.arr (existing.map PlacedAnnotation.row))

def InjectionPlanEntry.place (function : String) (entry : InjectionPlanEntry) : ClauseSite :=
  if entry.kind = "global" then ⟨none, none⟩ else ⟨some function, entry.stmtId⟩

section Same

variable [AstDigest.RegexTables]

/-- A generated label stands at a word boundary, with its colon. -/
def generatedLabel (previous : Option Char) (letters : List Char) : Nat :=
  if previous.all fun letter => !UnicodeTables.wordChar letter then
    ((AstDigest.labelGap letters).map (AstDigest.matchLength letters)).getD 0
  else 0

def withoutFinalSemicolon (letters : List Char) : List Char :=
  match letters.reverse.dropWhile Text.isWhitespace with
  | ';' :: rest => rest.reverse
  | _ => letters

/-- These are the words of a clause without its labels and its final semicolon. -/
def clauseWords (acsl : String) : List String :=
  Text.splitWhitespace (String.ofList
    (withoutFinalSemicolon (Replacement.erase generatedLabel acsl.toList)))

/-- The annotation is the planned clause, at its place. -/
structure SameClause (function : String) (entry : InjectionPlanEntry)
    (annotated : PlacedAnnotation) : Prop where
  place : annotated.place = entry.place function
  words : annotated.acsl.map clauseWords = some (clauseWords entry.acslText)

end Same

section Run

theorem generateHashLabel_ne_existing (kind : String) (drawn : RandomHex) :
    generateHashLabel kind drawn ≠ "existing" := by
  intro same
  have long := congrArg (fun label => label.toList.length) same
  have front : (labelPrefixOf kind).toList.length = 2 := by
    unfold labelPrefixOf
    split <;> rfl
  simp only [generateHashLabel, String.toList_append, String.toList_ofList, List.length_append,
    front, drawn.eight] at long
  exact absurd long (by decide)

theorem report_injective {entry other : InjectionPlanEntry} {hashLabel : String}
    (same : entry.report hashLabel = other.report hashLabel) : entry = other := by
  cases entry
  cases other
  simp only [InjectionPlanEntry.report, InjectedAnnotationEntry.mk.injEq] at same
  simp [same]

variable [CaseTables] {environment : Environment} {targetFunction : String} {existing : List String}

/-- A report of this kind says that the clause was passed over. -/
theorem report_mem_receive {run : InjectionRun} {entry : InjectionPlanEntry} {usedHash : String}
    {reply : Except String Json} (fresh : usedHash ≠ "existing") (other : InjectionPlanEntry) :
    other.report "existing" ∈ (run.receive entry usedHash reply).successful ↔
      other.report "existing" ∈ run.successful := by
  have apart : other.report "existing" ≠ entry.report usedHash := fun same =>
    fresh (congrArg InjectedAnnotationEntry.hashLabel same).symm
  cases reply with
  | error message => rfl
  | ok reply =>
      unfold InjectionRun.receive
      simp only
      split_ifs
      · simp [InjectionRun.succeed, apart]
      · rfl

/-- One entry is passed over exactly where its compared text exists. -/
theorem report_mem_injectEntry (run : InjectionRun) (planned : InjectionPlanEntry × Nat)
    (other : InjectionPlanEntry) :
    other.report "existing" ∈
        (injectEntry environment targetFunction existing run planned).successful ↔
      other.report "existing" ∈ run.successful ∨
        (planned.1 = other ∧ normalizeForComparison other.acslText ∈ existing) := by
  obtain ⟨entry, index⟩ := planned
  rw [injectEntry]
  split_ifs with known global
  · rw [List.contains_iff_mem] at known
    simp only [InjectionRun.succeed, List.mem_append, List.mem_singleton]
    refine or_congr_right ⟨fun same => ?_, fun both => both.1 ▸ rfl⟩
    obtain rfl := report_injective same
    exact ⟨rfl, known⟩
  · rw [report_mem_receive (by decide), InjectionRun.request, or_iff_left]
    rintro ⟨rfl, member⟩
    exact known (List.contains_iff_mem.mpr member)
  · have absent : ¬ (entry = other ∧ normalizeForComparison other.acslText ∈ existing) := by
      rintro ⟨rfl, member⟩
      exact known (List.contains_iff_mem.mpr member)
    rw [or_iff_left absent]
    simp only
    split
    · rfl
    · rw [report_mem_receive (generateHashLabel_ne_existing _ _), InjectionRun.request]

theorem report_mem_executeInjectionPlan (plan : List InjectionPlanEntry)
    (earlyFailures : List TypedFailure) (entry : InjectionPlanEntry) :
    entry.report "existing" ∈
        (executeInjectionPlan environment targetFunction plan existing earlyFailures).successful ↔
      entry ∈ plan ∧ normalizeForComparison entry.acslText ∈ existing := by
  rw [executeInjectionPlan, Accumulation.holds_foldl_zipIdx
    (fun run => entry.report "existing" ∈ run.successful) _
    (fun planned => planned = entry ∧ normalizeForComparison entry.acslText ∈ existing)
    fun run planned => report_mem_injectEntry run planned entry]
  simp

end Run

section Reports

theorem mem_existingAnnotationTexts {existing : List PlacedAnnotation} {compared : String} :
    compared ∈ existingAnnotationTexts (fetched existing) ↔
      ∃ annotated ∈ existing, annotated.acsl.map normalizeForComparison = some compared := by
  simp only [existingAnnotationTexts, fetched, Json.asArray, Option.getD_some, List.mem_map,
    List.mem_filterMap, PlacedAnnotation.acsl, Option.map_eq_some_iff]
  constructor
  · rintro ⟨acsl, ⟨row, ⟨annotated, member, rfl⟩, read⟩, same⟩
    exact ⟨annotated, member, acsl, read, same⟩
  · rintro ⟨annotated, member, acsl, read, same⟩
    exact ⟨acsl, ⟨_, ⟨annotated, member, rfl⟩, read⟩, same⟩

variable [CaseTables] [AstDigest.RegexTables]

/-- A clause that is not there yet differs from every annotation before its first semicolon. -/
def DiffersFromAll (function : String) (existing : List PlacedAnnotation)
    (entry : InjectionPlanEntry) : Prop :=
  (∀ annotated ∈ existing, ¬ SameClause function entry annotated) →
    ∀ annotated ∈ existing,
      annotated.acsl.map normalizeForComparison ≠ some (normalizeForComparison entry.acslText)

/-- A run reports only clauses as existing that are there exactly where each new clause differs
from every annotation before its first semicolon. -/
theorem reportsOnlyExisting_iff (environment : Environment) (targetFunction function : String)
    (plan : List InjectionPlanEntry) (existing : List PlacedAnnotation)
    (earlyFailures : List TypedFailure) :
    (∀ entry ∈ plan, entry.report "existing" ∈ (executeInjectionPlan environment targetFunction plan
        (existingAnnotationTexts (fetched existing)) earlyFailures).successful →
      ∃ annotated ∈ existing, SameClause function entry annotated) ↔
    ∀ entry ∈ plan, DiffersFromAll function existing entry := by
  refine forall₂_congr fun entry planned => ?_
  rw [report_mem_executeInjectionPlan, and_iff_right planned, mem_existingAnnotationTexts,
    DiffersFromAll]
  constructor
  · intro present absent annotated member same
    obtain ⟨other, there, whole⟩ := present ⟨annotated, member, same⟩
    exact absent other there whole
  · rintro differs ⟨annotated, member, same⟩
    by_contra absent
    refine differs (fun other there whole => absent ⟨other, there, whole⟩) annotated member same

end Reports

/-- One behavior has two postconditions. -/
def positiveEnsures (predicate : String) : InjectionPlanEntry where
  acslText := "behavior b: assumes n > 0; ensures " ++ predicate ++ ";"
  kind := "spec"
  derivedFrom := "proposed_ensures[0]"
  purpose := ""
  userLabel := some "beh_b"

/-- The other postcondition is there. -/
def annotatedEnsures : PlacedAnnotation where
  place := ⟨some "f", none⟩
  row := .obj [("acsl", .str "behavior b: assumes n > 0; ensures r == 2;")]

/-- The second postcondition of a behavior is passed over. -/
theorem not_reportsOnlyExisting : ¬ ∀ [CaseTables] [AstDigest.RegexTables]
    (environment : Environment) (function : String) (plan : List InjectionPlanEntry)
    (existing : List PlacedAnnotation), ∀ entry ∈ plan,
      entry.report "existing" ∈ (executeInjectionPlan environment function plan
        (existingAnnotationTexts (fetched existing)) []).successful →
      ∃ annotated ∈ existing, SameClause function entry annotated := by
  intro always
  have skipped := (@report_mem_executeInjectionPlan .ascii
    ⟨fun _ => .ok "f", fun _ => ⟨List.replicate 8 '0', rfl, rfl⟩, fun _ => .ok .null⟩ "f"
    (existingAnnotationTexts (fetched [annotatedEnsures])) [positiveEnsures "r == 1"] []
    (positiveEnsures "r == 1")).mpr ⟨List.mem_singleton_self _, by decide +kernel⟩
  obtain ⟨annotated, member, -, words⟩ := @always .ascii .ascii _ "f" [positiveEnsures "r == 1"]
    [annotatedEnsures] _ (List.mem_singleton_self _) skipped
  obtain rfl := List.mem_singleton.mp member
  exact absurd words (by decide +kernel)

end FramaCMcp.Annotations
