/-
This file shows which planned clauses are sent under the kind that the planner recorded.
-/

import FramaCMcp.Construction.Injection
import FramaCMcp.Foundation.Accumulation

namespace FramaCMcp.Annotations

/-- A text of this kind is in plain lower case and has nothing to take off at its ends. -/
structure PlainLead (lead : String) : Prop where
  lower : lead.toList.all Text.isPlainLower = true
  filled : lead.toList ≠ []
  started : ∀ letter ∈ lead.toList.head?, Text.isWhitespace letter = false
  stopped : ∀ letter ∈ lead.toList.getLast?, Text.isWhitespace letter = false
  closed : ∀ letter ∈ lead.toList.getLast?, [';'].contains letter = false

def isPlainLead (lead : String) : Bool :=
  lead.toList.all Text.isPlainLower && !lead.toList.isEmpty &&
    lead.toList.head?.all (fun letter => !Text.isWhitespace letter) &&
    lead.toList.getLast?.all (fun letter => !Text.isWhitespace letter && !(letter == ';'))

theorem plainLead_of_test {lead : String} (plain : isPlainLead lead = true) : PlainLead lead := by
  simp only [isPlainLead, Bool.and_eq_true, List.isEmpty_eq_false_iff, Option.all_eq_true,
    Bool.not_eq_eq_eq_not, Bool.not_true] at plain
  obtain ⟨⟨⟨lower, filled⟩, started⟩, ends⟩ := plain
  exact ⟨lower, filled, started, fun letter last => (ends letter last).1,
    fun letter last => by simpa using (ends letter last).2⟩

theorem toList_trim_append {lead : String} (plain : PlainLead lead) (rest : String) :
    (trim (lead ++ rest)).toList = lead.toList ++ Line.trimEnd rest.toList := by
  rw [trim, String.toList_ofList, String.toList_append,
    Line.trim_append plain.filled plain.started plain.stopped]

/-- The one semicolon at the end leaves the text in front. -/
theorem normalizeAcsl_append {lead : String} (plain : PlainLead lead) (rest : String) :
    ∃ tail, normalizeAcsl (lead ++ rest) = lead ++ tail := by
  have outer := toList_trim_append plain rest
  have inner : trimEndMatches [';'] (trim (lead ++ rest)) = lead ++ String.ofList
      ((Line.trimEnd rest.toList).reverse.dropWhile [';'].contains).reverse := by
    rw [trimEndMatches, outer, Line.reverse_dropWhile_append plain.closed, String.ofList_append,
      String.ofList_toList]
  obtain ⟨tail, same⟩ : ∃ tail, (trim (trimEndMatches [';'] (trim (lead ++ rest)))).toList =
      lead.toList ++ tail := by
    rw [inner, toList_trim_append plain]
    exact ⟨_, rfl⟩
  refine ⟨String.ofList tail ++ ";", ?_⟩
  rw [normalizeAcsl, ← String.append_assoc]
  refine congrArg (· ++ ";") (String.toList_inj.mp ?_)
  rw [same, String.toList_append, String.toList_ofList]

/-- A keyword of a function clause opens no clause at a statement. -/
structure IsSpecKeyword (keyword : String) : Prop extends PlainLead keyword where
  apart : (statementKeywords.any fun other =>
    Text.startsWith keyword other || Text.startsWith other keyword) = false

/-- A function clause starts with its keyword or with the word of its behavior. -/
theorem lead_of_wrapFunspecClause {keyword body path acslText : String} {behavior : Option String}
    {behaviors : Behaviors} (spec : IsSpecKeyword keyword)
    (wrapped : wrapFunspecClause keyword body behavior behaviors path = .ok acslText) :
    ∃ lead rest, acslText = lead ++ rest ∧ IsSpecKeyword lead := by
  cases behavior with
  | none =>
      cases wrapped
      exact ⟨keyword, " " ++ clauseBody keyword body ++ ";", by simp only [String.append_assoc], spec⟩
  | some name =>
      cases declared : behaviors.lookup name with
      | none =>
          rw [wrapFunspecClause, declared] at wrapped
          cases wrapped
      | some assumes =>
          rw [wrapFunspecClause, declared] at wrapped
          cases wrapped
          exact ⟨"behavior", " " ++ name ++ ":" ++ String.join (assumes.map assumesClause) ++ " " ++
            keyword ++ " " ++ clauseBody keyword body ++ ";", by simp only [String.append_assoc]; rfl,
            plainLead_of_test (by decide), by decide⟩

section Kinds

variable [CaseTables] {lead : String}

/-- The text in front stays in front. -/
theorem toList_toLowercase_trim (plain : PlainLead lead) (rest : String) :
    ∃ tail, (Text.toLowercase (trim (lead ++ rest))).toList = lead.toList ++ tail := by
  rw [Text.toLowercase, String.toList_ofList, toList_trim_append plain,
    Text.lowerFrom_append plain.lower]
  exact ⟨_, rfl⟩

theorem acslKindToAstKind_annot (plain : PlainLead lead)
    (led : (statementKeywords.any fun keyword => Text.startsWith lead keyword) = true)
    (rest : String) : acslKindToAstKind (lead ++ rest) = "annot" := by
  obtain ⟨tail, lowered⟩ := toList_toLowercase_trim plain rest
  obtain ⟨keyword, listed, begins⟩ := List.any_eq_true.mp led
  rw [acslKindToAstKind, if_pos]
  refine List.any_eq_true.mpr ⟨keyword, listed, ?_⟩
  rw [Text.startsWith, lowered, List.isPrefixOf_iff_prefix]
  exact (List.isPrefixOf_iff_prefix.mp begins).trans (List.prefix_append _ _)

theorem acslKindToAstKind_spec (spec : IsSpecKeyword lead) (rest : String) :
    acslKindToAstKind (lead ++ rest) = "spec" := by
  obtain ⟨tail, lowered⟩ := toList_toLowercase_trim spec.toPlainLead rest
  rw [acslKindToAstKind, if_neg]
  intro led
  obtain ⟨keyword, listed, begins⟩ := List.any_eq_true.mp led
  rw [Text.startsWith, lowered, List.isPrefixOf_iff_prefix] at begins
  have either := List.any_eq_false.mp spec.apart keyword listed
  simp only [Text.startsWith, Bool.or_eq_true, List.isPrefixOf_iff_prefix] at either
  exact either (List.prefix_or_prefix_of_prefix begins (List.prefix_append _ _))

end Kinds

/-- The clause goes out under its own kind, and one at a statement with the id of its statement. -/
structure SentAsPlanned [CaseTables] (entry : InjectionPlanEntry) : Prop where
  kind : acslKindToAstKind entry.acslText = entry.kind
  statement : entry.kind = "annot" → ∀ function hashLabel,
    annotationRequest function (addParams function entry) hashLabel =
      .addAnnot function "annot" entry.acslText (fullLabel hashLabel entry.userLabel)
        entry.stmtId

def loopClauses (loop : Json) : List Json :=
  fieldArray loop "invariants" ++
    (fieldArray loop "assigns" ++ (loop.get "variant").toList).filter
      fun clause => !isBlank (textOr clause "acsl" "")

/-- The clause names a behavior that the call declares. -/
def Scoped (behaviors : Behaviors) (clause : Json) : Prop :=
  ∃ name, text clause "behavior" = some name ∧ (behaviors.lookup name).isSome = true

section Plans

variable [CaseTables] (plan : Plan) (behaviors : Behaviors)

/-- A planned clause goes out under another kind. -/
def Misrouted (plan : Plan) : Prop :=
  ∃ entry ∈ plan.entries, entry.kind ≠ "global" ∧ acslKindToAstKind entry.acslText ≠ entry.kind

theorem misrouted_push (entry : InjectionPlanEntry) :
    Misrouted (plan.push entry) ↔ Misrouted plan ∨
      entry.kind ≠ "global" ∧ acslKindToAstKind entry.acslText ≠ entry.kind := by
  simp only [Misrouted, Plan.push, List.mem_append, List.mem_singleton, or_and_right, exists_or,
    exists_eq_left]

theorem misrouted_fail (failure : InjectionFailure) :
    Misrouted (plan.fail failure) ↔ Misrouted plan := Iff.rfl

theorem misrouted_planWrapped (path acsl : String) (wrapped : Except String String)
    (entry : String → InjectionPlanEntry) :
    Misrouted (planWrapped plan path acsl wrapped entry) ↔ Misrouted plan ∨
      ∃ acslText, wrapped = .ok acslText ∧ (entry acslText).kind ≠ "global" ∧
        acslKindToAstKind (entry acslText).acslText ≠ (entry acslText).kind := by
  cases wrapped with
  | error message => simp [planWrapped, misrouted_fail]
  | ok acslText => simp [planWrapped, misrouted_push]

variable {plan behaviors}

theorem misrouted_funspec {keyword body path acsl : String} {behavior : Option String}
    {entry : String → InjectionPlanEntry} (spec : IsSpecKeyword keyword)
    (kind : ∀ acslText, (entry acslText).kind = "spec")
    (kept : ∀ lead rest, PlainLead lead → ∃ tail, (entry (lead ++ rest)).acslText = lead ++ tail) :
    Misrouted (planWrapped plan path acsl
      (wrapFunspecClause keyword body behavior behaviors path) entry) ↔ Misrouted plan := by
  rw [misrouted_planWrapped, or_iff_left]
  rintro ⟨acslText, wrapped, -, other⟩
  obtain ⟨lead, rest, rfl, leads⟩ := lead_of_wrapFunspecClause spec wrapped
  obtain ⟨tail, same⟩ := kept lead rest leads.toPlainLead
  rw [same, acslKindToAstKind_spec leads, kind] at other
  exact other rfl

theorem misrouted_planRequires (requires : Option (List Json)) :
    Misrouted (planRequires plan requires behaviors) ↔ Misrouted plan :=
  Accumulation.holds_foldl_same _ _
    (fun _ _ => misrouted_funspec ⟨plainLead_of_test (by decide), by decide⟩ (fun _ => rfl)
      fun _ _ _ => ⟨_, rfl⟩) _ _

theorem misrouted_planEnsures (ensures : Option (List Json)) :
    Misrouted (planEnsures plan ensures behaviors) ↔ Misrouted plan :=
  Accumulation.holds_foldl_same _ _
    (fun _ _ => misrouted_funspec ⟨plainLead_of_test (by decide), by decide⟩ (fun _ => rfl)
      fun _ _ _ => ⟨_, rfl⟩) _ _

theorem misrouted_planAssigns (assigns : Option (List Json)) :
    Misrouted (planAssigns plan assigns behaviors) ↔ Misrouted plan := by
  refine Accumulation.holds_foldl_same _ _ (fun plan value => ?_) _ _
  rw [planAssign]
  split_ifs
  · rfl
  · exact misrouted_funspec ⟨plainLead_of_test (by decide), by decide⟩ (fun _ => rfl)
      fun _ rest plain => normalizeAcsl_append plain rest

theorem misrouted_pushSingleFunspecClause {keyword : String} (spec : IsSpecKeyword keyword)
    (path purpose : String) (value : Option Json) :
    Misrouted (pushSingleFunspecClause plan keyword path purpose value behaviors) ↔
      Misrouted plan := by
  cases value with
  | none => rfl
  | some given =>
      rw [pushSingleFunspecClause]
      split_ifs
      · rfl
      · exact misrouted_funspec spec (fun _ => rfl) fun _ _ _ => ⟨_, rfl⟩

theorem misrouted_groups {keyword : String} (spec : IsSpecKeyword keyword) (path : String)
    (groups : Option (List Json)) :
    Misrouted (pushBehaviorGroupClauses plan keyword path groups behaviors) ↔ Misrouted plan := by
  refine Accumulation.holds_foldl_same _ _ (fun plan group => ?_) _ _
  rw [pushBehaviorGroup]
  split
  · exact misrouted_fail _ _
  · rw [misrouted_push, or_iff_left]
    rintro ⟨-, other⟩
    refine other ?_
    change acslKindToAstKind (behaviorGroupText keyword _) = "spec"
    rw [behaviorGroupText]
    split_ifs
    · exact acslKindToAstKind_spec spec _
    · rw [String.append_assoc, String.append_assoc]
      exact acslKindToAstKind_spec spec _

theorem misrouted_planGlobals (globals : Option (List Json)) :
    Misrouted (planGlobals plan globals) ↔ Misrouted plan := by
  refine Accumulation.holds_foldl_same _ _ (fun plan value => ?_) _ _
  rw [planGlobal]
  split_ifs
  · rfl
  · rw [misrouted_push, or_iff_left]
    exact fun misrouted => misrouted.1 rfl

/-- An assertion starts with its keyword. -/
theorem misrouted_planAsserts (asserts : Option (List Json)) :
    Misrouted (planAsserts plan asserts) ↔ Misrouted plan := by
  have plain : PlainLead "assert" := plainLead_of_test (by decide)
  refine Accumulation.holds_foldl_same _ _ (fun plan value => ?_) _ _
  rw [planAssert]
  split_ifs
  · rfl
  · split
    · exact misrouted_fail _ _
    · rw [misrouted_push, or_iff_left]
      rintro ⟨-, other⟩
      refine other ?_
      obtain ⟨tail, same⟩ := normalizeAcsl_append plain
        (" " ++ trim (stripLeadingKeyword (textOr value.1 "acsl" "") "assert"))
      change acslKindToAstKind (wrapAssertClause _) = "annot"
      rw [wrapAssertClause]
      change acslKindToAstKind (normalizeAcsl ("assert" ++ (" " ++ _))) = "annot"
      rw [same]
      exact acslKindToAstKind_annot plain (by decide) tail

theorem misrouted_clause (loop : Loop) {keyword : String} (part purpose label : String)
    (value : Json) (plain : PlainLead keyword)
    (led : (statementKeywords.any fun other => Text.startsWith keyword other) = true) :
    Misrouted (loop.clause behaviors keyword part purpose label value plan) ↔
      Misrouted plan ∨ Scoped behaviors value := by
  have behind : IsSpecKeyword "for" := ⟨plainLead_of_test (by decide), by decide⟩
  rw [Loop.clause, misrouted_planWrapped]
  refine or_congr_right ?_
  constructor
  · rintro ⟨acslText, wrapped, -, other⟩
    cases named : text value "behavior" with
    | none =>
        rw [named] at wrapped
        cases wrapped
        refine absurd ?_ other
        rw [String.append_assoc, String.append_assoc]
        exact acslKindToAstKind_annot plain led _
    | some name =>
        rw [named, wrapLoopClause] at wrapped
        refine ⟨name, named, ?_⟩
        split_ifs at wrapped with missing
        exact Option.isSome_iff_ne_none.mpr fun absent => missing (Option.isNone_iff_eq_none.mpr absent)
  · rintro ⟨name, named, declared⟩
    have present : ¬ (behaviors.lookup name).isNone = true := by
      simp [Option.isSome_iff_ne_none.mp declared]
    rw [named, wrapLoopClause, if_neg present]
    refine ⟨_, rfl, (by decide : "annot" ≠ "global"), ?_⟩
    simp only [String.append_assoc]
    change acslKindToAstKind ("for" ++ (" " ++ _)) ≠ "annot"
    rw [acslKindToAstKind_spec behind]
    decide

theorem misrouted_invariants (loop : Loop) (values : List Json) :
    Misrouted (values.zipIdx.foldl (loop.invariant behaviors) plan) ↔
      Misrouted plan ∨ ∃ value ∈ values, Scoped behaviors value :=
  Accumulation.holds_foldl_zipIdx _ _ _
    (fun _ _ => misrouted_clause loop _ _ _ _ (plainLead_of_test (by decide)) (by decide)) _ _

theorem misrouted_assigns (loop : Loop) (values : List Json) :
    Misrouted (values.zipIdx.foldl (loop.assigns behaviors) plan) ↔ Misrouted plan ∨
      ∃ value ∈ values, isBlank (textOr value "acsl" "") = false ∧ Scoped behaviors value := by
  refine Accumulation.holds_foldl_zipIdx _ _ _ (fun plan value => ?_) _ _
  rw [Loop.assigns]
  split_ifs with blank
  · simp [blank]
  · rw [misrouted_clause loop _ _ _ _ (plainLead_of_test (by decide)) (by decide)]
    simp [blank]

theorem misrouted_variant (loop : Loop) (value : Option Json) :
    Misrouted (loop.variant behaviors plan value) ↔ Misrouted plan ∨
      ∃ given ∈ value.toList, isBlank (textOr given "acsl" "") = false ∧
        Scoped behaviors given := by
  cases value with
  | none => simp [Loop.variant]
  | some given =>
      rw [Loop.variant]
      split_ifs with blank
      · simp [blank]
      · rw [misrouted_clause loop _ _ _ _ (plainLead_of_test (by decide)) (by decide)]
        simp [blank]

theorem misrouted_loop (value : Json × Nat) :
    Misrouted (loopAnnotsToAcsl behaviors plan value) ↔ Misrouted plan ∨
      ∃ clause ∈ loopClauses value.1, Scoped behaviors clause := by
  rw [loopAnnotsToAcsl, misrouted_variant, misrouted_assigns, misrouted_invariants]
  simp only [loopClauses, List.mem_append, List.mem_filter, Bool.not_eq_true', or_and_right,
    exists_or, or_assoc, and_assoc]

end Plans

/-- A clause of the call goes out under another kind exactly where a loop clause names a behavior. -/
theorem misrouted_buildInjectionPlan [CaseTables] (params : InjectAllAnnotationsParams) :
    Misrouted (buildInjectionPlan params) ↔
      ∃ loop ∈ params.proposedLoopAnnots.getD [], ∃ clause ∈ loopClauses loop,
        Scoped (behaviorAssumesTable params.proposedBehaviors) clause := by
  have terminates : IsSpecKeyword "terminates" := ⟨plainLead_of_test (by decide), by decide⟩
  have decreases : IsSpecKeyword "decreases" := ⟨plainLead_of_test (by decide), by decide⟩
  have exits : IsSpecKeyword "exits" := ⟨plainLead_of_test (by decide), by decide⟩
  have complete : IsSpecKeyword "complete" := ⟨plainLead_of_test (by decide), by decide⟩
  have disjoint : IsSpecKeyword "disjoint" := ⟨plainLead_of_test (by decide), by decide⟩
  have empty : ¬ Misrouted {} := by
    rintro ⟨entry, member, -⟩
    cases member
  rw [buildInjectionPlan, Accumulation.holds_foldl_zipIdx Misrouted _
      (fun loop => ∃ clause ∈ loopClauses loop, Scoped _ clause) fun _ _ => misrouted_loop _,
    misrouted_planAsserts, misrouted_groups disjoint, misrouted_groups complete,
    misrouted_planAssigns, misrouted_planEnsures, misrouted_pushSingleFunspecClause exits,
    misrouted_pushSingleFunspecClause decreases, misrouted_pushSingleFunspecClause terminates,
    misrouted_planRequires, misrouted_planGlobals, or_iff_right empty]

/-- Every clause is sent as it was planned exactly where no clause of a loop names a behavior that
the call declares. -/
theorem sentAsPlanned_iff [CaseTables] (params : InjectAllAnnotationsParams) :
    (∀ entry ∈ (buildInjectionPlan params).entries, entry.kind ≠ "global" → SentAsPlanned entry) ↔
      ∀ loop ∈ params.proposedLoopAnnots.getD [], ∀ clause ∈ loopClauses loop,
        ¬ Scoped (behaviorAssumesTable params.proposedBehaviors) clause := by
  have misrouted := not_congr (misrouted_buildInjectionPlan params)
  simp only [Misrouted, not_exists, not_and, not_not] at misrouted
  rw [← misrouted]
  refine forall₂_congr fun entry _ => imp_congr_right fun _ => ?_
  refine ⟨SentAsPlanned.kind, fun same => ⟨same, fun annot function hashLabel => ?_⟩⟩
  rw [annotationRequest, addParams, same, annot]

/-- These are the clauses of a loop with an invariant under a behavior. -/
def scopedInvariant : InjectAllAnnotationsParams where
  proposedBehaviors := some [.obj [("name", .str "b"), ("assumes", .arr [.str "n > 0"])]]
  proposedLoopAnnots := some [.obj [("stmt_id", .num 3),
    ("invariants", .arr [.obj [("acsl", .str "i <= n"), ("behavior", .str "b")]])]]

/-- An invariant under a behavior goes out as a function clause. -/
theorem not_sentAsPlanned : ¬ ∀ [CaseTables] (params : InjectAllAnnotationsParams),
    ∀ entry ∈ (buildInjectionPlan params).entries, entry.kind ≠ "global" → SentAsPlanned entry := by
  intro always
  have planned : (buildInjectionPlan scopedInvariant).entries.map
      (fun entry => (entry.acslText, entry.kind)) = [("for b: loop invariant i <= n;", "annot")] := by
    decide
  obtain ⟨entry, member, same⟩ := List.mem_map.mp (planned ▸ List.mem_singleton_self _)
  obtain ⟨written, kind⟩ := Prod.mk.inj same
  obtain ⟨sent, -⟩ := @always .ascii scopedInvariant entry member (by rw [kind]; decide)
  rw [written, kind] at sent
  exact absurd sent (by decide)

end FramaCMcp.Annotations
