/-
This file shows that a check of several variants compares all of them before it says proved.
-/

import Mathlib.Data.String.Basic
import FramaCMcp.Foundation.JsonUnique
import FramaCMcp.Construction.Variants

namespace FramaCMcp.Variants

section Labels

theorem numbered_injective (label : String) : Function.Injective (numbered label) := by
  intro first second same
  have letters := congrArg String.toList same
  simp only [numbered, String.toList_append] at letters
  exact Json.nat_repr_inj (String.toList_inj.mp (List.append_cancel_left letters))

theorem freeLabel_fresh {taken : List String} {label found : String} {steps start : Nat}
    (finds : freeLabel taken label steps start = some found) : found ∉ taken := by
  induction steps generalizing start with
  | zero => cases finds
  | succ steps ih =>
      rw [freeLabel] at finds
      split_ifs at finds with occupied
      · exact ih finds
      · cases finds
        exact occupied

/-- A search that ends nowhere has seen only taken labels. -/
theorem taken_of_freeLabel {taken : List String} {label : String} {steps start : Nat}
    (ends : freeLabel taken label steps start = none) :
    ∀ offset < steps, numbered label (start + offset) ∈ taken := by
  induction steps generalizing start with
  | zero => exact fun _ less => absurd less (Nat.not_lt_zero _)
  | succ steps ih =>
      rw [freeLabel] at ends
      split_ifs at ends with occupied
      · intro offset less
        cases offset with
        | zero => exact occupied
        | succ offset =>
            have later := ih ends offset (Nat.lt_of_succ_lt_succ less)
            rwa [Nat.add_assoc, Nat.add_comm 1 offset] at later

/-- The labels that are tried are different, so one of them is free. -/
theorem claimLabel_isSome (taken : List String) (label : String) (start : Nat) :
    (claimLabel taken label start).isSome = true := by
  rw [claimLabel]
  split_ifs with known
  · by_contra ends
    have occupied := taken_of_freeLabel (Option.not_isSome_iff_eq_none.mp ends)
    have candidates : ((List.range (taken.length + 1)).map fun offset =>
        numbered label (start + offset)).Nodup :=
      List.nodup_range.map fun first second same =>
        Nat.add_left_cancel (numbered_injective label same)
    have inside : ((List.range (taken.length + 1)).map fun offset =>
        numbered label (start + offset)) ⊆ taken := by
      intro candidate member
      obtain ⟨offset, small, rfl⟩ := List.mem_map.mp member
      exact occupied offset (List.mem_range.mp small)
    have fits := (List.subperm_of_subset candidates inside).length_le
    rw [List.length_map, List.length_range] at fits
    omega
  · rfl

theorem claimLabel_fresh {taken : List String} {label claimed : String} {start : Nat}
    (claims : claimLabel taken label start = some claimed) : claimed ∉ taken := by
  rw [claimLabel] at claims
  split_ifs at claims with known
  · exact freeLabel_fresh claims
  · cases claims
    exact known

end Labels

def labelOf (entry : Json) : Option String := (entry.get "label").bind Json.asStr

structure States (entry : Json) (inputs : AstInputs) : Prop where
  defines : entry.get "defines" = some (.arr (inputs.1.map .str))
  machdep : entry.get "machdep" = some (.ofText? inputs.2)

def Unmarked (results : List Json) : Prop := ∀ entry ∈ results, entry.get "duplicate_ast" = none

/-- While no entry is marked, each program has one group, and its entries state the inputs of it. -/
structure Grouped (state : VariantRun) : Prop where
  filled : ∀ key groups, state.digests.lookup key = some groups → groups ≠ []
  single : Unmarked state.results → ∀ key groups, state.digests.lookup key = some groups →
    ∃ group, groups = [group]
  stated : Unmarked state.results → ∀ entry ∈ state.results, ∀ key,
    variantProgramKey entry = some key →
      ∃ group, state.digests.lookup key = some [group] ∧ States entry group.2

structure Labelled (state : VariantRun) : Prop where
  distinct : state.labels.Nodup
  shown : state.results.map labelOf = state.labels.reverse.map some

section Step

theorem lookup_addInputs_self (digests : DigestGroups) (key label : String) (inputs : AstInputs) :
    (addInputs digests key label inputs).lookup key =
      some (if ((digests.lookup key).getD []).any fun group => group.2 == inputs then
        (digests.lookup key).getD [] else (digests.lookup key).getD [] ++ [(label, inputs)]) := by
  rw [addInputs]
  split_ifs <;> exact AList.lookup_insert _

/-- The inputs of the last variant are among the inputs of its program. -/
theorem ne_nil_of_added (groups : List (String × AstInputs)) (label : String) (inputs : AstInputs) :
    (if groups.any fun group => group.2 == inputs then groups else groups ++ [(label, inputs)]) ≠
      [] := by
  split_ifs with seen
  · rintro rfl
    cases seen
  · simp

theorem lookup_addInputs_ne {digests : DigestGroups} {key name : String} (other : name ≠ key)
    (label : String) (inputs : AstInputs) :
    (addInputs digests key label inputs).lookup name = digests.lookup name := by
  rw [addInputs]
  split_ifs <;> exact AList.lookup_insert_ne other

theorem duplicateOf_none {digests : DigestGroups} {key : String} {inputs : AstInputs}
    {group : String × AstInputs} (known : digests.lookup key = some [group])
    (none : duplicateOf digests key inputs = none) : group.2 = inputs := by
  rw [duplicateOf, known, Option.bind_some] at none
  by_contra other
  simp [other] at none

theorem labelOf_insert_duplicate (entry first : Json) :
    labelOf (entry.insert "duplicate_ast" first) = labelOf entry := by
  rw [labelOf, labelOf, Json.get_insert_of_ne _ _ _ _ (by decide)]

variable {base : CheckParams} {state next : VariantRun} {index : Nat} {variant : CheckVariant}
  {payload : Json}

theorem checkVariant_isSome (base : CheckParams) (state : VariantRun) (index : Nat)
    (variant : CheckVariant) (payload : Json) :
    (checkVariant base state index variant payload).isSome = true := by
  rw [checkVariant, Option.isSome_map]
  exact claimLabel_isSome _ _ _

/-- A step adds one entry under a free label. -/
theorem checkVariant_cases (checked : checkVariant base state index variant payload = some next) :
    ∃ label entry inputs first, label ∉ state.labels ∧ States entry inputs ∧
      (∃ fields, entry = .obj fields) ∧ labelOf entry = some label ∧
      first = ((variantProgramKey entry).bind fun key => duplicateOf state.digests key inputs) ∧
      next = { results := state.results ++
                 [first.elim entry fun first => entry.insert "duplicate_ast" (.str first)]
               digests := (variantProgramKey entry).elim state.digests fun key =>
                 addInputs state.digests key label inputs
               labels := label :: state.labels } := by
  obtain ⟨label, claims, rfl⟩ := Option.map_eq_some_iff.mp checked
  exact ⟨label, _, (_, _), _, claimLabel_fresh claims, ⟨rfl, rfl⟩, ⟨_, rfl⟩, rfl, rfl, rfl⟩

theorem Labelled.step (labelled : Labelled state)
    (checked : checkVariant base state index variant payload = some next) : Labelled next := by
  obtain ⟨label, entry, inputs, first, free, -, -, named, -, rfl⟩ := checkVariant_cases checked
  refine ⟨List.nodup_cons.mpr ⟨free, labelled.distinct⟩, ?_⟩
  have shown : labelOf (first.elim entry fun first => entry.insert "duplicate_ast" (.str first)) =
      some label := by
    cases first with
    | none => exact named
    | some first => exact (labelOf_insert_duplicate entry _).trans named
  rw [List.map_append, List.map_singleton, shown, labelled.shown, List.reverse_cons, List.map_append]
  rfl

theorem Grouped.step (grouped : Grouped state)
    (checked : checkVariant base state index variant payload = some next) : Grouped next := by
  obtain ⟨label, entry, inputs, first, -, states, ⟨fields, rfl⟩, -, found, rfl⟩ :=
    checkVariant_cases checked
  set entry := Json.obj fields with shape
  have before (unmarked : Unmarked (state.results ++
      [first.elim entry fun first => entry.insert "duplicate_ast" (.str first)])) :
      Unmarked state.results := fun other member => unmarked other (List.mem_append_left _ member)
  cases program : variantProgramKey entry with
  | none =>
      rw [program, Option.bind_none] at found
      subst found
      refine ⟨grouped.filled, fun unmarked => grouped.single (before unmarked),
        fun unmarked other member key named => ?_⟩
      rcases List.mem_append.mp member with earlier | last
      · exact grouped.stated (before unmarked) other earlier key named
      · cases List.mem_singleton.mp last
        rw [Option.elim_none, program] at named
        cases named
  | some key =>
      rw [program, Option.bind_some] at found
      simp only [Option.elim_some]
      -- An unmarked entry has the inputs of its group or opens a new group.
      have alone (unmarked : Unmarked (state.results ++
          [first.elim entry fun first => entry.insert "duplicate_ast" (.str first)])) :
          first = none ∧ ∃ group, (addInputs state.digests key label inputs).lookup key =
            some [group] ∧ group.2 = inputs := by
        have none : first = none := by
          cases first with
          | none => rfl
          | some first =>
              have marked := unmarked _ (List.mem_append_right _ (List.mem_singleton_self _))
              rw [Option.elim_some, shape, Json.get_insert_self] at marked
              cases marked
        refine ⟨none, ?_⟩
        rw [lookup_addInputs_self]
        cases known : state.digests.lookup key with
        | none => exact ⟨(label, inputs), by simp, rfl⟩
        | some groups =>
            obtain ⟨group, rfl⟩ := grouped.single (before unmarked) key groups known
            have same := duplicateOf_none known (found.symm.trans none)
            exact ⟨group, by simp [same], same⟩
      refine ⟨fun name groups held => ?_, fun unmarked name groups held => ?_,
        fun unmarked other member name named => ?_⟩
      · by_cases here : name = key
        · subst here
          rw [lookup_addInputs_self] at held
          cases held
          exact ne_nil_of_added _ _ _
        · rw [lookup_addInputs_ne here] at held
          exact grouped.filled name groups held
      · obtain ⟨-, group, known, -⟩ := alone unmarked
        by_cases here : name = key
        · subst here
          exact ⟨group, Option.some.inj (held.symm.trans known)⟩
        · rw [lookup_addInputs_ne here] at held
          exact grouped.single (before unmarked) name groups held
      · obtain ⟨none, group, known, same⟩ := alone unmarked
        subst none
        rcases List.mem_append.mp member with earlier | last
        · obtain ⟨old, held, stated⟩ := grouped.stated (before unmarked) other earlier name named
          by_cases here : name = key
          · subst here
            have kept := duplicateOf_none held found.symm
            rw [lookup_addInputs_self, held] at known
            simp only [Option.getD_some, List.any_cons, kept, beq_self_eq_true, Bool.true_or,
              if_true] at known
            exact ⟨old, by rw [lookup_addInputs_self, held]; simp [kept], stated⟩
          · exact ⟨old, (lookup_addInputs_ne here _ _).trans held, stated⟩
        · cases List.mem_singleton.mp last
          cases program.symm.trans named
          exact ⟨group, known, same ▸ states⟩

end Step

section Run

variable {base : CheckParams}

theorem checkFrom_isSome (base : CheckParams) (state : VariantRun) (index : Nat)
    (variants : List (CheckVariant × Json)) :
    (checkFrom base state index variants).isSome = true := by
  induction variants generalizing state index with
  | nil => rfl
  | cons entry rest ih =>
      obtain ⟨variant, payload⟩ := entry
      obtain ⟨next, checked⟩ := Option.isSome_iff_exists.mp
        (checkVariant_isSome base state index variant payload)
      rw [checkFrom, checked, Option.bind_some]
      exact ih next (index + 1)

/-- What each variant keeps holds after all of them. -/
theorem checkFrom_induction {Kept : VariantRun → Prop}
    (step : ∀ state next index variant payload, Kept state →
      checkVariant base state index variant payload = some next → Kept next)
    {state final : VariantRun} {index : Nat} {variants : List (CheckVariant × Json)}
    (start : Kept state) (checked : checkFrom base state index variants = some final) :
    Kept final := by
  induction variants generalizing state index with
  | nil =>
      cases checked
      exact start
  | cons entry rest ih =>
      obtain ⟨variant, payload⟩ := entry
      obtain ⟨next, one, others⟩ := Option.bind_eq_some_iff.mp checked
      exact ih (step _ _ _ _ _ start one) others

theorem length_labels {state final : VariantRun} {index : Nat}
    {variants : List (CheckVariant × Json)}
    (checked : checkFrom base state index variants = some final) :
    final.labels.length = state.labels.length + variants.length := by
  induction variants generalizing state index with
  | nil =>
      cases checked
      rfl
  | cons entry rest ih =>
      obtain ⟨variant, payload⟩ := entry
      obtain ⟨next, one, others⟩ := Option.bind_eq_some_iff.mp checked
      have counted := ih others
      obtain ⟨_, _, _, _, _, _, _, _, _, rfl⟩ := checkVariant_cases one
      rw [counted, List.length_cons, List.length_cons]
      omega

theorem Labelled.empty : Labelled {} := ⟨List.nodup_nil, rfl⟩

theorem Grouped.empty : Grouped {} :=
  ⟨fun _ _ held => (by cases held), fun _ _ _ held => (by cases held),
    fun _ _ member => absurd member List.not_mem_nil⟩

end Run

section Verdict

/-- The word proved asks for every proof and leaves no pair uncompared. -/
theorem isProved_summary {results : List Json}
    (proved : isProved (checkVariantsSummary results) = true) :
    Unmarked results ∧ ∀ entry ∈ results, isProved entry = true ∧ (astDigest entry).isSome := by
  have condition : results.countP (fun entry => (entry.get "duplicate_ast").isSome) = 0 ∧
      results.countP (fun entry => (astDigest entry).isNone) = 0 ∧
      results.all isProved = true := by
    by_contra other
    have word : isProved (checkVariantsSummary results) = (some "incomplete" == some "proved") := by
      change (some (if _ then "proved" else "incomplete") == some "proved") = _
      rw [if_neg other]
    rw [word] at proved
    exact absurd proved (by decide)
  obtain ⟨duplicates, unestablished, all⟩ := condition
  refine ⟨fun entry member => ?_, fun entry member => ⟨List.all_eq_true.mp all entry member, ?_⟩⟩
  · exact Option.not_isSome_iff_eq_none.mp (List.countP_eq_zero.mp duplicates entry member)
  · have known := List.countP_eq_zero.mp unestablished entry member
    rwa [Option.isNone_iff_eq_none, ← ne_eq, Option.ne_none_iff_isSome] at known

/-- The labels are different, and the check says proved only where each variant is proved and
compared: two variants of one program have the same inputs. -/
theorem checkVariants_sound (base : CheckParams) (variants : List (CheckVariant × Json)) :
    ∃ results summary, ∃ labels : List String,
      checkVariants base variants = some (results, summary) ∧
      labels.Nodup ∧ results.map labelOf = labels.map some ∧ results.length = variants.length ∧
      (isProved summary = true →
        (∀ entry ∈ results, isProved entry = true ∧ (astDigest entry).isSome) ∧
        ∀ left ∈ results, ∀ right ∈ results, variantProgramKey left = variantProgramKey right →
          left.get "defines" = right.get "defines" ∧ left.get "machdep" = right.get "machdep") := by
  obtain ⟨final, checked⟩ := Option.isSome_iff_exists.mp (checkFrom_isSome base {} 0 variants)
  have labelled : Labelled final := checkFrom_induction (fun _ _ _ _ _ => Labelled.step)
    Labelled.empty checked
  have grouped : Grouped final := checkFrom_induction (fun _ _ _ _ _ => Grouped.step)
    Grouped.empty checked
  refine ⟨final.results, checkVariantsSummary final.results, final.labels.reverse,
    by rw [checkVariants, checked, Option.map_some], List.nodup_reverse.mpr labelled.distinct,
    labelled.shown, ?_, fun proved => ?_⟩
  · have counted := congrArg List.length labelled.shown
    rw [List.length_map, List.length_map, List.length_reverse, length_labels checked] at counted
    simpa using counted
  · obtain ⟨unmarked, each⟩ := isProved_summary proved
    refine ⟨each, fun left inLeft right inRight same => ?_⟩
    obtain ⟨digest, established⟩ := Option.isSome_iff_exists.mp (each left inLeft).2
    have named : variantProgramKey left = some _ := congrArg (Option.map _) established
    obtain ⟨group, held, statedLeft⟩ := grouped.stated unmarked left inLeft _ named
    obtain ⟨other, heldOther, statedRight⟩ :=
      grouped.stated unmarked right inRight _ (same.symm.trans named)
    cases held.symm.trans heldOther
    exact ⟨statedLeft.defines.trans statedRight.defines.symm,
      statedLeft.machdep.trans statedRight.machdep.symm⟩

end Verdict

end FramaCMcp.Variants
