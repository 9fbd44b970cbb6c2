/-
This file proves which contracts and annotations can be told from their text in a dump.
-/

import FramaCMcp.Construction.AnnotationExport
import Mathlib.Data.List.Forall2

namespace FramaCMcp.Export

section Tags

def tagged (tag : String) (clauses : List Json) : List Json :=
  clauses.filter fun clause => (clause.index "tag").isText tag

theorem tagged_append (tag : String) (first second : List Json) :
    tagged tag (first ++ second) = tagged tag first ++ tagged tag second :=
  List.filter_append ..

theorem isText_mkKind (tag other : String) (fields : List (String × Json)) :
    ((mkKind other fields).index "tag").isText tag = (other == tag) := by
  simp [mkKind, Json.index, Json.isText]

/-- Clauses of one family have one tag. -/
theorem tagged_map {Entry : Type} (tag other : String) (fields : Entry → List (String × Json))
    (entries : List Entry) :
    tagged tag (entries.map fun entry => mkKind other (fields entry)) =
      if other = tag then entries.map fun entry => mkKind other (fields entry) else [] := by
  split
  · rename_i same
    apply List.filter_eq_self.mpr
    intro clause member
    obtain ⟨entry, -, rfl⟩ := List.mem_map.mp member
    rw [isText_mkKind, same, beq_self_eq_true]
  · rename_i differ
    apply List.filter_eq_nil_iff.mpr
    intro clause member
    obtain ⟨entry, -, rfl⟩ := List.mem_map.mp member
    rw [isText_mkKind, beq_eq_false_iff_ne.mpr differ]
    exact Bool.false_ne_true

theorem mkKind_inj {tag other : String} {fields others : List (String × Json)} :
    mkKind tag fields = mkKind other others ↔ tag = other ∧ fields = others := by
  simp [mkKind]

end Tags

section Sets

/-- A set of locations can be read back. -/
theorem acslTermsToTset_injective : Function.Injective acslTermsToTset := by
  intro first second same
  match first, second with
  | [], [] => rfl
  | [], [_] | [], _ :: _ :: _ | [_], [] | [_], _ :: _ :: _ | _ :: _ :: _, []
  | _ :: _ :: _, [_] => simp [acslTermsToTset, mkKind_inj] at same
  | [_], [_] => simpa [acslTermsToTset, mkKind_inj] using same
  | a :: b :: rest, c :: d :: others =>
      have termInjective : Function.Injective fun t : Json => mkKind "TSterm" [("t", t)] := by
        intro left right equal
        simpa [mkKind_inj] using equal
      rw [acslTermsToTset, acslTermsToTset, mkKind_inj] at same
      · have sets : (a :: b :: rest).map (fun t => mkKind "TSterm" [("t", t)]) =
            (c :: d :: others).map fun t => mkKind "TSterm" [("t", t)] := by
          simpa using same.2
        exact termInjective.list_map sets
      all_goals simp

/-- Each location says what it is computed from. -/
def Sourced (froms : List From) : Prop := ∀ entry ∈ froms, ∃ it its, entry.2 = .from (it :: its)

theorem writesFields_locs {froms others : List From}
    (same : writesFields froms = writesFields others) :
    froms.map Prod.fst = others.map Prod.fst ∧
      acslFromsExtractFrom froms = acslFromsExtractFrom others := by
  simp only [writesFields, List.singleton_append, List.cons.injEq, Prod.mk.injEq, true_and] at same
  refine ⟨acslTermsToTset_injective same.1, ?_⟩
  have tail := same.2
  cases left : acslFromsExtractFrom froms <;> cases right : acslFromsExtractFrom others <;>
    simp_all

theorem length_acslFromsExtractFrom (froms : List From) :
    (acslFromsExtractFrom froms).length ≤ froms.length := List.length_filterMap_le _ _

theorem sourced_cons {entry : From} {rest : List From} (sourced : Sourced (entry :: rest)) :
    (∃ it its, entry = (entry.1, .from (it :: its))) ∧ Sourced rest := by
  obtain ⟨⟨it, its, source⟩, others⟩ := List.forall_mem_cons.mp sourced
  exact ⟨⟨it, its, by rw [← source]⟩, others⟩

theorem length_of_sourced {froms : List From} (sourced : Sourced froms) :
    (acslFromsExtractFrom froms).length = froms.length := by
  induction froms with
  | nil => rfl
  | cons entry rest ih =>
      obtain ⟨⟨it, its, shape⟩, others⟩ := sourced_cons sourced
      rw [shape]
      exact congrArg (· + 1) (ih others)

/-- With a source for each location, no place of a source is lost. -/
theorem eq_of_sourced {froms others : List From} (sourced : Sourced froms)
    (locs : froms.map Prod.fst = others.map Prod.fst)
    (deps : acslFromsExtractFrom froms = acslFromsExtractFrom others) : froms = others := by
  induction froms generalizing others with
  | nil => exact (List.map_eq_nil_iff.mp locs.symm).symm
  | cons entry rest ih =>
      obtain ⟨⟨it, its, shape⟩, behind⟩ := sourced_cons sourced
      match others with
      | [] => cases locs
      | (otherLocation, otherDep) :: others =>
          have lengths := (congrArg List.length deps).symm.trans (length_of_sourced sourced)
          have sizes := congrArg List.length locs
          have short := length_acslFromsExtractFrom others
          simp only [List.length_map, List.length_cons] at sizes lengths
          rw [shape] at deps ⊢
          rw [List.map_cons, List.map_cons, List.cons.injEq] at locs
          obtain ⟨same, locs⟩ := locs
          dsimp only at same
          -- one source too few is left where the other location has none
          match otherDep with
          | .fromAny | .from [] =>
              have silent : (acslFromsExtractFrom others).length = rest.length + 1 := lengths
              omega
          | .from (other :: more) =>
              have heads : acslTermsToTset (it :: its) :: acslFromsExtractFrom rest =
                  acslTermsToTset (other :: more) :: acslFromsExtractFrom others := deps
              rw [List.cons.injEq] at heads
              rw [ih behind locs heads.2, acslTermsToTset_injective heads.1, same]

end Sets

section Families

def acBehavior (bhv : Behavior) : List Json :=
  bhv.bRequires.map acRequires ++ bhv.bPostCond.map acEnsures ++ acAssigns bhv.bAssigns ++
    bhv.bAssumes.map acAssumes ++ acAllocation bhv.bAllocation

variable (tag : String)

theorem tagged_requires (entries : List ToplevelPredicate) :
    tagged tag (entries.map acRequires) =
      if "ACrequires" = tag then entries.map acRequires else [] :=
  tagged_map tag _ _ entries

theorem tagged_ensures (entries : List (TerminationKind × ToplevelPredicate)) :
    tagged tag (entries.map acEnsures) =
      if "ACensures" = tag then entries.map acEnsures else [] :=
  tagged_map tag _ _ entries

theorem tagged_assumes (entries : List Json) :
    tagged tag (entries.map acAssumes) =
      if "ACassumes" = tag then entries.map acAssumes else [] :=
  tagged_map tag _ _ entries

theorem tagged_assigns (assigns : Assigns) :
    tagged tag (acAssigns assigns) = if "ACassigns" = tag then acAssigns assigns else [] := by
  cases assigns with
  | writesAny => exact (ite_self _).symm
  | writes froms => exact tagged_map tag _ _ [froms]

theorem tagged_locsClause (other : String) (terms : List Json) :
    tagged tag (locsClause other terms) = if other = tag then locsClause other terms else [] := by
  rw [locsClause]
  split
  · exact (ite_self _).symm
  · exact tagged_map tag other (fun terms => [("locs", acslTermsToTset terms)]) [terms]

theorem tagged_decreases (variant : Option (Json × Option String)) :
    tagged tag (variant.map fun variant => mkKind "ACdecreases" (variantFields variant)).toList =
      if "ACdecreases" = tag then
        (variant.map fun variant => mkKind "ACdecreases" (variantFields variant)).toList
      else [] := by
  cases variant with
  | none => exact (ite_self _).symm
  | some variant => exact tagged_map tag _ _ [variant]

theorem tagged_terminates (terminates : Option Json) :
    tagged tag (terminates.map fun p => mkKind "ACterminates" [("p", p)]).toList =
      if "ACterminates" = tag then
        (terminates.map fun p => mkKind "ACterminates" [("p", p)]).toList
      else [] := by
  cases terminates with
  | none => exact (ite_self _).symm
  | some p => exact tagged_map tag _ (fun p : Json => [("p", p)]) [p]

/-- Each family of clauses can be read back from the text. -/
structure SameText (bhv other : Behavior) : Prop where
  requires : bhv.bRequires.map acRequires = other.bRequires.map acRequires
  ensures : bhv.bPostCond.map acEnsures = other.bPostCond.map acEnsures
  assigns : acAssigns bhv.bAssigns = acAssigns other.bAssigns
  assumes : bhv.bAssumes.map acAssumes = other.bAssumes.map acAssumes
  allocation : acAllocation bhv.bAllocation = acAllocation other.bAllocation

theorem tagged_acAllocation (allocation : Allocation) (differ : "ACfrees" ≠ tag)
    (apart : "ACallocates" ≠ tag) : tagged tag (acAllocation allocation) = [] := by
  cases allocation with
  | freeAllocAny => rfl
  | freeAlloc frees allocates =>
      rw [acAllocation, tagged_append, tagged_locsClause, tagged_locsClause, if_neg differ,
        if_neg apart, List.append_nil]

variable {bhv other : Behavior} {spec otherSpec : Funspec}

theorem tagged_whole (bhv : Behavior) (spec : Funspec) :
    tagged tag (acBehavior bhv ++ defaultExtra spec) =
      tagged tag (bhv.bRequires.map acRequires) ++ tagged tag (bhv.bPostCond.map acEnsures) ++
        tagged tag (acAssigns bhv.bAssigns) ++ tagged tag (bhv.bAssumes.map acAssumes) ++
        tagged tag (acAllocation bhv.bAllocation) ++
        (tagged tag (spec.specVariant.map fun variant =>
            mkKind "ACdecreases" (variantFields variant)).toList ++
          tagged tag (spec.specTerminates.map fun p =>
            mkKind "ACterminates" [("p", p)]).toList) := by
  simp only [acBehavior, defaultExtra, tagged_append]

theorem toList_injective {Value : Type} :
    Function.Injective (Option.toList : Option Value → List Value) := by
  intro first second same
  cases first <;> cases second <;> simp_all

theorem variantFields_injective : Function.Injective variantFields := by
  rintro ⟨t, rel⟩ ⟨other, otherRel⟩ same
  cases rel <;> cases otherRel <;> simp_all [variantFields]

/-- The text of a behavior gives its families, and what was put behind them. -/
theorem sameText_of_eq
    (same : acBehavior bhv ++ defaultExtra spec = acBehavior other ++ defaultExtra otherSpec) :
    SameText bhv other ∧ spec.specVariant = otherSpec.specVariant ∧
      spec.specTerminates = otherSpec.specTerminates := by
  have family (tag : String) := congrArg (tagged tag) same
  simp only [tagged_whole, tagged_requires, tagged_ensures, tagged_assigns, tagged_assumes,
    tagged_decreases, tagged_terminates] at family
  have requires := family "ACrequires"
  have ensures := family "ACensures"
  have assigns := family "ACassigns"
  have assumes := family "ACassumes"
  have decreases := family "ACdecreases"
  have terminates := family "ACterminates"
  simp [tagged_acAllocation] at requires ensures assigns assumes decreases terminates
  have extras : defaultExtra spec = defaultExtra otherSpec := by
    rw [defaultExtra, defaultExtra, decreases, terminates]
  have behaviors : acBehavior bhv = acBehavior other := by
    rw [extras] at same
    exact List.append_cancel_right same
  have allocation : acAllocation bhv.bAllocation = acAllocation other.bAllocation := by
    rw [acBehavior, acBehavior, requires, ensures, assigns, assumes] at behaviors
    exact List.append_cancel_left behaviors
  refine ⟨⟨requires, ensures, assigns, assumes, allocation⟩, ?_, ?_⟩
  · have decrease : Function.Injective fun variant : Json × Option String =>
        mkKind "ACdecreases" (variantFields variant) := fun first second equal =>
      variantFields_injective (mkKind_inj.mp equal).2
    exact Option.map_injective decrease (toList_injective decreases)
  · have terminate : Function.Injective fun p : Json => mkKind "ACterminates" [("p", p)] := by
      intro first second equal
      simpa [mkKind_inj] using equal
    exact Option.map_injective terminate (toList_injective terminates)

end Families

section Behaviors

variable {bhv other : Behavior}

theorem acAssumes_injective : Function.Injective acAssumes := by
  intro first second same
  simpa [acAssumes, mkKind_inj] using same

/-- Without a requires or an ensures clause in the text there is none in the behavior. -/
theorem SameText.quiet (same : SameText bhv other) (requires : bhv.bRequires = [])
    (ensures : bhv.bPostCond = []) : other.bRequires = [] ∧ other.bPostCond = [] := by
  have left := same.requires
  have right := same.ensures
  rw [requires] at left
  rw [ensures] at right
  exact ⟨List.map_eq_nil_iff.mp left.symm, List.map_eq_nil_iff.mp right.symm⟩

theorem SameText.bAssumes (same : SameText bhv other) : bhv.bAssumes = other.bAssumes :=
  acAssumes_injective.list_map same.assumes

/-- The locations of a clause are kept, and that it is there. -/
def Assigns.locations : Assigns → Option (List Json)
  | .writesAny => none
  | .writes froms => some (froms.map Prod.fst)

/-- The text tells an unspecified set of writes from a set. -/
theorem acAssigns_cases {first second : Assigns} (same : acAssigns first = acAssigns second) :
    first = second ∨ ∃ froms others, first = .writes froms ∧ second = .writes others ∧
      writesFields froms = writesFields others := by
  cases first with
  | writesAny =>
      cases second with
      | writesAny => exact .inl rfl
      | writes others => simp [acAssigns] at same
  | writes froms =>
      cases second with
      | writesAny => simp [acAssigns] at same
      | writes others =>
          rw [acAssigns, acAssigns, List.cons.injEq, mkKind_inj] at same
          exact .inr ⟨froms, others, rfl, rfl, same.1.2⟩

theorem SameText.locations (same : SameText bhv other) :
    bhv.bAssigns.locations = other.bAssigns.locations := by
  rcases acAssigns_cases same.assigns with equal | ⟨froms, others, left, right, fields⟩
  · rw [equal]
  · rw [left, right]
    exact congrArg some (writesFields_locs fields).1

theorem SameText.bAssigns (same : SameText bhv other)
    (sourced : ∀ froms, bhv.bAssigns = .writes froms → Sourced froms) :
    bhv.bAssigns = other.bAssigns := by
  rcases acAssigns_cases same.assigns with equal | ⟨froms, others, left, right, fields⟩
  · exact equal
  · obtain ⟨locs, deps⟩ := writesFields_locs fields
    rw [left, right, eq_of_sourced (sourced froms left) locs deps]

theorem locsClause_injective (tag : String) : Function.Injective (locsClause tag) := by
  intro first second same
  cases first <;> cases second
  · rfl
  · cases same
  · cases same
  · simp only [locsClause, List.isEmpty_cons, Bool.false_eq_true, if_false, List.cons.injEq,
      mkKind_inj, Prod.mk.injEq, true_and, and_true] at same
    exact acslTermsToTset_injective same

/-- The clauses of frees and of allocates can be told apart. -/
theorem acAllocation_freeAlloc {frees allocates otherFrees otherAllocates : List Json}
    (same : acAllocation (.freeAlloc frees allocates) =
      acAllocation (.freeAlloc otherFrees otherAllocates)) :
    frees = otherFrees ∧ allocates = otherAllocates := by
  have family (tag : String) := congrArg (tagged tag) same
  simp only [acAllocation, tagged_append, tagged_locsClause] at family
  have freed := family "ACfrees"
  have allocated := family "ACallocates"
  simp at freed allocated
  exact ⟨locsClause_injective _ freed, locsClause_injective _ allocated⟩

def Located (allocation : Allocation) : Prop :=
  ∃ frees allocates, allocation = .freeAlloc frees allocates ∧ (frees ≠ [] ∨ allocates ≠ [])

theorem SameText.bAllocation (same : SameText bhv other) (located : Located bhv.bAllocation) :
    bhv.bAllocation = other.bAllocation := by
  obtain ⟨frees, allocates, shape, some⟩ := located
  have text := same.allocation
  cases right : other.bAllocation with
  | freeAllocAny =>
      rw [shape, right] at text
      have nothing := @acAllocation_freeAlloc frees allocates [] [] text
      exact (some.elim (· nothing.1) (· nothing.2)).elim
  | freeAlloc otherFrees otherAllocates =>
      rw [shape, right] at text
      obtain ⟨rfl, rfl⟩ := acAllocation_freeAlloc text
      exact shape

/-- The text of the behavior says all of it. -/
structure Behavior.Plain (bhv : Behavior) : Prop where
  requires : bhv.bRequires = []
  ensures : bhv.bPostCond = []
  sourced : ∀ froms, bhv.bAssigns = .writes froms → Sourced froms
  located : Located bhv.bAllocation

theorem SameText.eq (same : SameText bhv other) (name : bhv.bName = other.bName)
    (plain : bhv.Plain) : bhv = other := by
  have requires := (same.quiet plain.requires plain.ensures).1
  have ensures := (same.quiet plain.requires plain.ensures).2
  have assumes := same.bAssumes
  have assigns := same.bAssigns plain.sourced
  have allocation := same.bAllocation plain.located
  have quiet := plain.requires
  have silent := plain.ensures
  cases bhv
  cases other
  simp_all

end Behaviors

section Contracts

variable {defaultBehaviorName : String}

/-- A behavior reaches the text through its name and its clauses. -/
def exported (defaultBehaviorName : String) (bhv : Behavior) : Json × List Json :=
  (behaviorName defaultBehaviorName bhv, acBehavior bhv)

def exportedToJson (entry : Json × List Json) : Json :=
  .obj [("name", entry.1), ("clauses", .arr entry.2)]

def attach (extra : List Json) : List (Json × List Json) → List (Json × List Json)
  | [] => []
  | (name, clauses) :: rest => (name, clauses ++ extra) :: rest

theorem exportedToJson_injective : Function.Injective exportedToJson := by
  rintro ⟨name, clauses⟩ ⟨other, others⟩ same
  simpa [exportedToJson] using same

theorem appendExtra_eq (extra : List Json) (behaviors : List Behavior) :
    appendExtra extra (behaviors.map (behaviorToJson defaultBehaviorName)) =
      (attach extra (behaviors.map (exported defaultBehaviorName))).map exportedToJson := by
  have rest (list : List Behavior) : list.map (behaviorToJson defaultBehaviorName) =
      (list.map (exported defaultBehaviorName)).map exportedToJson := by
    rw [List.map_map]
    rfl
  cases behaviors with
  | nil => rfl
  | cons first others =>
      rw [List.map_cons, behaviorToJson, appendExtra]
      split
      · rename_i none
        rw [List.isEmpty_iff.mp none, rest]
        simp [attach, exported, exportedToJson, acBehavior]
      · rw [rest]
        simp [attach, exported, exportedToJson, acBehavior, appendClauses, List.lookup_cons]

theorem behaviorName_injective {bhv other : Behavior}
    (same : behaviorName defaultBehaviorName bhv = behaviorName defaultBehaviorName other) :
    bhv.bName = other.bName := by
  simp only [behaviorName] at same
  split at same <;> split at same <;> simp_all

theorem namesToJson_injective : Function.Injective namesToJson := by
  intro first second same
  have texts : first.map Json.str = second.map Json.str := by
    simpa [namesToJson] using same
  have strInjective : Function.Injective Json.str := fun left right equal => Json.str.inj equal
  exact strInjective.list_map texts

variable {contract other : Contract}

/-- The texts of two contracts with clauses agree where their parts do. -/
theorem acslContractToJson_eq_iff (stated : contract.isEmptyFunspec = false)
    (otherStated : other.isEmptyFunspec = false) :
    acslContractToJson defaultBehaviorName contract =
        acslContractToJson defaultBehaviorName other ↔
      attach (defaultExtra contract.toFunspec)
          (contract.specBehavior.map (exported defaultBehaviorName)) =
        attach (defaultExtra other.toFunspec)
          (other.specBehavior.map (exported defaultBehaviorName)) ∧
      contract.specCompleteBehaviors = other.specCompleteBehaviors ∧
      contract.specDisjointBehaviors = other.specDisjointBehaviors := by
  have lists := exportedToJson_injective.list_map
  have names := namesToJson_injective.list_map
  simp only [acslContractToJson, stated, otherStated, appendExtra_eq]
  simp [lists.eq_iff, names.eq_iff]

/-- Nothing is put behind a behavior but what the contract has. -/
theorem sameText_of_attach {bhv otherBhv : Behavior} {rest otherRest : List Behavior}
    (shape : contract.specBehavior = bhv :: rest)
    (otherShape : other.specBehavior = otherBhv :: otherRest)
    (same : attach (defaultExtra contract.toFunspec)
        (contract.specBehavior.map (exported defaultBehaviorName)) =
      attach (defaultExtra other.toFunspec)
        (other.specBehavior.map (exported defaultBehaviorName))) :
    (bhv.bName = otherBhv.bName ∧ SameText bhv otherBhv) ∧
      contract.specVariant = other.specVariant ∧ contract.specTerminates = other.specTerminates ∧
      List.Forall₂ (fun bhv other => bhv.bName = other.bName ∧ SameText bhv other) rest
        otherRest := by
  rw [shape, otherShape, List.map_cons, List.map_cons, attach, attach, exported, exported,
    List.cons.injEq, Prod.mk.injEq] at same
  obtain ⟨⟨name, clauses⟩, others⟩ := same
  obtain ⟨text, variant, terminates⟩ := sameText_of_eq clauses
  refine ⟨⟨behaviorName_injective name, text⟩, variant, terminates, ?_⟩
  have related := List.forall₂_map_left_iff.mp (List.forall₂_map_right_iff.mp
    (List.forall₂_eq_eq_eq ▸ others))
  apply related.imp
  intro left right equal
  rw [exported, exported, Prod.mk.injEq] at equal
  have nothing : defaultExtra ⟨[], none, none, [], []⟩ = [] := rfl
  have clauses : acBehavior left ++ defaultExtra ⟨[], none, none, [], []⟩ =
      acBehavior right ++ defaultExtra ⟨[], none, none, [], []⟩ := by
    rw [nothing, List.append_nil, List.append_nil, equal.2]
  exact ⟨behaviorName_injective equal.1, (sameText_of_eq clauses).1⟩

/-- A contract is what its text says where its behaviors are. -/
theorem toFunspec_eq_of_plain (stated : contract.isEmptyFunspec = false)
    (otherStated : other.isEmptyFunspec = false) (attached : contract.specBehavior ≠ [])
    (plain : ∀ bhv ∈ contract.specBehavior, bhv.Plain)
    (same : acslContractToJson defaultBehaviorName contract =
      acslContractToJson defaultBehaviorName other) : contract.toFunspec = other.toFunspec := by
  obtain ⟨behaviors, complete, disjoint⟩ := (acslContractToJson_eq_iff stated otherStated).mp same
  obtain ⟨bhv, rest, shape⟩ := List.exists_cons_of_ne_nil attached
  cases otherShape : other.specBehavior with
  | nil =>
      rw [shape, otherShape] at behaviors
      cases behaviors
  | cons otherBhv otherRest =>
      obtain ⟨⟨name, text⟩, variant, terminates, related⟩ :=
        sameText_of_attach shape otherShape behaviors
      rw [shape] at plain
      obtain ⟨first, others⟩ := List.forall_mem_cons.mp plain
      have tails : rest = otherRest := by
        clear shape otherShape behaviors plain
        induction related with
        | nil => rfl
        | cons pair _ ih =>
            obtain ⟨plain, more⟩ := List.forall_mem_cons.mp others
            rw [pair.2.eq pair.1 plain, ih more]
      have lists : contract.specBehavior = other.specBehavior := by
        rw [shape, otherShape, text.eq name first, tails]
      obtain ⟨⟨_, _, _, _, _⟩, _, _⟩ := contract
      obtain ⟨⟨_, _, _, _, _⟩, _, _⟩ := other
      simp_all

/-- The kinds of the clauses, the behaviors that they are attached to and the sets of writes. -/
def Clause.outline : Clause → Option Clause
  | .assigns behavior froms =>
      some (.assigns behavior (froms.map fun entry => (entry.1, .fromAny)))
  | .requires behavior p => some (.requires behavior p)
  | .ensures behavior termination p => some (.ensures behavior termination p)
  | .assumes behavior p => some (.assumes behavior p)
  | .allocation _ _ _ | .terminates _ | .decreases _ | .complete _ | .disjoint _ => none

def Funspec.outline (spec : Funspec) : List Clause := spec.clauses.filterMap Clause.outline

def Behavior.outline (bhv : Behavior) : List Clause := bhv.clauses.filterMap Clause.outline

theorem outline_eq (spec : Funspec) : spec.outline = spec.specBehavior.flatMap Behavior.outline := by
  simp only [Funspec.outline, Funspec.clauses, List.filterMap_append, List.filterMap_map,
    Function.comp_def, Clause.outline, List.filterMap_flatMap]
  simp
  rfl

/-- A behavior without these two families has its assumptions and its set of writes. -/
theorem Behavior.outline_of_quiet {bhv : Behavior} (requires : bhv.bRequires = [])
    (ensures : bhv.bPostCond = []) : bhv.outline =
      (bhv.bAssigns.locations.map fun locs =>
        Clause.assigns bhv.bName (locs.map fun location => (location, .fromAny))).toList ++
      bhv.bAssumes.map (.assumes bhv.bName) := by
  rw [Behavior.outline, Behavior.clauses, requires, ensures]
  cases bhv.bAssigns <;> cases bhv.bAllocation <;>
    simp [Assigns.clauses, Allocation.clauses, Assigns.locations, Clause.outline,
      List.filterMap_append, List.filterMap_cons, List.filterMap_map, Function.comp_def]

theorem outline_eq_of_quiet (stated : contract.isEmptyFunspec = false)
    (otherStated : other.isEmptyFunspec = false)
    (quiet : ∀ bhv ∈ contract.specBehavior, bhv.bRequires = [] ∧ bhv.bPostCond = [])
    (same : acslContractToJson defaultBehaviorName contract =
      acslContractToJson defaultBehaviorName other) : contract.outline = other.outline := by
  obtain ⟨behaviors, -, -⟩ := (acslContractToJson_eq_iff stated otherStated).mp same
  have pair {bhv otherBhv : Behavior} (name : bhv.bName = otherBhv.bName)
      (text : SameText bhv otherBhv) (requires : bhv.bRequires = []) (ensures : bhv.bPostCond = []) :
      bhv.outline = otherBhv.outline := by
    obtain ⟨otherRequires, otherEnsures⟩ := text.quiet requires ensures
    rw [Behavior.outline_of_quiet requires ensures,
      Behavior.outline_of_quiet otherRequires otherEnsures, text.locations, text.bAssumes, name]
  rw [outline_eq, outline_eq]
  cases shape : contract.specBehavior with
  | nil =>
      cases otherShape : other.specBehavior with
      | nil => rfl
      | cons otherBhv otherRest =>
          rw [shape, otherShape] at behaviors
          cases behaviors
  | cons bhv rest =>
      cases otherShape : other.specBehavior with
      | nil =>
          rw [shape, otherShape] at behaviors
          cases behaviors
      | cons otherBhv otherRest =>
          obtain ⟨⟨name, text⟩, -, -, related⟩ := sameText_of_attach shape otherShape behaviors
          rw [shape] at quiet
          obtain ⟨⟨requires, ensures⟩, others⟩ := List.forall_mem_cons.mp quiet
          have tails : rest.flatMap Behavior.outline = otherRest.flatMap Behavior.outline := by
            clear shape otherShape behaviors quiet
            induction related with
            | nil => rfl
            | cons first _ ih =>
                obtain ⟨⟨requires, ensures⟩, more⟩ := List.forall_mem_cons.mp others
                rw [List.flatMap_cons, List.flatMap_cons, pair first.1 first.2 requires ensures,
                  ih more]
          rw [List.flatMap_cons, List.flatMap_cons, pair name text requires ensures, tails]

end Contracts

section Twins

variable {defaultBehaviorName : String}

def PredicateKind.another : PredicateKind → PredicateKind
  | .assert => .check
  | .check | .admitted => .assert

theorem PredicateKind.another_ne (kind : PredicateKind) : kind.another ≠ kind := by
  cases kind <;> decide

/-- A changed kind is not seen in the text. -/
theorem exists_behavior_of_loud {bhv : Behavior}
    (loud : ¬(bhv.bRequires = [] ∧ bhv.bPostCond = [])) : ∃ twin : Behavior,
      exported defaultBehaviorName twin = exported defaultBehaviorName bhv ∧
        twin.outline ≠ bhv.outline := by
  obtain ⟨name, requires, assumes, postCond, assigns, allocation⟩ := bhv
  match requires, postCond with
  | p :: ps, postCond =>
      refine ⟨⟨name, ⟨p.tpKind.another, p.tpStatement⟩ :: ps, assumes, postCond, assigns,
        allocation⟩, rfl, fun same => ?_⟩
      have heads := (List.cons.inj same).1
      exact p.tpKind.another_ne (congrArg ToplevelPredicate.tpKind (Clause.requires.inj heads).2)
  | [], (termination, q) :: qs =>
      refine ⟨⟨name, [], assumes, (termination, ⟨q.tpKind.another, q.tpStatement⟩) :: qs, assigns,
        allocation⟩, rfl, fun same => ?_⟩
      have heads := (List.cons.inj same).1
      exact q.tpKind.another_ne (congrArg ToplevelPredicate.tpKind (Clause.ensures.inj heads).2.2)
  | [], [] => exact absurd ⟨rfl, rfl⟩ loud

/-- An absent source and an empty one have one text. -/
theorem exists_behavior_of_unsourced {bhv : Behavior} {froms : List From}
    (assigned : bhv.bAssigns = .writes froms) (unsourced : ¬Sourced froms) : ∃ twin : Behavior,
      exported defaultBehaviorName twin = exported defaultBehaviorName bhv ∧
        twin.clauses ≠ bhv.clauses := by
  rw [Sourced] at unsourced
  push Not at unsourced
  obtain ⟨entry, member, bare⟩ := unsourced
  obtain ⟨before, after, rfl⟩ := List.append_of_mem member
  obtain ⟨location, deps⟩ := entry
  -- the other way to have no source
  obtain ⟨twinDeps, differ, silent⟩ : ∃ twinDeps, twinDeps ≠ deps ∧
      acslFromsExtractFrom [(location, twinDeps)] = acslFromsExtractFrom [(location, deps)] := by
    match deps with
    | .fromAny => exact ⟨.from [], fun same => Deps.noConfusion same, rfl⟩
    | .from [] => exact ⟨.fromAny, fun same => Deps.noConfusion same, rfl⟩
    | .from (it :: its) => exact absurd rfl (bare it its)
  have extract (deps : Deps) : acslFromsExtractFrom (before ++ (location, deps) :: after) =
      acslFromsExtractFrom before ++ acslFromsExtractFrom [(location, deps)] ++
        acslFromsExtractFrom after := by
    rw [List.append_cons, acslFromsExtractFrom, List.filterMap_append, List.filterMap_append]
    rfl
  have fields : writesFields (before ++ (location, twinDeps) :: after) =
      writesFields (before ++ (location, deps) :: after) := by
    simp only [writesFields, extract, silent, acslFromsToTset, List.map_append, List.map_cons]
  refine ⟨{ bhv with bAssigns := .writes (before ++ (location, twinDeps) :: after) }, ?_, ?_⟩
  · rw [exported, exported, acBehavior, acBehavior, assigned, acAssigns, acAssigns, fields]
    rfl
  · intro same
    rw [Behavior.clauses, Behavior.clauses, assigned] at same
    simp [Assigns.clauses, differ] at same

/-- An unspecified allocation and an empty one have one text. -/
theorem exists_behavior_of_unlocated {bhv : Behavior} (unlocated : ¬Located bhv.bAllocation) :
    ∃ twin : Behavior, exported defaultBehaviorName twin = exported defaultBehaviorName bhv ∧
      twin.clauses ≠ bhv.clauses := by
  cases shape : bhv.bAllocation with
  | freeAllocAny =>
      refine ⟨{ bhv with bAllocation := .freeAlloc [] [] }, ?_, fun same => ?_⟩
      · rw [exported, exported, acBehavior, acBehavior, shape]
        rfl
      · rw [Behavior.clauses, Behavior.clauses, shape] at same
        simp [Allocation.clauses] at same
  | freeAlloc frees allocates =>
      have none : frees = [] ∧ allocates = [] := by
        by_contra some
        exact unlocated ⟨frees, allocates, shape, not_and_or.mp some⟩
      refine ⟨{ bhv with bAllocation := .freeAllocAny }, ?_, fun same => ?_⟩
      · rw [exported, exported, acBehavior, acBehavior, shape, none.1, none.2]
        rfl
      · rw [Behavior.clauses, Behavior.clauses, shape] at same
        simp [Allocation.clauses] at same

def Contract.stated (spec : Funspec) : Contract where
  toFunspec := spec
  isEmptyFunspec := false
  empty := fun empty => by cases empty

variable {contract : Contract}

theorem exists_twin (stated : contract.isEmptyFunspec = false) {bhv : Behavior}
    (member : bhv ∈ contract.specBehavior) {observe : Clause → Option Clause}
    (twin : ∃ twin : Behavior,
      exported defaultBehaviorName twin = exported defaultBehaviorName bhv ∧
        twin.clauses.filterMap observe ≠ bhv.clauses.filterMap observe) :
    ∃ other : Contract, acslContractToJson defaultBehaviorName other =
        acslContractToJson defaultBehaviorName contract ∧
      other.clauses.filterMap observe ≠ contract.clauses.filterMap observe := by
  obtain ⟨twin, text, differ⟩ := twin
  obtain ⟨before, after, shape⟩ := List.append_of_mem member
  refine ⟨.stated { contract.toFunspec with specBehavior := before ++ twin :: after }, ?_, ?_⟩
  · rw [acslContractToJson_eq_iff rfl stated]
    refine ⟨?_, rfl, rfl⟩
    rw [shape]
    simp only [Contract.stated, List.map_append, List.map_cons, text]
    rfl
  · intro same
    apply differ
    simpa [Contract.stated, Funspec.clauses, shape, List.filterMap_append,
      List.filterMap_flatMap, List.flatMap_append, List.flatMap_cons] using same

end Twins

section Annotations

variable (defaultBehaviorName : String)

/-- Statement contracts are compared by their clauses. -/
def CodeAnnot.Same : CodeAnnot → CodeAnnot → Prop
  | .stmtSpec bhvs spec, .stmtSpec others otherSpec =>
      bhvs = others ∧ spec.clauses = otherSpec.clauses
  | ca, other => ca = other

/-- A variant and an assertion for named behaviors are written with all that they say. -/
def CodeAnnot.Telling (ca : CodeAnnot) : Prop :=
  (∃ t rel, ca = .variant t rel) ∨ ∃ bhvs p, ca = .assert bhvs p ∧ bhvs ≠ []

theorem tpKindToString_injective : Function.Injective tpKindToString := by
  intro first second same
  cases first <;> cases second <;> first | rfl | exact absurd same (by decide)

variable {defaultBehaviorName}

def CodeAnnot.tag : CodeAnnot → String
  | .assert _ _ | .invariant _ false _ => "AAassert"
  | .invariant _ true _ => "AAloop_invariant"
  | .variant _ _ => "AAloop_variant"
  | .assigns _ _ | .allocation _ .freeAllocAny => "AAloop_assigns"
  | .allocation _ (.freeAlloc frees _) =>
      if frees.isEmpty then "AAloop_allocates" else "AAloop_frees"
  | .stmtSpec _ _ => "AAstmt_contract"
  | .extended _ _ _ _ _ => "AAextension"

variable (defaultBehaviorName) in
theorem exists_fields (ca : CodeAnnot) :
    ∃ fields, acslAnnotationToJson defaultBehaviorName ca =
      mkKind ca.tag fields := by
  cases ca with
  | invariant bhvs loop p => cases loop <;> exact ⟨_, rfl⟩
  | assigns bhvs assigns => cases assigns <;> exact ⟨_, rfl⟩
  | allocation bhvs alloc =>
      cases alloc with
      | freeAllocAny => exact ⟨_, rfl⟩
      | freeAlloc frees allocates => cases frees <;> exact ⟨_, rfl⟩
  | _ => exact ⟨_, rfl⟩

theorem tag_eq {ca other : CodeAnnot}
    (same : acslAnnotationToJson defaultBehaviorName ca =
      acslAnnotationToJson defaultBehaviorName other) : ca.tag = other.tag := by
  obtain ⟨fields, text⟩ := exists_fields defaultBehaviorName ca
  obtain ⟨others, otherText⟩ := exists_fields defaultBehaviorName other
  rw [text, otherText] at same
  exact (mkKind_inj.mp same).1

theorem eq_of_variant {t : Json} {rel : Option String} {other : CodeAnnot}
    (same : acslAnnotationToJson defaultBehaviorName other =
      acslAnnotationToJson defaultBehaviorName (.variant t rel)) : other = .variant t rel := by
  have tags : other.tag = "AAloop_variant" := tag_eq same
  cases other with
  | variant otherT otherRel =>
      have pair := variantFields_injective (mkKind_inj.mp same).2
      rw [(Prod.mk.inj pair).1, (Prod.mk.inj pair).2]
  | invariant bhvs loop p => cases loop <;> simp [CodeAnnot.tag] at tags
  | allocation bhvs alloc =>
      cases alloc with
      | freeAllocAny => simp [CodeAnnot.tag] at tags
      | freeAlloc frees allocates => cases frees <;> simp [CodeAnnot.tag] at tags
  | _ => simp [CodeAnnot.tag] at tags

theorem predicateFields_injective : Function.Injective predicateFields := by
  rintro ⟨kind, statement⟩ ⟨otherKind, otherStatement⟩ same
  simp only [predicateFields, List.cons.injEq, Prod.mk.injEq, true_and, and_true,
    Json.str.injEq] at same
  rw [tpKindToString_injective same.1, same.2]

theorem eq_of_assert {bhvs : List String} {p : ToplevelPredicate} {other : CodeAnnot}
    (named : bhvs ≠ []) (same : acslAnnotationToJson defaultBehaviorName other =
      acslAnnotationToJson defaultBehaviorName (.assert bhvs p)) : other = .assert bhvs p := by
  have tags : other.tag = "AAassert" := tag_eq same
  have text : acslAnnotationToJson defaultBehaviorName (.assert bhvs p) =
      mkKind "AAassert" (("behaviors", namesToJson bhvs) :: predicateFields p) := by
    rw [acslAnnotationToJson, if_neg (by rwa [List.isEmpty_iff])]
    rfl
  rw [text] at same
  cases other with
  | assert otherBhvs otherP =>
      have fields := (mkKind_inj.mp same).2
      cases otherBhvs with
      | nil => simp [predicateFields] at fields
      | cons first rest =>
          simp only [List.isEmpty_cons, Bool.false_eq_true, if_false, List.singleton_append,
            List.cons.injEq, Prod.mk.injEq, true_and] at fields
          rw [namesToJson_injective fields.1, predicateFields_injective fields.2]
  | invariant otherBhvs loop otherP =>
      cases loop with
      | true => simp [CodeAnnot.tag] at tags
      | false =>
          have fields := (mkKind_inj.mp same).2
          simp [predicateFields] at fields
  | allocation otherBhvs alloc =>
      cases alloc with
      | freeAllocAny => simp [CodeAnnot.tag] at tags
      | freeAlloc frees allocates => cases frees <;> simp [CodeAnnot.tag] at tags
  | _ => simp [CodeAnnot.tag] at tags

theorem telling_of_determined {ca : CodeAnnot}
    (determined : ∀ other, acslAnnotationToJson defaultBehaviorName other =
      acslAnnotationToJson defaultBehaviorName ca → other.Same ca) :
    ca.Telling := by
  have longer (bhvs : List String) : "b" :: bhvs ≠ bhvs := List.cons_ne_self _ _
  cases ca with
  | variant t rel => exact .inl ⟨t, rel, rfl⟩
  | assert bhvs p =>
      refine .inr ⟨bhvs, p, rfl, ?_⟩
      rintro rfl
      exact CodeAnnot.noConfusion (determined (.invariant [] false p) rfl)
  | invariant bhvs loop p =>
      have same := determined (.invariant ("b" :: bhvs) loop p) (by cases loop <;> rfl)
      exact absurd (CodeAnnot.invariant.inj same).1 (longer bhvs)
  | assigns bhvs assigns =>
      have same := determined (.assigns ("b" :: bhvs) assigns) (by cases assigns <;> rfl)
      exact absurd (CodeAnnot.assigns.inj same).1 (longer bhvs)
  | allocation bhvs alloc =>
      have same := determined (.allocation ("b" :: bhvs) alloc) (by cases alloc <;> rfl)
      exact absurd (CodeAnnot.allocation.inj same).1 (longer bhvs)
  | stmtSpec bhvs spec =>
      have same := determined (.stmtSpec ("b" :: bhvs) spec) rfl
      exact absurd same.1 (longer bhvs)
  | extended bhvs isLoop extName extKind payload =>
      have same := determined (.extended ("b" :: bhvs) isLoop extName extKind payload) rfl
      exact absurd (CodeAnnot.extended.inj same).1 (longer bhvs)

theorem annotation_determined_iff (ca : CodeAnnot) :
    (∀ other, acslAnnotationToJson defaultBehaviorName other =
        acslAnnotationToJson defaultBehaviorName ca → other.Same ca) ↔
      ca.Telling := by
  refine ⟨telling_of_determined, ?_⟩
  rintro (⟨t, rel, rfl⟩ | ⟨bhvs, p, rfl, named⟩) other same
  · rw [eq_of_variant same]
    exact rfl
  · rw [eq_of_assert named same]
    exact rfl

end Annotations

section Determined

variable {defaultBehaviorName : String}

theorem eq_none_iff (contract : Contract) :
    acslContractToJson defaultBehaviorName contract = none ↔ contract.isEmptyFunspec = true := by
  rw [acslContractToJson]
  cases contract.isEmptyFunspec <;> simp

/-- A contract without clauses has the text of no other contract with clauses. -/
theorem clauses_eq_of_empty {contract other : Contract} (empty : contract.isEmptyFunspec = true)
    (same : acslContractToJson defaultBehaviorName other =
      acslContractToJson defaultBehaviorName contract) : other.clauses = contract.clauses := by
  rw [(eq_none_iff contract).mpr empty, eq_none_iff] at same
  rw [contract.empty empty, other.empty same]

theorem stated_of_same {contract other : Contract} (stated : contract.isEmptyFunspec = false)
    (same : acslContractToJson defaultBehaviorName other =
      acslContractToJson defaultBehaviorName contract) : other.isEmptyFunspec = false := by
  rw [← Bool.not_eq_true, ← eq_none_iff, same, eq_none_iff, stated]
  exact Bool.false_ne_true

/-- Without a behavior the clauses of the whole contract are not written. -/
theorem exists_twin_of_bare {contract : Contract} (stated : contract.isEmptyFunspec = false)
    (bare : contract.specBehavior = []) : ∃ other : Contract,
      acslContractToJson defaultBehaviorName other =
        acslContractToJson defaultBehaviorName contract ∧ other.clauses ≠ contract.clauses := by
  cases ended : contract.specTerminates with
  | none =>
      refine ⟨.stated { contract.toFunspec with specTerminates := some .null }, ?_, ?_⟩
      · rw [acslContractToJson_eq_iff rfl stated]
        simp [Contract.stated, bare, attach]
      · intro same
        have lengths := congrArg List.length same
        simp [Contract.stated, Funspec.clauses, ended] at lengths
  | some p =>
      refine ⟨.stated { contract.toFunspec with specTerminates := none }, ?_, ?_⟩
      · rw [acslContractToJson_eq_iff rfl stated]
        simp [Contract.stated, bare, attach]
      · intro same
        have lengths := congrArg List.length same
        simp [Contract.stated, Funspec.clauses, ended] at lengths

theorem clauses_determined_iff (contract : Contract) :
    (∀ other, acslContractToJson defaultBehaviorName other =
        acslContractToJson defaultBehaviorName contract → other.clauses = contract.clauses) ↔
      contract.isEmptyFunspec = true ∨
        contract.specBehavior ≠ [] ∧ ∀ bhv ∈ contract.specBehavior, bhv.Plain := by
  constructor
  · intro determined
    rw [or_iff_not_imp_left, Bool.not_eq_true]
    intro stated
    -- a behavior with a twin gives a contract with other clauses
    have alone {bhv : Behavior} (member : bhv ∈ contract.specBehavior) (twin : ∃ twin : Behavior,
        exported defaultBehaviorName twin = exported defaultBehaviorName bhv ∧
          twin.clauses ≠ bhv.clauses) : False := by
      have kept := @exists_twin defaultBehaviorName contract stated bhv member some
      simp only [List.filterMap_some] at kept
      obtain ⟨other, text, differ⟩ := kept twin
      exact differ (determined other text)
    constructor
    · intro bare
      obtain ⟨other, text, differ⟩ := exists_twin_of_bare stated bare
      exact differ (determined other text)
    · intro bhv member
      have quiet : bhv.bRequires = [] ∧ bhv.bPostCond = [] := by
        by_contra loud
        obtain ⟨twin, text, differ⟩ := exists_behavior_of_loud loud
        exact alone member ⟨twin, text, fun same =>
          differ (congrArg (List.filterMap Clause.outline) same)⟩
      refine ⟨quiet.1, quiet.2, fun froms assigned => ?_, ?_⟩
      · by_contra unsourced
        exact alone member (exists_behavior_of_unsourced assigned unsourced)
      · by_contra unlocated
        exact alone member (exists_behavior_of_unlocated unlocated)
  · rintro (empty | ⟨attached, plain⟩) other same
    · exact clauses_eq_of_empty empty same
    · cases empty : contract.isEmptyFunspec with
      | true => exact clauses_eq_of_empty empty same
      | false =>
          rw [toFunspec_eq_of_plain empty (stated_of_same empty same) attached plain same.symm]

theorem outline_determined_iff (contract : Contract) :
    (∀ other, acslContractToJson defaultBehaviorName other =
        acslContractToJson defaultBehaviorName contract → other.outline = contract.outline) ↔
      contract.isEmptyFunspec = true ∨
        ∀ bhv ∈ contract.specBehavior, bhv.bRequires = [] ∧ bhv.bPostCond = [] := by
  constructor
  · intro determined
    rw [or_iff_not_imp_left, Bool.not_eq_true]
    intro stated bhv member
    by_contra loud
    obtain ⟨other, text, differ⟩ := exists_twin stated member (exists_behavior_of_loud loud)
    exact differ (determined other text)
  · rintro (empty | quiet) other same
    · exact congrArg (List.filterMap Clause.outline) (clauses_eq_of_empty empty same)
    · cases empty : contract.isEmptyFunspec with
      | true => exact congrArg (List.filterMap Clause.outline) (clauses_eq_of_empty empty same)
      | false => exact (outline_eq_of_quiet empty (stated_of_same empty same) quiet same.symm).symm

/-- The text of a contract or of an annotation says its clauses in these cases and in no other. -/
theorem acslToJson_determines_iff (defaultBehaviorName : String) :
    (∀ contract : Contract,
      (∀ other, acslContractToJson defaultBehaviorName other =
          acslContractToJson defaultBehaviorName contract → other.clauses = contract.clauses) ↔
        contract.isEmptyFunspec = true ∨
          contract.specBehavior ≠ [] ∧ ∀ bhv ∈ contract.specBehavior, bhv.Plain) ∧
    (∀ contract : Contract,
      (∀ other, acslContractToJson defaultBehaviorName other =
          acslContractToJson defaultBehaviorName contract → other.outline = contract.outline) ↔
        contract.isEmptyFunspec = true ∨
          ∀ bhv ∈ contract.specBehavior, bhv.bRequires = [] ∧ bhv.bPostCond = []) ∧
    ∀ ca : CodeAnnot,
      (∀ other, acslAnnotationToJson defaultBehaviorName other =
          acslAnnotationToJson defaultBehaviorName ca → other.Same ca) ↔
        ca.Telling :=
  ⟨clauses_determined_iff, outline_determined_iff, annotation_determined_iff⟩

def postBehavior (termination : TerminationKind) : Behavior where
  bName := "default!"
  bRequires := []
  bAssumes := []
  bPostCond := [(termination, ⟨.assert, .null⟩)]
  bAssigns := .writesAny
  bAllocation := .freeAllocAny

/-- An exit condition is written as a postcondition. -/
theorem not_acslToJson_determines :
    ¬((∀ contract other : Contract, acslContractToJson "default!" contract =
          acslContractToJson "default!" other → contract.outline = other.outline) ∧
      ∀ ca other : CodeAnnot, acslAnnotationToJson "default!" ca =
          acslAnnotationToJson "default!" other → ca.Same other) := by
  rintro ⟨contracts, -⟩
  have same := contracts (.stated ⟨[postBehavior .normal], none, none, [], []⟩)
    (.stated ⟨[postBehavior .exits], none, none, [], []⟩) rfl
  exact TerminationKind.noConfusion (Clause.ensures.inj (List.cons.inj same).1).2.1

/-- Unspecified writes of a loop are written as no writes. -/
example : acslAnnotationToJson "default!" (.assigns [] .writesAny) =
    acslAnnotationToJson "default!" (.assigns [] (.writes [])) := rfl

end Determined

end FramaCMcp.Export
