/-
This file proves that the collection of types ends and leaves no type out.
-/

import FramaCMcp.Construction.CalleeCollection
import FramaCMcp.Foundation.GraphSearch

namespace FramaCMcp.Extraction

open DepthFirst Fixpoint

variable (file : TypeFile)

/-- These names stand in what a name stands for. -/
def TypeFile.next : TypeName → List TypeName
  | .comp ckey => Typ.namesOf ((file.fields ckey).getD [])
  | .enum _ => []
  | .typedef tname => (file.body tname).names

def Collected.Marks (col : Collected) : TypeName → Prop
  | .comp ckey => ckey ∈ col.compKeys
  | .enum ename => ename ∈ col.enumNames
  | .typedef tname => tname ∈ col.typeNames

def Collected.marked (col : Collected) : Set TypeName := Set.ofPred col.Marks

structure Extends (before after : Collected) : Prop where
  comps : Grows before.compKeys before.comps after.compKeys after.comps
  enums : Grows before.enumNames before.enums after.enumNames after.enums
  types : Grows before.typeNames before.types after.typeNames after.types

theorem Extends.refl (col : Collected) : Extends col col := ⟨.refl _ _, .refl _ _, .refl _ _⟩

variable {first second third : Collected}

theorem Extends.trans (early : Extends first second) (late : Extends second third) :
    Extends first third :=
  ⟨early.comps.trans late.comps, early.enums.trans late.enums, early.types.trans late.types⟩

theorem Extends.marked (grows : Extends first second) : first.marked ⊆ second.marked := by
  rintro (ckey | ename | tname) member
  · exact grows.comps.kept member
  · exact grows.enums.kept member
  · exact grows.types.kept member

/-- The step keeps what is closed and marks the names of the types. -/
structure Collects (unfinished : Set TypeName) (names : List TypeName) (before after : Collected) :
    Prop where
  grows : Extends before after
  closed : ClosedExcept file.next unfinished before.marked →
    ClosedExcept file.next unfinished after.marked
  named : ∀ name ∈ names, name ∈ after.marked

variable {file} {unfinished : Set TypeName}

theorem Collects.refl (col : Collected) : Collects file unfinished [] col col :=
  ⟨.refl col, id, nofun⟩

theorem Collects.trans {names others : List TypeName}
    (early : Collects file unfinished names first second)
    (late : Collects file unfinished others second third) :
    Collects file unfinished (names ++ others) first third where
  grows := early.grows.trans late.grows
  closed := late.closed ∘ early.closed
  named := fun name member => (List.mem_append.mp member).elim
    (fun own => late.grows.marked (early.named name own)) (late.named name)

theorem Collects.weaken {names others : List TypeName} (subset : others ⊆ names)
    (collects : Collects file unfinished names first second) :
    Collects file unfinished others first second :=
  ⟨collects.grows, collects.closed, fun name member => collects.named name (subset member)⟩

theorem marked_enum (ename : String) (col : Collected) (enums : List String) :
    ({ col with enumNames := ename :: col.enumNames, enums } : Collected).marked =
      insert (.enum ename) col.marked := by
  ext name
  change Collected.Marks _ name ↔ name = _ ∨ col.Marks name
  cases name <;> simp [Collected.Marks]

theorem marked_comp (ckey : Nat) (col : Collected) :
    ({ col with compKeys := ckey :: col.compKeys } : Collected).marked =
      insert (.comp ckey) col.marked := by
  ext name
  change Collected.Marks _ name ↔ name = _ ∨ col.Marks name
  cases name <;> simp [Collected.Marks]

theorem marked_typedef (tname : String) (col : Collected) :
    ({ col with typeNames := tname :: col.typeNames } : Collected).marked =
      insert (.typedef tname) col.marked := by
  ext name
  change Collected.Marks _ name ↔ name = _ ∨ col.Marks name
  cases name <;> simp [Collected.Marks]

theorem collects_collectEnum (ename : String) (col : Collected) :
    Collects file unfinished [.enum ename] col (collectEnum ename col) := by
  rw [collectEnum]
  split_ifs with known
  · refine ⟨.refl col, id, fun name member => ?_⟩
    rw [List.mem_singleton.mp member]
    exact List.contains_iff_mem.mp known
  · have new : ename ∉ col.enumNames := fun member => known (List.contains_iff_mem.mpr member)
    refine ⟨⟨.refl _ _, (Grows.refl _ _).of_list new, .refl _ _⟩, fun closed => ?_,
      fun name member => ?_⟩
    · rw [marked_enum]
      exact closed.insert_of_nil rfl
    · rw [List.mem_singleton.mp member]
      exact List.mem_cons_self

/-- A composite is marked, its fields are collected, and it is listed. -/
theorem collects_comp {ckey : Nat} {col later : Collected} (new : ckey ∉ col.compKeys)
    (fields : Collects file (insert (.comp ckey) unfinished)
      (Typ.namesOf ((file.fields ckey).getD []))
      { col with compKeys := ckey :: col.compKeys } later) :
    Collects file unfinished [.comp ckey] col { later with comps := ckey :: later.comps } where
  grows := ⟨fields.grows.comps.of_list new, fields.grows.enums, fields.grows.types⟩
  closed := by
    intro closed
    have marked := closed.mark (.comp ckey)
    rw [← marked_comp] at marked
    exact (fields.closed marked).finish fields.named
  named := by
    intro name member
    rw [List.mem_singleton.mp member]
    exact fields.grows.comps.kept List.mem_cons_self

/-- A typedef is marked, its body is collected, and it is listed where it has a declaration. -/
theorem collects_typedef {tname : String} {col later : Collected} (new : tname ∉ col.typeNames)
    (body : Collects file (insert (.typedef tname) unfinished) (file.body tname).names
      { col with typeNames := tname :: col.typeNames } later) :
    Collects file unfinished [.typedef tname] col
      (if file.hasGlobal tname then { later with types := tname :: later.types } else later) := by
  have grows : Extends col
      (if file.hasGlobal tname then { later with types := tname :: later.types } else later) := by
    split_ifs
    · exact ⟨body.grows.comps, body.grows.enums, body.grows.types.of_list new⟩
    · exact ⟨body.grows.comps, body.grows.enums, body.grows.types.of_mark⟩
  have same : (if file.hasGlobal tname then { later with types := tname :: later.types }
      else later).marked = later.marked := by
    split_ifs <;> rfl
  refine ⟨grows, fun closed => ?_, fun name member => ?_⟩
  · have marked := closed.mark (.typedef tname)
    rw [← marked_typedef] at marked
    rw [same]
    exact (body.closed marked).finish body.named
  · rw [List.mem_singleton.mp member, same]
    exact body.grows.types.kept List.mem_cons_self

section Walk

variable {collect : Typ → Collected → Option Collected}

/-- The recursive calls collect the names of their types. -/
def Walks (file : TypeFile) (collect : Typ → Collected → Option Collected) : Prop :=
  ∀ unfinished typ col later, collect typ col = some later →
    Collects file unfinished typ.names col later

variable (walks : Walks file collect)

include walks

theorem collects_all (types : List Typ) (col later : Collected)
    (collected : collectAll collect types col = some later) :
    Collects file unfinished (Typ.namesOf types) col later := by
  induction types generalizing col with
  | nil =>
      obtain rfl := Option.some.inj collected
      exact .refl col
  | cons typ rest ih =>
      rw [collectAll, List.foldlM_cons] at collected
      obtain ⟨between, first, behind⟩ := Option.bind_eq_some_iff.mp collected
      exact (walks unfinished typ col between first).trans (ih between behind)

theorem collects_named (tname : String) (col later : Collected)
    (collected : collectNamed file collect (.named tname) col = some later) :
    Collects file unfinished [.typedef tname] col later := by
  rw [collectNamed] at collected
  by_cases known : col.typeNames.contains tname = true
  · rw [if_pos known] at collected
    obtain rfl := Option.some.inj collected
    refine ⟨.refl col, id, fun name member => ?_⟩
    rw [List.mem_singleton.mp member]
    exact List.contains_iff_mem.mp known
  · rw [if_neg known] at collected
    obtain ⟨between, body, rfl⟩ := Option.map_eq_some_iff.mp collected
    exact collects_typedef (fun member => known (List.contains_iff_mem.mpr member))
      (walks _ _ _ between body)

/-- A typedef at the head has been collected by its name. -/
def coreNames : Typ → List TypeName
  | .named _ => []
  | typ => typ.names

theorem collects_node (node : Typ) (col later : Collected)
    (collected : collectNode file collect node col = some later) :
    Collects file unfinished (coreNames node) col later := by
  cases node with
  | scalar =>
      obtain rfl := Option.some.inj collected
      exact .refl col
  | ptr target => exact walks unfinished target col later collected
  | array elem => exact walks unfinished elem col later collected
  | fn result params =>
      obtain ⟨between, first, behind⟩ := Option.bind_eq_some_iff.mp collected
      exact (walks unfinished result col between first).trans
        (collects_all walks params between later behind)
  | named tname =>
      obtain rfl := Option.some.inj collected
      exact .refl col
  | comp ckey =>
      rw [collectNode] at collected
      split_ifs at collected with known
      · obtain rfl := Option.some.inj collected
        refine ⟨.refl col, id, fun name member => ?_⟩
        rw [List.mem_singleton.mp member]
        exact List.contains_iff_mem.mp known
      · obtain ⟨between, fields, rfl⟩ := Option.map_eq_some_iff.mp collected
        exact collects_comp (fun member => known (List.contains_iff_mem.mpr member))
          (collects_all walks _ _ between fields)
  | enum ename =>
      obtain rfl := Option.some.inj collected
      exact collects_collectEnum ename col

end Walk

/-- The collection of a type keeps what is closed and marks the names of the type. -/
theorem collects_collectType (steps : Nat) : Walks file (collectType file steps) := by
  induction steps with
  | zero =>
      intro _ _ _ _ collected
      cases collected
  | succ steps ih =>
      intro unfinished typ col later collected
      rw [collectType] at collected
      obtain ⟨between, named, node⟩ := Option.bind_eq_some_iff.mp collected
      have core : Collects file unfinished (coreNames (unrollNode file typ)) between later :=
        collects_node ih _ between later node
      cases typ with
      | named tname =>
          exact ((collects_named ih tname col between named).trans core).weaken
            (List.subset_append_left _ _)
      | _ =>
          obtain rfl := Option.some.inj named
          exact core

section Termination

/-- A type is a part of another one below its head, or the body of a typedef. -/
inductive Part (file : TypeFile) : Typ → Typ → Prop where
  | ptr (target : Typ) : Part file target (.ptr target)
  | array (elem : Typ) : Part file elem (.array elem)
  | result (result : Typ) (params : List Typ) : Part file result (.fn result params)
  | param (result typ : Typ) {params : List Typ} (member : typ ∈ params) :
      Part file typ (.fn result params)
  | body (tname : String) : Part file (file.body tname) (.named tname)

mutual

theorem acc_of_names : (typ : Typ) →
    (∀ tname, .typedef tname ∈ typ.names → Acc (Part file) (.named tname)) → Acc (Part file) typ
  | .scalar, _ => ⟨_, by rintro _ ⟨⟩⟩
  | .ptr target, known => ⟨_, by
      rintro _ ⟨⟩
      exact acc_of_names target known⟩
  | .array elem, known => ⟨_, by
      rintro _ ⟨⟩
      exact acc_of_names elem known⟩
  | .fn result params, known => by
      refine ⟨_, fun typ part => ?_⟩
      cases part with
      | result =>
          exact acc_of_names result fun tname member => known tname (List.mem_append_left _ member)
      | param _ _ member =>
          exact accs_of_names params (fun tname inside =>
            known tname (List.mem_append_right _ inside)) typ member
  | .named tname, known => known tname (List.mem_singleton_self _)
  | .comp _, _ => ⟨_, by rintro _ ⟨⟩⟩
  | .enum _, _ => ⟨_, by rintro _ ⟨⟩⟩

theorem accs_of_names : (types : List Typ) →
    (∀ tname, .typedef tname ∈ Typ.namesOf types → Acc (Part file) (.named tname)) →
    ∀ typ ∈ types, Acc (Part file) typ
  | [], _ => nofun
  | first :: rest, known => by
      have early : Acc (Part file) first :=
        acc_of_names first fun tname inside => known tname (List.mem_append_left _ inside)
      intro typ member
      rcases List.mem_cons.mp member with same | behind
      · rw [same]
        exact early
      · exact accs_of_names rest (fun tname inside =>
          known tname (List.mem_append_right _ inside)) typ behind

end

theorem acc_named (tname : String) : Acc (Part file) (.named tname) := by
  induction rank : file.rank tname using Nat.strong_induction_on generalizing tname with
  | _ rank ih =>
      subst rank
      refine ⟨_, ?_⟩
      rintro _ ⟨⟩
      exact acc_of_names _ fun other member => ih _ (file.earlier tname other member) other rfl

theorem wellFounded_part (file : TypeFile) : WellFounded (Relation.TransGen (Part file)) :=
  WellFounded.transGen ⟨fun typ => acc_of_names typ fun tname _ => acc_named tname⟩

theorem unrollFrom_part (steps : Nat) (typ : Typ) :
    Relation.ReflTransGen (Part file) (unrollFrom file steps typ) typ := by
  fun_induction unrollFrom file steps typ with
  | case1 steps tname ih => exact ih.tail (.body tname)
  | case2 => exact .refl

theorem unrollNode_part (typ : Typ) : Relation.ReflTransGen (Part file) (unrollNode file typ) typ := by
  cases typ with
  | named tname => exact unrollFrom_part _ _
  | _ => exact .refl

/-- These composites are not marked yet. -/
def unmarked (file : TypeFile) (col : Collected) : Nat :=
  file.comps.countP fun ckey => !col.compKeys.contains ckey

theorem Extends.unmarked_le (grows : Extends first second) :
    unmarked file second ≤ unmarked file first :=
  countP_new_le grows.comps.kept

/-- The collection of the type ends where at most so many composites are not marked. -/
def EndsWithin (file : TypeFile) (bound : Nat) (typ : Typ) : Prop :=
  ∀ col, unmarked file col ≤ bound → ∃ later, Ends (fun steps => collectType file steps typ col) later

theorem Extends.of_ends {typ : Typ} {col later : Collected}
    (ends : Ends (fun steps => collectType file steps typ col) later) : Extends col later := by
  obtain ⟨enough, found⟩ := ends
  exact (collects_collectType enough ∅ typ col later (found enough le_rfl)).grows

variable {bound : Nat}

theorem collectAll_ends (types : List Typ) (each : ∀ typ ∈ types, EndsWithin file bound typ)
    (col : Collected) (small : unmarked file col ≤ bound) :
    ∃ later, Ends (fun steps => collectAll (collectType file steps) types col) later := by
  induction types generalizing col with
  | nil => exact ⟨col, .pure col⟩
  | cons first rest ih =>
      obtain ⟨between, starts⟩ := each first List.mem_cons_self col small
      obtain ⟨later, goesOn⟩ := ih (fun typ member => each typ (List.mem_cons_of_mem _ member))
        between ((Extends.of_ends starts).unmarked_le.trans small)
      exact ⟨later, starts.bind goesOn⟩

theorem collectNamed_ends (typ : Typ) (parts : ∀ part, Part file part typ → EndsWithin file bound part)
    (col : Collected) (small : unmarked file col ≤ bound) :
    ∃ later, Ends (fun steps => collectNamed file (collectType file steps) typ col) later ∧
      unmarked file later ≤ bound := by
  cases typ with
  | named tname =>
      by_cases known : col.typeNames.contains tname = true
      · simp only [collectNamed, if_pos known]
        exact ⟨col, .pure col, small⟩
      · simp only [collectNamed, if_neg known]
        obtain ⟨between, body⟩ := parts _ (.body tname)
          { col with typeNames := tname :: col.typeNames } small
        have kept : unmarked file between ≤ bound := (Extends.of_ends body).unmarked_le.trans small
        refine ⟨_, body.map _, ?_⟩
        split_ifs
        · exact kept
        · exact kept
  | _ => exact ⟨col, .pure col, small⟩

/-- A composite that is collected for the first time leaves fewer composites for its fields. -/
theorem collectNode_ends (node : Typ) (parts : ∀ part, Part file part node → EndsWithin file bound part)
    (fewer : ∀ less < bound, ∀ typ, EndsWithin file less typ) (col : Collected)
    (small : unmarked file col ≤ bound) :
    ∃ later, Ends (fun steps => collectNode file (collectType file steps) node col) later := by
  cases node with
  | scalar => exact ⟨col, .pure col⟩
  | ptr target => exact parts target (.ptr target) col small
  | array elem => exact parts elem (.array elem) col small
  | fn result params =>
      obtain ⟨between, starts⟩ := parts result (.result result params) col small
      obtain ⟨later, goesOn⟩ := collectAll_ends params
        (fun typ member => parts typ (.param result typ member)) between
        ((Extends.of_ends starts).unmarked_le.trans small)
      exact ⟨later, starts.bind goesOn⟩
  | named tname => exact ⟨col, .pure col⟩
  | comp ckey =>
      by_cases known : col.compKeys.contains ckey = true
      · simp only [collectNode, if_pos known]
        exact ⟨col, .pure col⟩
      · simp only [collectNode, if_neg known]
        have new : ckey ∉ col.compKeys := fun member => known (List.contains_iff_mem.mpr member)
        by_cases listed : ckey ∈ file.comps
        · have less := countP_new_cons_lt listed new
          obtain ⟨between, fields⟩ := collectAll_ends ((file.fields ckey).getD [])
            (fun typ _ => fewer _ (less.trans_le small) typ)
            { col with compKeys := ckey :: col.compKeys } le_rfl
          exact ⟨_, fields.map _⟩
        · -- A composite that the file does not define has no fields.
          have incomplete : file.fields ckey = none :=
            not_not.mp fun found => listed (file.covered ckey found)
          rw [incomplete]
          exact ⟨_, (Ends.pure _).map _⟩
  | enum ename => exact ⟨_, .pure _⟩

/-- The induction is on the composites that are not marked and then on the parts of the type. -/
theorem endsWithin (bound : Nat) (typ : Typ) : EndsWithin file bound typ := by
  induction bound using Nat.strong_induction_on generalizing typ with
  | _ bound fewer =>
      induction typ using (wellFounded_part file).induction with
      | _ typ parts =>
          intro col small
          obtain ⟨between, named, kept⟩ :=
            collectNamed_ends typ (fun part below => parts part (.single below)) col small
          have deeper : ∀ part, Part file part (unrollNode file typ) → EndsWithin file bound part :=
            fun part below => parts part (.head' below (unrollNode_part typ))
          obtain ⟨later, node⟩ := collectNode_ends _ deeper fewer between kept
          exact ⟨later, Ends.succ (named.bind node)⟩

end Termination

/-- A type refers to its parts, a typedef to its body and a composite to the types of its fields. -/
inductive Refers (file : TypeFile) : Typ → Typ → Prop where
  | part {typ part : Typ} (below : Part file part typ) : Refers file typ part
  | field (ckey : Nat) {fields : List Typ} (found : file.fields ckey = some fields)
      {typ : Typ} (member : typ ∈ fields) : Refers file (.comp ckey) typ

/-- A type that has a name of its own is in its table. -/
def Collected.InTable (col : Collected) : Typ → Prop
  | .named tname => tname ∈ col.typeNames
  | .comp ckey => ckey ∈ col.compKeys
  | .enum ename => ename ∈ col.enumNames
  | _ => True

/-- The extraction starts with empty tables and collects types and enumerations. -/
inductive Reached (file : TypeFile) : Collected → Prop where
  | create : Reached file {}
  | type (typ : Typ) (steps : Nat) {col later : Collected} (reached : Reached file col)
      (collected : collectType file steps typ col = some later) : Reached file later
  | enum (ename : String) {col : Collected} (reached : Reached file col) :
      Reached file (collectEnum ename col)

/-- No definition is listed twice. -/
structure Collected.Distinct (col : Collected) : Prop where
  comps : col.comps.Nodup
  enums : col.enums.Nodup
  types : col.types.Nodup

/-- The search has closed its tables, and each definition was listed once. -/
structure Settled (file : TypeFile) (col : Collected) : Prop where
  closed : ClosedExcept file.next ∅ col.marked
  comps : Tidy col.compKeys col.comps
  enums : Tidy col.enumNames col.enums
  types : Tidy col.typeNames col.types

theorem settled_create : Settled file {} where
  closed := by
    rintro (ckey | ename | tname) member <;> cases member
  comps := ⟨List.nodup_nil, List.nil_subset _⟩
  enums := ⟨List.nodup_nil, List.nil_subset _⟩
  types := ⟨List.nodup_nil, List.nil_subset _⟩

theorem Collects.settled {names : List TypeName} (collects : Collects file ∅ names first second)
    (settled : Settled file first) : Settled file second :=
  ⟨collects.closed settled.closed, collects.grows.comps.tidy settled.comps,
    collects.grows.enums.tidy settled.enums, collects.grows.types.tidy settled.types⟩

theorem Reached.settled {col : Collected} (reached : Reached file col) : Settled file col := by
  induction reached with
  | create => exact settled_create
  | type typ steps _ collected ih => exact (collects_collectType steps ∅ typ _ _ collected).settled ih
  | enum ename _ ih => exact (collects_collectEnum ename _).settled ih

theorem names_subset_of_mem {typ : Typ} {types : List Typ} (member : typ ∈ types) :
    typ.names ⊆ Typ.namesOf types := by
  induction types with
  | nil => cases member
  | cons first rest ih =>
      rcases List.mem_cons.mp member with rfl | behind
      · exact List.subset_append_left _ _
      · exact List.subset_append_of_subset_right _ (ih behind)

def Collected.Covers (col : Collected) (typ : Typ) : Prop := ∀ name ∈ typ.names, name ∈ col.marked

theorem Settled.covers {col : Collected} (settled : Settled file col) {typ other : Typ}
    (covers : col.Covers typ) (refers : Refers file typ other) : col.Covers other := by
  have follows : ∀ name ∈ col.marked, ∀ later ∈ file.next name, later ∈ col.marked :=
    fun name member => settled.closed name member (Set.notMem_empty _)
  cases refers with
  | part below =>
      cases below with
      | ptr => exact covers
      | array => exact covers
      | result => exact fun name member => covers name (List.mem_append_left _ member)
      | param _ _ member =>
          intro name inside
          apply covers name
          exact List.mem_append_right _ (names_subset_of_mem member inside)
      | body tname => exact follows _ (covers (.typedef tname) (List.mem_singleton_self _))
  | field ckey found member =>
      intro name inside
      apply follows _ (covers (.comp ckey) (List.mem_singleton_self _))
      rw [TypeFile.next, found]
      exact names_subset_of_mem member inside

theorem Collected.Covers.inTable {col : Collected} {typ : Typ} (covers : col.Covers typ) :
    col.InTable typ := by
  cases typ with
  | named tname => exact covers (.typedef tname) (List.mem_singleton_self _)
  | comp ckey => exact covers (.comp ckey) (List.mem_singleton_self _)
  | enum ename => exact covers (.enum ename) (List.mem_singleton_self _)
  | _ => trivial

/-- The collection of a type ends, lists no definition twice and leaves out no type that it refers
to. -/
theorem collectType_closes (file : TypeFile) (typ : Typ) (col : Collected)
    (reached : Reached file col) :
    ∃ later, Ends (fun steps => collectType file steps typ col) later ∧ later.Distinct ∧
      ∀ other, Relation.ReflTransGen (Refers file) typ other → later.InTable other := by
  obtain ⟨later, ends⟩ := endsWithin _ typ col le_rfl
  obtain ⟨steps, collected⟩ : ∃ steps, collectType file steps typ col = some later :=
    ends.imp fun enough found => found enough le_rfl
  have settled : Settled file later := (reached.type typ steps collected).settled
  refine ⟨later, ends, ⟨settled.comps.distinct, settled.enums.distinct, settled.types.distinct⟩, ?_⟩
  intro other path
  apply Collected.Covers.inTable
  induction path with
  | refl => exact (collects_collectType steps ∅ typ col later collected).named
  | tail _ refers covers => exact settled.covers covers refers

/-- The file declares a list whose node holds a pointer to a node. -/
def listFile : TypeFile where
  fields := fun ckey => if ckey = 1 then some [.enum "color", .ptr (.named "node")] else none
  body := fun tname => if tname = "node" then .comp 1 else .scalar
  hasGlobal := fun tname => tname == "node"
  comps := [1]
  covered := by
    intro ckey defined
    split_ifs at defined with same
    · exact List.mem_singleton.mpr same
    · exact absurd rfl defined
  rank := fun _ => 0
  earlier := by
    intro tname other member
    split_ifs at member <;> simp [Typ.names] at member

theorem collectType_closes_listFile :
    ∃ later, Ends (fun steps => collectType listFile steps (.ptr (.named "node"))
        (collectEnum "flag" {})) later ∧ later.Distinct ∧
      ∀ other, Relation.ReflTransGen (Refers listFile) (.ptr (.named "node")) other →
        later.InTable other :=
  collectType_closes listFile (.ptr (.named "node")) (collectEnum "flag" {}) (.enum "flag" .create)

end FramaCMcp.Extraction
