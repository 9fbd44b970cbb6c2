/-
This file proves when a dump gives each id once and lists each definition of a type.
-/

import FramaCMcp.Proof.DumpIds

namespace FramaCMcp.Export

variable {Others : Type}

section Entries

/-- An entry is the only one with its id where the ids differ. -/
theorem filter_eq_singleton {Entry : Type} (id : Entry → Int) {entries : List Entry}
    {entry : Entry} (once : (entries.map id).Nodup) (member : entry ∈ entries) :
    entries.filter (fun other => id other == id entry) = [entry] := by
  induction entries with
  | nil => cases member
  | cons first rest ih =>
      rw [List.map_cons, List.nodup_cons] at once
      obtain ⟨new, once⟩ := once
      rcases List.mem_cons.mp member with rfl | member
      · rw [List.filter_cons, if_pos (beq_self_eq_true _), List.filter_eq_nil_iff.mpr]
        intro other inside same
        exact new (List.mem_map.mpr ⟨other, inside, eq_of_beq same⟩)
      · have differ : ¬(id first == id entry) = true := fun same =>
          new (eq_of_beq same ▸ List.mem_map_of_mem member)
        rw [List.filter_cons, if_neg differ, ih once member]

end Entries

section Names

/-- These names go into the table of enums where a global is converted. -/
def Global.names : Global Others → List String
  | .compTag ci | .compTagDecl ci => (ci.cfields.getD []).flatMap Piece.enums
  | .enumTag ei | .enumTagDecl ei => ei.eitems.map Enumitem.einame ++ [ei.ename]
  | .var _ piece => piece.enums
  | .fun fundec => fundec.uses.enums
  | .funDecl _ _ _ | .varDecl _ _ | .unread => []

def namesOf (globals : List (Global Others)) : List String := globals.flatMap Global.names

def compinfos (globals : List (Global Others)) : List (Compinfo Others) :=
  globals.filterMap Global.compinfo?

def enuminfos (globals : List (Global Others)) : List Enuminfo :=
  globals.filterMap Global.enuminfo?

/-- No enumerator and no use of an enum has put a tag into the table before its first definition. -/
def TagsFresh (globals : List (Global Others)) : Prop :=
  ∀ before g ei, before ++ [g] <+: globals → g.enuminfo? = some ei →
    ei.ename ∈ namesOf before → ei ∈ enuminfos before

variable {done : List (Global Others)} {g : Global Others}

theorem tagsFresh_nil : TagsFresh ([] : List (Global Others)) := by
  intro before g ei lead
  simp at lead

theorem tagsFresh_snoc : TagsFresh (done ++ [g]) ↔ TagsFresh done ∧
    ∀ ei, g.enuminfo? = some ei → ei.ename ∈ namesOf done → ei ∈ enuminfos done := by
  constructor
  · intro fresh
    constructor
    · intro before other ei lead
      exact fresh before other ei (lead.trans (List.prefix_append _ _))
    · intro ei
      exact fresh done g ei List.prefix_rfl
  · rintro ⟨fresh, last⟩ before other ei lead
    rcases List.prefix_concat_iff.mp lead with whole | lead
    · obtain ⟨rfl, same⟩ := List.append_inj' whole rfl
      rw [List.cons.injEq] at same
      rw [same.1]
      exact last ei
    · exact fresh before other ei lead

theorem namesOf_snoc : namesOf (done ++ [g]) = namesOf done ++ g.names := by
  simp [namesOf]

theorem enuminfos_snoc_none (plain : g.enuminfo? = none) :
    enuminfos (done ++ [g]) = enuminfos done := by
  simp [enuminfos, plain]

theorem mem_enuminfos_snoc {ei other : Enuminfo} (tag : g.enuminfo? = some ei) :
    other ∈ enuminfos (done ++ [g]) ↔ other ∈ enuminfos done ∨ other = ei := by
  simp [enuminfos, tag]

theorem names_of_enuminfo {ei : Enuminfo} (tag : g.enuminfo? = some ei) :
    g.names = ei.eitems.map Enumitem.einame ++ [ei.ename] := by
  cases g <;> cases tag <;> rfl

theorem names_subset_namesOf (member : g ∈ done) : g.names ⊆ namesOf done := by
  intro name inside
  exact List.mem_flatMap.mpr ⟨g, member, inside⟩

end Names

section Run

/-- An entry has the id of the tag. -/
def Emitted (dump : Dump Others) (ei : Enuminfo) : Prop :=
  ∃ entry ∈ dump.enums, dump.table.enums.cache.lookup ei.ename = some entry.ceId

/-- These facts hold in the first pass after the globals `done`. -/
structure EnumsKept (done : List (Global Others)) (dump : Dump Others) : Prop where
  valid : dump.table.enums.Valid enumBase
  source : ∀ entry ∈ dump.enums, ∃ ei ∈ enuminfos done, (∃ table : IdentTable Others,
    entry = (enumToJson ei table).1) ∧ dump.table.enums.cache.lookup ei.ename = some entry.ceId
  once : (dump.enums.map EnumJson.ceId).Nodup
  seen : ∀ ei ∈ enuminfos done, ei.ename ∈ dump.table.enums.cache
  known : ∀ name ∈ dump.table.enums.cache, name ∈ namesOf done
  full : (∀ ei ∈ enuminfos done, Emitted dump ei) →
    ∀ name ∈ namesOf done, name ∈ dump.table.enums.cache
  fresh : (∀ ei ∈ enuminfos done, Emitted dump ei) ↔ TagsFresh done

variable {done : List (Global Others)} {dump next : Dump Others} {g : Global Others}

theorem lookup_of_mem {table : Interner} {name : String} (member : name ∈ table.cache) :
    ∃ id, table.cache.lookup name = some id :=
  Option.isSome_iff_exists.mp (AList.lookup_isSome.mpr member)

/-- A known tag stays with its entries where the table grows. -/
theorem emitted_iff {ei : Enuminfo} {names : List String}
    (seen : ei.ename ∈ dump.table.enums.cache) (entries : next.enums = dump.enums)
    (grown : next.table.enums = dump.table.enums.register enumBase names) :
    Emitted next ei ↔ Emitted dump ei := by
  obtain ⟨id, found⟩ := lookup_of_mem seen
  rw [Emitted, Emitted, entries, grown, Interner.lookup_register_of_some found, found]

/-- A global that is no enum registers its names, or they are known. -/
theorem EnumsKept.register (kept : EnumsKept done dump) (names : List String)
    (plain : g.enuminfo? = none) (entries : next.enums = dump.enums)
    (grown : next.table.enums = dump.table.enums.register enumBase names)
    (lower : names ⊆ g.names) (upper : ∀ name ∈ g.names, name ∈ names ∨ name ∈ namesOf done) :
    EnumsKept (done ++ [g]) next := by
  have same : (∀ ei ∈ enuminfos (done ++ [g]), Emitted next ei) ↔
      ∀ ei ∈ enuminfos done, Emitted dump ei := by
    rw [enuminfos_snoc_none plain]
    exact forall₂_congr fun ei member => emitted_iff (kept.seen ei member) entries grown
  constructor
  · rw [grown]
    exact kept.valid.register names
  · intro entry member
    rw [entries] at member
    obtain ⟨ei, stored, made, found⟩ := kept.source entry member
    rw [enuminfos_snoc_none plain, grown]
    exact ⟨ei, stored, made, Interner.lookup_register_of_some found names⟩
  · rw [entries]
    exact kept.once
  · intro ei member
    rw [enuminfos_snoc_none plain] at member
    rw [grown, Interner.mem_register]
    exact .inr (kept.seen ei member)
  · intro name member
    rw [grown, Interner.mem_register] at member
    rw [namesOf_snoc, List.mem_append]
    rcases member with inside | old
    · exact .inr (lower inside)
    · exact .inl (kept.known name old)
  · intro emitted name member
    have old := kept.full (same.mp emitted)
    rw [grown, Interner.mem_register]
    rw [namesOf_snoc, List.mem_append] at member
    rcases member with before | here
    · exact .inr (old name before)
    · rcases upper name here with inside | before
      · exact .inl inside
      · exact .inr (old name before)
  · rw [same, kept.fresh, tagsFresh_snoc]
    exact (and_iff_left fun ei tag => by rw [plain] at tag; cases tag).symm

variable {ei : Enuminfo}

/-- The entry of a tag comes from an enum of the file with this tag. -/
theorem EnumsKept.mem_of_emitted (kept : EnumsKept done dump)
    (tagged : ∀ other ∈ enuminfos done, other.ename = ei.ename → other = ei)
    (emitted : Emitted dump ei) : ei ∈ enuminfos done := by
  obtain ⟨entry, member, found⟩ := emitted
  obtain ⟨other, stored, -, known⟩ := kept.source entry member
  rwa [tagged other stored (kept.valid.injective _ _ _ known found)] at stored

theorem EnumsKept.skip (kept : EnumsKept done dump) (tag : g.enuminfo? = some ei)
    (tagged : ∀ other ∈ enuminfos done, other.ename = ei.ename → other = ei)
    (known : ei.ename ∈ dump.table.enums.cache) : EnumsKept (done ++ [g]) dump := by
  have stored (emitted : ∀ other ∈ enuminfos (done ++ [g]), Emitted dump other) :
      ei ∈ enuminfos done :=
    kept.mem_of_emitted tagged (emitted ei ((mem_enuminfos_snoc tag).mpr (.inr rfl)))
  have former (emitted : ∀ other ∈ enuminfos (done ++ [g]), Emitted dump other) :
      ∀ other ∈ enuminfos done, Emitted dump other :=
    fun other member => emitted other ((mem_enuminfos_snoc tag).mpr (.inl member))
  constructor
  · exact kept.valid
  · intro entry member
    obtain ⟨other, inside, made⟩ := kept.source entry member
    exact ⟨other, (mem_enuminfos_snoc tag).mpr (.inl inside), made⟩
  · exact kept.once
  · intro other member
    rcases (mem_enuminfos_snoc tag).mp member with before | rfl
    · exact kept.seen other before
    · exact known
  · intro name member
    rw [namesOf_snoc]
    exact List.mem_append_left _ (kept.known name member)
  · intro emitted name member
    rw [namesOf_snoc, List.mem_append] at member
    rcases member with before | here
    · exact kept.full (former emitted) name before
    · obtain ⟨earlier, inside, same⟩ := List.mem_filterMap.mp (stored emitted)
      rw [names_of_enuminfo tag, ← names_of_enuminfo same] at here
      exact kept.full (former emitted) name (names_subset_namesOf inside here)
  · rw [tagsFresh_snoc, ← kept.fresh]
    constructor
    · intro emitted
      refine ⟨former emitted, fun other same _ => ?_⟩
      rw [tag, Option.some.injEq] at same
      exact same ▸ stored emitted
    · rintro ⟨emitted, first⟩ other member
      rcases (mem_enuminfos_snoc tag).mp member with before | rfl
      · exact emitted other before
      · exact emitted other (first other tag (kept.known _ known))

theorem EnumsKept.emit (kept : EnumsKept done dump) (tag : g.enuminfo? = some ei)
    (new : ei.ename ∉ dump.table.enums.cache)
    (entries : next.enums = (enumToJson ei dump.table).1 :: dump.enums)
    (table : next.table = (enumToJson ei dump.table).2) : EnumsKept (done ++ [g]) next := by
  have grown : next.table.enums = dump.table.enums.register enumBase g.names := by
    rw [table, names_of_enuminfo tag, Interner.register_append, Interner.register_singleton]
    rfl
  have found : next.table.enums.cache.lookup ei.ename =
      some (enumToJson ei dump.table).1.ceId := by
    rw [table]
    exact Interner.lookup_intern_self _
  have valid : next.table.enums.Valid enumBase := by
    rw [grown]
    exact kept.valid.register _
  have stays {name : String} {id : Int} (old : dump.table.enums.cache.lookup name = some id) :
      next.table.enums.cache.lookup name = some id := by
    rw [grown]
    exact Interner.lookup_register_of_some old _
  -- the new entry has no id of an enum that is known
  have apart (name : String) (member : name ∈ dump.table.enums.cache) :
      next.table.enums.cache.lookup name ≠ some (enumToJson ei dump.table).1.ceId := by
    intro same
    rw [valid.injective _ _ _ same found] at member
    exact new member
  have here : Emitted next ei :=
    ⟨_, entries ▸ List.mem_cons_self, found⟩
  have former : ∀ other ∈ enuminfos done, (Emitted next other ↔ Emitted dump other) := by
    intro other member
    obtain ⟨id, old⟩ := lookup_of_mem (kept.seen other member)
    constructor
    · rintro ⟨entry, inside, lookup⟩
      rw [entries, List.mem_cons] at inside
      rcases inside with rfl | inside
      · exact absurd lookup (apart _ (kept.seen other member))
      · rw [stays old] at lookup
        exact ⟨entry, inside, old.trans lookup⟩
    · rintro ⟨entry, inside, lookup⟩
      exact ⟨entry, entries ▸ List.mem_cons_of_mem _ inside, stays lookup⟩
  have same : (∀ other ∈ enuminfos (done ++ [g]), Emitted next other) ↔
      ∀ other ∈ enuminfos done, Emitted dump other := by
    constructor
    · intro emitted other member
      exact (former other member).mp (emitted other ((mem_enuminfos_snoc tag).mpr (.inl member)))
    · intro emitted other member
      rcases (mem_enuminfos_snoc tag).mp member with before | rfl
      · exact (former other before).mpr (emitted other before)
      · exact here
  constructor
  · exact valid
  · intro entry member
    rw [entries, List.mem_cons] at member
    rcases member with rfl | member
    · exact ⟨ei, (mem_enuminfos_snoc tag).mpr (.inr rfl), ⟨_, rfl⟩, found⟩
    · obtain ⟨other, inside, made, lookup⟩ := kept.source entry member
      exact ⟨other, (mem_enuminfos_snoc tag).mpr (.inl inside), made, stays lookup⟩
  · rw [entries, List.map_cons, List.nodup_cons]
    refine ⟨fun member => ?_, kept.once⟩
    obtain ⟨entry, inside, id⟩ := List.mem_map.mp member
    obtain ⟨other, stored, -, lookup⟩ := kept.source entry inside
    exact apart _ (kept.seen other stored) (id ▸ stays lookup)
  · intro other member
    rw [grown, Interner.mem_register]
    rcases (mem_enuminfos_snoc tag).mp member with before | rfl
    · exact .inr (kept.seen other before)
    · rw [names_of_enuminfo tag]
      exact .inl (List.mem_append_right _ (List.mem_singleton_self _))
  · intro name member
    rw [grown, Interner.mem_register] at member
    rw [namesOf_snoc, List.mem_append]
    exact member.symm.imp (kept.known name) id
  · intro emitted name member
    rw [namesOf_snoc, List.mem_append] at member
    rw [grown, Interner.mem_register]
    exact member.symm.imp id (kept.full (same.mp emitted) name)
  · rw [same, tagsFresh_snoc, ← kept.fresh]
    constructor
    · intro emitted
      refine ⟨emitted, fun other otherTag inside => ?_⟩
      rw [tag, Option.some.injEq] at otherTag
      subst otherTag
      exact absurd (kept.full emitted _ inside) new
    · exact And.left

end Run

section Composites

/-- These facts hold in the first pass after the globals `done`. -/
structure CompositesKept (done : List (Global Others)) (dump : Dump Others) : Prop where
  source : ∀ entry ∈ dump.composites, ∃ ci ∈ compinfos done, ∃ table : IdentTable Others,
    entry = (compositeToJson ci table).1
  listed : ∀ ci ∈ compinfos done, ∃ entry ∈ dump.composites, entry.ccId = compBase + ci.ckey
  once : (dump.composites.map CompositeJson.ccId).Nodup

variable {done : List (Global Others)} {dump next : Dump Others} {g : Global Others}
  {ci : Compinfo Others}

theorem compinfos_snoc_none (plain : g.compinfo? = none) :
    compinfos (done ++ [g]) = compinfos done := by
  simp [compinfos, plain]

theorem mem_compinfos_snoc {other : Compinfo Others} (tag : g.compinfo? = some ci) :
    other ∈ compinfos (done ++ [g]) ↔ other ∈ compinfos done ∨ other = ci := by
  simp [compinfos, tag]

theorem CompositesKept.same (kept : CompositesKept done dump) (plain : g.compinfo? = none)
    (entries : next.composites = dump.composites) : CompositesKept (done ++ [g]) next := by
  constructor
  · rw [entries, compinfos_snoc_none plain]
    exact kept.source
  · rw [entries, compinfos_snoc_none plain]
    exact kept.listed
  · rw [entries]
    exact kept.once

theorem CompositesKept.dumpComposite (kept : CompositesKept done dump)
    (tag : g.compinfo? = some ci) : CompositesKept (done ++ [g]) (dumpComposite dump ci) := by
  rw [Export.dumpComposite]
  split
  · rename_i found
    obtain ⟨entry, member, same⟩ := List.any_eq_true.mp found
    constructor
    · intro entry member
      obtain ⟨other, inside, made⟩ := kept.source entry member
      exact ⟨other, (mem_compinfos_snoc tag).mpr (.inl inside), made⟩
    · intro other member'
      rcases (mem_compinfos_snoc tag).mp member' with before | rfl
      · exact kept.listed other before
      · exact ⟨entry, member, eq_of_beq same⟩
    · exact kept.once
  · rename_i missing
    constructor
    · intro entry member
      rcases List.mem_cons.mp member with rfl | member
      · exact ⟨ci, (mem_compinfos_snoc tag).mpr (.inr rfl), _, rfl⟩
      · obtain ⟨other, inside, made⟩ := kept.source entry member
        exact ⟨other, (mem_compinfos_snoc tag).mpr (.inl inside), made⟩
    · intro other member
      rcases (mem_compinfos_snoc tag).mp member with before | rfl
      · obtain ⟨entry, inside, id⟩ := kept.listed other before
        exact ⟨entry, List.mem_cons_of_mem _ inside, id⟩
      · exact ⟨_, List.mem_cons_self, rfl⟩
    · refine List.nodup_cons.mpr ⟨fun member => missing ?_, kept.once⟩
      obtain ⟨entry, inside, id⟩ := List.mem_map.mp member
      exact List.any_eq_true.mpr ⟨entry, inside, beq_iff_eq.mpr id⟩

/-- A composite that is listed has its names in the table. -/
theorem CompositesKept.names (kept : CompositesKept done dump) (tag : g.compinfo? = some ci)
    (keyed : ∀ other ∈ compinfos done, other.ckey = ci.ckey → other = ci)
    (found : (dump.composites.any fun j => j.ccId == compBase + ci.ckey) = true) :
    g.names ⊆ namesOf done := by
  obtain ⟨entry, member, same⟩ := List.any_eq_true.mp found
  obtain ⟨other, stored, table, rfl⟩ := kept.source entry member
  have id : compBase + other.ckey = compBase + ci.ckey := eq_of_beq same
  rw [keyed other stored (by omega)] at stored
  obtain ⟨earlier, inside, tag'⟩ := List.mem_filterMap.mp stored
  have fields (h : Global Others) (tagged : h.compinfo? = some ci) :
      h.names = (ci.cfields.getD []).flatMap Piece.enums := by
    cases h <;> cases tagged <;> rfl
  rw [fields g tag, ← fields earlier tag']
  exact names_subset_namesOf inside

end Composites

section Passes

/-- Equal keys and equal tags are those of one record. -/
structure Unambiguous (globals : List (Global Others)) : Prop where
  keyed : ∀ ci ∈ compinfos globals, ∀ other ∈ compinfos globals, ci.ckey = other.ckey → ci = other
  tagged : ∀ ei ∈ enuminfos globals, ∀ other ∈ enuminfos globals,
    ei.ename = other.ename → ei = other

variable {done : List (Global Others)} {dump : Dump Others} {g : Global Others}

theorem Unambiguous.init (unambiguous : Unambiguous (done ++ [g])) : Unambiguous done := by
  have comps : compinfos done ⊆ compinfos (done ++ [g]) :=
    List.filterMap_subset _ (List.subset_append_left _ _)
  have enums : enuminfos done ⊆ enuminfos (done ++ [g]) :=
    List.filterMap_subset _ (List.subset_append_left _ _)
  exact ⟨fun ci stored other found => unambiguous.keyed ci (comps stored) other (comps found),
    fun ei stored other found => unambiguous.tagged ei (enums stored) other (enums found)⟩

theorem kept_dumpEnum {ei : Enuminfo} (unambiguous : Unambiguous (done ++ [g]))
    (tag : g.enuminfo? = some ei) (kept : EnumsKept done dump) :
    EnumsKept (done ++ [g]) (dumpEnum dump ei) := by
  have tagged : ∀ other ∈ enuminfos done, other.ename = ei.ename → other = ei :=
    fun other stored => unambiguous.tagged other ((mem_enuminfos_snoc tag).mpr (.inl stored)) ei
      ((mem_enuminfos_snoc tag).mpr (.inr rfl))
  rw [dumpEnum]
  split
  · rename_i known
    exact kept.skip tag tagged (AList.lookup_isSome.mp known)
  · rename_i new
    exact kept.emit tag (fun known => new (AList.lookup_isSome.mpr known)) rfl rfl

theorem kept_dumpComposite {ci : Compinfo Others} (unambiguous : Unambiguous (done ++ [g]))
    (tag : g.compinfo? = some ci) (plain : g.enuminfo? = none)
    (names : g.names = (ci.cfields.getD []).flatMap Piece.enums) (kept : EnumsKept done dump)
    (composites : CompositesKept done dump) :
    EnumsKept (done ++ [g]) (dumpComposite dump ci) := by
  have keyed : ∀ other ∈ compinfos done, other.ckey = ci.ckey → other = ci :=
    fun other stored => unambiguous.keyed other ((mem_compinfos_snoc tag).mpr (.inl stored)) ci
      ((mem_compinfos_snoc tag).mpr (.inr rfl))
  rw [dumpComposite]
  split
  · rename_i found
    have known := composites.names tag keyed found
    exact kept.register [] plain rfl rfl (List.nil_subset _)
      fun name inside => .inr (known inside)
  · have converted := (takes_convertAll (ci.cfields.getD []) dump.table).enums
    exact kept.register _ plain rfl converted (fun name inside => names ▸ inside)
      fun name inside => .inl (names ▸ inside)

theorem kept_dumpTypesAndBodies (unambiguous : Unambiguous (done ++ [g]))
    (kept : EnumsKept done dump) (composites : CompositesKept done dump) :
    EnumsKept (done ++ [g]) (dumpTypesAndBodies dump g) ∧
      CompositesKept (done ++ [g]) (dumpTypesAndBodies dump g) := by
  have entries (ei : Enuminfo) : (dumpEnum dump ei).composites = dump.composites := by
    rw [dumpEnum]
    split <;> rfl
  cases g with
  | compTag ci | compTagDecl ci =>
      exact ⟨kept_dumpComposite unambiguous rfl rfl rfl kept composites,
        composites.dumpComposite rfl⟩
  | enumTag ei | enumTagDecl ei =>
      exact ⟨kept_dumpEnum unambiguous rfl kept, composites.same rfl (entries ei)⟩
  | var vid piece =>
      exact ⟨kept.register piece.enums rfl rfl rfl (List.Subset.refl _)
        fun _ => .inl, composites.same rfl rfl⟩
  | «fun» fundec =>
      exact ⟨kept.register _ rfl rfl (takes_internalFunToJson fundec dump.table).enums
        (List.Subset.refl _) fun _ => .inl, composites.same rfl rfl⟩
  | funDecl _ _ _ | varDecl _ _ | unread =>
      exact ⟨kept.register [] rfl rfl rfl (List.Subset.refl _) fun _ => .inl,
        composites.same rfl rfl⟩

theorem kept_foldl (others : Others) (globals : List (Global Others))
    (unambiguous : Unambiguous globals) :
    EnumsKept globals (globals.foldl dumpTypesAndBodies { table := createIdentTable others }) ∧
      CompositesKept globals
        (globals.foldl dumpTypesAndBodies { table := createIdentTable others }) := by
  induction globals using List.reverseRecOn with
  | nil =>
      constructor
      · constructor
        · exact Interner.valid_empty _
        · exact fun _ member => absurd member List.not_mem_nil
        · exact .nil
        · exact fun _ member => absurd member List.not_mem_nil
        · exact fun _ member => absurd member (AList.notMem_empty _)
        · exact fun _ _ member => absurd member List.not_mem_nil
        · exact iff_of_true (fun _ member => absurd member List.not_mem_nil) tagsFresh_nil
      · constructor
        · exact fun _ member => absurd member List.not_mem_nil
        · exact fun _ member => absurd member List.not_mem_nil
        · exact .nil
  | append_singleton done g ih =>
      rw [List.foldl_append]
      obtain ⟨kept, composites⟩ := ih unambiguous.init
      exact kept_dumpTypesAndBodies unambiguous kept composites

/-- The second pass keeps the lists of types, and the table grows. -/
theorem foldl_dumpDeclarations (globals : List (Global Others)) (dump : Dump Others) :
    (globals.foldl dumpDeclarations dump).composites = dump.composites ∧
      (globals.foldl dumpDeclarations dump).enums = dump.enums ∧
      ∃ names, (globals.foldl dumpDeclarations dump).table.enums =
        dump.table.enums.register enumBase names := by
  induction globals generalizing dump with
  | nil => exact ⟨rfl, rfl, [], rfl⟩
  | cons g rest ih =>
      obtain ⟨composites, enums, names, grown⟩ := ih (dumpDeclarations dump g)
      have step : (dumpDeclarations dump g).composites = dump.composites ∧
          (dumpDeclarations dump g).enums = dump.enums ∧
          ∃ names, (dumpDeclarations dump g).table.enums =
            dump.table.enums.register enumBase names := by
        cases g with
        | funDecl vid isFun decl =>
            rw [dumpDeclarations]
            split
            · exact ⟨rfl, rfl, decl.enums, rfl⟩
            · exact ⟨rfl, rfl, [], rfl⟩
        | varDecl vid decl =>
            rw [dumpDeclarations]
            split
            · exact ⟨rfl, rfl, [], rfl⟩
            · exact ⟨rfl, rfl, decl.enums, rfl⟩
        | _ => exact ⟨rfl, rfl, [], rfl⟩
      obtain ⟨composites', enums', names', grown'⟩ := step
      refine ⟨composites.trans composites', enums.trans enums', names' ++ names, ?_⟩
      rw [List.foldl_cons, grown, grown', Interner.register_append]

end Passes

section Completeness

/-- The enum has one entry in the dump, under the id of its tag. -/
def EnumListed (dump : Dump Others) (ei : Enuminfo) : Prop :=
  ∃ table : IdentTable Others,
    dump.table.enums.cache.lookup ei.ename = some (enumToJson ei table).1.ceId ∧
    dump.enums.filter (fun entry => entry.ceId == (enumToJson ei table).1.ceId) =
      [(enumToJson ei table).1]

/-- The struct or union has one entry in the dump, under the id of its key. -/
def CompositeListed (dump : Dump Others) (ci : Compinfo Others) : Prop :=
  ∃ table : IdentTable Others,
    dump.composites.filter (fun entry => entry.ccId == compBase + ci.ckey) =
      [(compositeToJson ci table).1]

/-- The dump of a file gives no id to two statements and lists each definition of a type once. -/
structure CompleteDump (file : File Others) : Prop where
  ids : (dumpProject file).siIds.Nodup
  enums : ∀ ei ∈ enuminfos file.globals, EnumListed (dumpProject file) ei
  composites : ∀ ci ∈ compinfos file.globals, CompositeListed (dumpProject file) ci

theorem File.unambiguous (file : File Others) : Unambiguous file.globals :=
  ⟨file.keyed, file.tagged⟩

theorem compositeListed (file : File Others) {ci : Compinfo Others}
    (member : ci ∈ compinfos file.globals) : CompositeListed (dumpProject file) ci := by
  obtain ⟨-, kept⟩ := kept_foldl file.others file.globals file.unambiguous
  obtain ⟨composites, -⟩ := foldl_dumpDeclarations file.globals
    (file.globals.foldl dumpTypesAndBodies { table := createIdentTable file.others })
  obtain ⟨entry, inside, id⟩ := kept.listed ci member
  obtain ⟨other, stored, table, rfl⟩ := kept.source entry inside
  have sum : compBase + other.ckey = compBase + ci.ckey := id
  obtain rfl := file.keyed other stored ci member (by omega)
  refine ⟨table, ?_⟩
  have only := filter_eq_singleton CompositeJson.ccId kept.once inside
  rw [dumpProject, Dump.ordered, composites, List.filter_reverse]
  exact congrArg List.reverse only

theorem enumListed_iff (file : File Others) :
    (∀ ei ∈ enuminfos file.globals, EnumListed (dumpProject file) ei) ↔
      TagsFresh file.globals := by
  obtain ⟨kept, -⟩ := kept_foldl file.others file.globals file.unambiguous
  obtain ⟨-, enums, names, grown⟩ := foldl_dumpDeclarations file.globals
    (file.globals.foldl dumpTypesAndBodies { table := createIdentTable file.others })
  rw [← kept.fresh]
  apply forall₂_congr
  intro ei member
  have emitted := emitted_iff (kept.seen ei member) enums grown
  constructor
  · rintro ⟨table, found, only⟩
    apply emitted.mp
    have inside : (enumToJson ei table).1 ∈ (dumpProject file).enums.filter
        fun entry => entry.ceId == (enumToJson ei table).1.ceId := by
      rw [only]
      exact List.mem_singleton_self _
    exact ⟨_, List.mem_reverse.mp (List.mem_filter.mp inside).1, found⟩
  · intro shown
    obtain ⟨entry, inside, found⟩ := emitted.mpr shown
    obtain ⟨other, stored, ⟨table, rfl⟩, known⟩ := kept.source entry (enums ▸ inside)
    have same : other = ei := by
      obtain ⟨entry', inside', found'⟩ := shown
      rw [grown] at found
      have valid := kept.valid.register names
      exact file.tagged other stored ei member (valid.injective _ _ _
        (Interner.lookup_register_of_some known names) found)
    subst same
    refine ⟨table, found, ?_⟩
    have only := filter_eq_singleton EnumJson.ceId kept.once (enums ▸ inside)
    rw [dumpProject, Dump.ordered, enums, List.filter_reverse]
    exact congrArg List.reverse only

/-- A dump is complete where the blocks of ids do not meet and each tag is new at its first
definition. -/
theorem completeDump_iff (file : File Others) :
    CompleteDump file ↔ (idSpans file).Pairwise Span.Apart ∧ TagsFresh file.globals := by
  rw [← siIds_nodup_iff, ← enumListed_iff]
  constructor
  · intro complete
    exact ⟨complete.ids, complete.enums⟩
  · rintro ⟨ids, enums⟩
    exact ⟨ids, enums, fun ci => compositeListed file⟩

/-- The enumerator of the first enum has the name of the second one. -/
def clashingFile : File Unit where
  globals := [.enumTag ⟨"A", [⟨"B", 0⟩], "IInt", .null⟩, .enumTag ⟨"B", [⟨"C", 0⟩], "IInt", .null⟩]
  others := ()
  keyed := by simp [Global.compinfo?]
  tagged := by simp [Global.enuminfo?]

def value : Piece Unit where
  enums := []
  json := fun _ others => (.null, others)

/-- The initializer of statement 600 has two values, and the sequence gets the first id that is
made up. -/
def overlappingFile : File Unit where
  globals := [.fun {
    vid := 1, returnType := value, params := value, vars := value, storage := "STnone",
    inline := false, contract := value, loc := .null,
    body := .mk [] [
      .mk { sid := 600 } (.instr (.localInit (fun _ => value)
        (.compound [(["0"], .single value), (["1"], .single value)]))),
      .mk { sid := 601 } (.return none)] }]
  others := ()
  keyed := by simp [Global.compinfo?]
  tagged := by simp [Global.enuminfo?]

/-- One file loses an enum, and in the other one two statements share an id. -/
theorem not_completeDump_clashingFile :
    ¬CompleteDump clashingFile ∧ ¬(dumpProject overlappingFile).siIds.Nodup := by
  constructor
  · intro complete
    have fresh := (enumListed_iff clashingFile).mp complete.enums
    have listed := fresh [.enumTag ⟨"A", [⟨"B", 0⟩], "IInt", .null⟩]
      (.enumTag ⟨"B", [⟨"C", 0⟩], "IInt", .null⟩) ⟨"B", [⟨"C", 0⟩], "IInt", .null⟩
      List.prefix_rfl rfl (by decide)
    simp [enuminfos, Global.enuminfo?] at listed
  · have ids : (dumpProject overlappingFile).siIds = [6000000, 600, 6000000, 6000001, 601] := by
      decide
    rw [ids]
    decide

end Completeness

end FramaCMcp.Export
