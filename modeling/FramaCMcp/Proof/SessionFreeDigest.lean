/-
This file says which gaps have a digest that does not depend on the session.
-/

import FramaCMcp.Construction.Digests

namespace FramaCMcp.IncompleteDigest

open Json

def isLasting {Value : Type} (field : String × Value) : Bool := field.1 ∉ sessionScoped

mutual

/-- This is the value without its markers, in its own order. -/
def plain : Json → Json
  | .obj fields => .obj (plainFields fields)
  | .arr items => .arr (plainItems items)
  | other => other

def plainItems : List Json → List Json
  | [] => []
  | item :: rest => plain item :: plainItems rest

def plainFields : List (String × Json) → List (String × Json)
  | [] => []
  | (key, value) :: rest =>
      if key ∈ sessionScoped then plainFields rest else (key, plain value) :: plainFields rest

end

mutual

/-- Each object has at most one field beside its markers. -/
def isNarrow : Json → Bool
  | .obj fields => decide ((fields.filter isLasting).length ≤ 1) && fieldsNarrow fields
  | .arr items => itemsNarrow items
  | _ => true

def itemsNarrow : List Json → Bool
  | [] => true
  | item :: rest => isNarrow item && itemsNarrow rest

def fieldsNarrow : List (String × Json) → Bool
  | [] => true
  | (key, value) :: rest =>
      (decide (key ∈ sessionScoped) || isNarrow value) && fieldsNarrow rest

end

theorem stripFields_eq (fields : List (String × Json)) :
    stripFields fields = fields.map (Prod.map id stripSessionScoped) := by
  induction fields with
  | nil => rfl
  | cons field rest ih =>
      rcases field with ⟨key, value⟩
      rw [stripFields, ih]
      rfl

theorem stripItems_eq (items : List Json) : stripItems items = items.map stripSessionScoped := by
  induction items with
  | nil => rfl
  | cons item rest ih =>
      rw [stripItems, ih]
      rfl

theorem plainItems_eq (items : List Json) : plainItems items = items.map plain := by
  induction items with
  | nil => rfl
  | cons item rest ih =>
      rw [plainItems, ih]
      rfl

theorem plainFields_eq (fields : List (String × Json)) :
    plainFields fields = (fields.filter isLasting).map (Prod.map id plain) := by
  induction fields with
  | nil => rfl
  | cons field rest ih =>
      rcases field with ⟨key, value⟩
      rw [plainFields]
      by_cases marker : key ∈ sessionScoped
      · rw [if_pos marker, ih, List.filter_cons_of_neg (by simp [isLasting, marker])]
      · rw [if_neg marker, ih, List.filter_cons_of_pos (by simp [isLasting, marker])]
        rfl

theorem itemsNarrow_iff (items : List Json) :
    itemsNarrow items = true ↔ ∀ item ∈ items, isNarrow item = true := by
  induction items with
  | nil => simp [itemsNarrow]
  | cons item rest ih => rw [itemsNarrow, Bool.and_eq_true, ih, List.forall_mem_cons]

theorem fieldsNarrow_iff (fields : List (String × Json)) :
    fieldsNarrow fields = true ↔ ∀ field ∈ fields.filter isLasting, isNarrow field.2 = true := by
  induction fields with
  | nil => simp [fieldsNarrow]
  | cons field rest ih =>
      rcases field with ⟨key, value⟩
      rw [fieldsNarrow, Bool.and_eq_true, ih]
      by_cases marker : key ∈ sessionScoped
      · rw [List.filter_cons_of_neg (by simp [isLasting, marker])]
        simp [marker]
      · rw [List.filter_cons_of_pos (by simp [isLasting, marker]), List.forall_mem_cons]
        simp [marker]

/-- The removal keeps the lasting fields in some order. -/
theorem removeMarkers_perm {Value : Type} (markers : List String)
    {fields : List (String × Value)} (distinct : (fields.map Prod.fst).Nodup) :
    (markers.foldl (fun rest marker => swapRemove marker rest) fields).Perm
      (fields.filter fun field => field.1 ∉ markers) := by
  induction markers generalizing fields with
  | nil =>
      rw [List.foldl_nil, List.filter_eq_self.mpr]
      intro field _
      simp
  | cons marker markers ih =>
      have first := swapRemove_perm marker distinct
      have kept : ((swapRemove marker fields).map Prod.fst).Nodup := by
        apply (first.map Prod.fst).nodup_iff.mpr
        exact distinct.sublist (List.filter_sublist.map _)
      refine (ih kept).trans ((first.filter _).trans ?_)
      rw [List.filter_filter]
      apply List.Perm.of_eq
      apply List.filter_congr
      intro field _
      simp [Bool.and_comm]

variable {fields : List (String × Json)} {entries : List JsonValue}

theorem removeMarkers_lasting (distinct : (fields.map Prod.fst).Nodup) :
    (removeMarkers fields).Perm (fields.filter isLasting) :=
  removeMarkers_perm sessionScoped distinct

theorem removeMarkers_of_lasting (lasting : ∀ field ∈ fields, isLasting field = true) :
    removeMarkers fields = fields := by
  have absent {marker : String} (member : marker ∈ sessionScoped) :
      ∀ field ∈ fields, field.1 ≠ marker := by
    rintro field inside rfl
    exact absurd member (of_decide_eq_true (lasting field inside))
  show swapRemove _ (swapRemove _ (swapRemove _ fields)) = fields
  rw [swapRemove_of_absent _ (absent (by decide)), swapRemove_of_absent _ (absent (by decide)),
    swapRemove_of_absent _ (absent (by decide))]

theorem filter_stripFields (fields : List (String × Json)) :
    (stripFields fields).filter isLasting =
      (fields.filter isLasting).map (Prod.map id stripSessionScoped) := by
  rw [stripFields_eq, List.filter_map]
  rfl

theorem keys_stripFields (fields : List (String × Json)) :
    (stripFields fields).map Prod.fst = fields.map Prod.fst := by
  rw [stripFields_eq, List.map_map]
  rfl

/-- The stripped object has the lasting fields in some order. -/
theorem stripped_perm (distinct : keysNodup fields = true) :
    (removeMarkers (stripFields fields)).Perm
      ((fields.filter isLasting).map (Prod.map id stripSessionScoped)) := by
  rw [← filter_stripFields]
  apply removeMarkers_lasting
  rw [keys_stripFields]
  exact of_decide_eq_true distinct

theorem eq_of_perm_of_short {Item : Type} {left right : List Item} (permuted : left.Perm right)
    (short : right.length ≤ 1) : left = right := by
  rcases right with _ | ⟨item, _ | ⟨other, rest⟩⟩
  · exact permuted.eq_nil
  · exact List.perm_singleton.mp permuted
  · simp at short

/-- A narrow value keeps its order. -/
theorem stripSessionScoped_narrow (value : Json) (distinct : value.isDistinct = true)
    (narrow : isNarrow value = true) : stripSessionScoped value = plain value := by
  induction value using Json.nestedInduction with
  | arr items ih =>
      rw [isDistinct, itemsDistinct_iff] at distinct
      rw [isNarrow, itemsNarrow_iff] at narrow
      rw [stripSessionScoped, plain, stripItems_eq, plainItems_eq]
      congr 1
      exact List.map_congr_left fun item member =>
        ih item member (distinct item member) (narrow item member)
  | obj fields ih =>
      obtain ⟨keys, inner⟩ := Bool.and_eq_true_iff.mp distinct
      obtain ⟨short, each⟩ := Bool.and_eq_true_iff.mp narrow
      rw [fieldsDistinct_iff] at inner
      rw [fieldsNarrow_iff] at each
      have same : (fields.filter isLasting).map (Prod.map id stripSessionScoped) =
          (fields.filter isLasting).map (Prod.map id plain) := by
        apply List.map_congr_left
        intro field member
        have inside := List.mem_of_mem_filter member
        rw [Prod.map, ih field inside (inner field inside) (each field member)]
        rfl
      rw [stripSessionScoped, plain, plainFields_eq, ← same]
      congr 1
      apply eq_of_perm_of_short (stripped_perm keys)
      rw [List.length_map]
      exact of_decide_eq_true short
  | _ => rfl

theorem isNarrow_obj_iff (fields : List (String × Json)) :
    isNarrow (.obj fields) = true ↔ (fields.filter isLasting).length ≤ 1 ∧
      ∀ field ∈ fields.filter isLasting, isNarrow field.2 = true := by
  rw [isNarrow, Bool.and_eq_true, fieldsNarrow_iff, decide_eq_true_iff]

/-- The lasting fields of an object decide whether it is narrow. -/
theorem isNarrow_obj_congr {fields others : List (String × Json)} {change : Json → Json}
    (permuted : (others.filter isLasting).Perm
      ((fields.filter isLasting).map (Prod.map id change)))
    (same : ∀ field ∈ fields, isNarrow (change field.2) = isNarrow field.2) :
    isNarrow (.obj others) = isNarrow (.obj fields) := by
  rw [Bool.eq_iff_iff, isNarrow_obj_iff, isNarrow_obj_iff, permuted.length_eq, List.length_map]
  apply and_congr_right
  intro _
  constructor
  · intro narrow field member
    rw [← same field (List.mem_of_mem_filter member)]
    exact narrow _ (permuted.symm.subset (List.mem_map_of_mem member))
  · intro narrow field member
    obtain ⟨own, inside, rfl⟩ := List.mem_map.mp (permuted.subset member)
    exact (same own (List.mem_of_mem_filter inside)).trans (narrow own inside)

theorem lasting_of_map {change : Json → Json} :
    ∀ field ∈ (fields.filter isLasting).map (Prod.map id change), isLasting field = true := by
  intro field member
  obtain ⟨own, inside, rfl⟩ := List.mem_map.mp member
  exact (List.mem_filter.mp inside).2

/-- The change keeps the items in their order, and of an object it keeps the lasting fields in some
order, with at most one marker more. -/
structure Rebuilds (change : Json → Json) : Prop where
  atoms : ∀ value, (∀ items, value ≠ .arr items) → (∀ fields, value ≠ .obj fields) →
    change value = value
  items : ∀ items, change (.arr items) = .arr (items.map change)
  fields : ∀ fields, keysNodup fields = true → ∃ front kept : List (String × Json),
    front.Sublist [("property", .null)] ∧ change (.obj fields) = .obj kept ∧
      kept.Perm (front ++ (fields.filter isLasting).map (Prod.map id change))

namespace Rebuilds

variable {change : Json → Json}

theorem isNarrow_eq (rebuilds : Rebuilds change) (value : Json) (distinct : value.isDistinct = true) :
    isNarrow (change value) = isNarrow value := by
  induction value using Json.nestedInduction with
  | arr items ih =>
      rw [isDistinct, itemsDistinct_iff] at distinct
      rw [rebuilds.items, isNarrow, isNarrow, Bool.eq_iff_iff, itemsNarrow_iff, itemsNarrow_iff]
      simp only [List.forall_mem_map]
      exact forall₂_congr fun item member => by rw [ih item member (distinct item member)]
  | obj fields ih =>
      obtain ⟨keys, inner⟩ := Bool.and_eq_true_iff.mp distinct
      rw [fieldsDistinct_iff] at inner
      obtain ⟨front, kept, marker, changed, permuted⟩ := rebuilds.fields fields keys
      have none : front.filter isLasting = [] :=
        List.sublist_nil.mp (marker.filter isLasting)
      rw [changed]
      refine isNarrow_obj_congr ?_ fun field member => ih field member (inner field member)
      have lasting := permuted.filter isLasting
      rw [List.filter_append, none, List.filter_eq_self.mpr lasting_of_map] at lasting
      exact lasting
  | _ => rw [rebuilds.atoms _ (by simp) (by simp)]

theorem keeps (rebuilds : Rebuilds change) (value : Json) (distinct : value.isDistinct = true) :
    (change value).isDistinct = true ∧
      (value.isSpelled = true → (change value).isSpelled = true) := by
  induction value using Json.nestedInduction with
  | arr items ih =>
      simp only [rebuilds.items, isDistinct, itemsDistinct_iff, isSpelled, itemsSpelled_iff,
        List.forall_mem_map] at distinct ⊢
      exact ⟨fun item member => (ih item member (distinct item member)).1,
        fun spelled item member => (ih item member (distinct item member)).2 (spelled item member)⟩
  | obj fields ih =>
      obtain ⟨keys, inner⟩ := Bool.and_eq_true_iff.mp distinct
      rw [fieldsDistinct_iff] at inner
      obtain ⟨front, kept, marker, changed, permuted⟩ := rebuilds.fields fields keys
      have each (Holds : Json → Prop) (null : Holds .null)
          (inside : ∀ field ∈ fields, Holds (change field.2)) : ∀ field ∈ kept, Holds field.2 := by
        intro field member
        rcases List.mem_append.mp (permuted.subset member) with first | rest
        · rw [List.mem_singleton.mp (marker.subset first)]
          exact null
        · obtain ⟨own, part, rfl⟩ := List.mem_map.mp rest
          exact inside own (List.mem_of_mem_filter part)
      have names : (kept.map Prod.fst).Nodup := by
        rw [(permuted.map Prod.fst).nodup_iff, List.map_append, List.map_map]
        refine List.nodup_append'.mpr ⟨(marker.map Prod.fst).nodup (by decide), ?_, ?_⟩
        · exact (of_decide_eq_true keys : (fields.map Prod.fst).Nodup).sublist
            (List.filter_sublist.map _)
        · intro name first rest
          obtain ⟨field, inside, named⟩ := List.mem_map.mp rest
          have lasting := (List.mem_filter.mp inside).2
          have same : field.1 = "property" :=
            named.trans (List.mem_singleton.mp ((marker.map Prod.fst).subset first))
          rw [isLasting, same] at lasting
          exact absurd lasting (by decide)
      rw [changed, isDistinct, isSpelled, Bool.and_eq_true, fieldsDistinct_iff, isSpelled,
        fieldsSpelled_iff, fieldsSpelled_iff]
      exact ⟨⟨decide_eq_true names, each (·.isDistinct = true) rfl fun field member =>
          (ih field member (inner field member)).1⟩,
        fun spelled => each (·.isSpelled = true) rfl fun field member =>
          (ih field member (inner field member)).2 (spelled field member)⟩
  | _ => rw [rebuilds.atoms _ (by simp) (by simp)]; exact ⟨distinct, id⟩

end Rebuilds

theorem rebuilds_plain : Rebuilds plain where
  atoms value items fields := by cases value <;> simp_all [plain]
  items items := by rw [plain, plainItems_eq]
  fields fields _ := ⟨[], _, List.nil_sublist _, by rw [plain, plainFields_eq]; rfl, .refl _⟩

theorem rebuilds_stripSessionScoped : Rebuilds stripSessionScoped where
  atoms value items fields := by cases value <;> simp_all [stripSessionScoped]
  items items := by rw [stripSessionScoped, stripItems_eq]
  fields fields keys := ⟨[], _, List.nil_sublist _, by rw [stripSessionScoped], stripped_perm keys⟩

theorem lookup_plainFields (fields : List (String × Json)) {key : String}
    (lasting : key ∉ sessionScoped) :
    (plainFields fields).lookup key = (fields.lookup key).map plain := by
  induction fields with
  | nil => rfl
  | cons field rest ih =>
      rcases field with ⟨name, value⟩
      rw [plainFields, List.lookup_cons]
      by_cases same : key = name
      · subst same
        rw [if_neg lasting, List.lookup_cons_self, beq_self_eq_true]
        rfl
      · have other : (key == name) = false := beq_eq_false_iff_ne.mpr same
        rw [other]
        split_ifs
        · exact ih
        · rw [List.lookup_cons, other]
          exact ih

/-- The code of a gap is no marker. -/
theorem codeOf_plain (entry : Json) : codeOf (plain entry) = codeOf entry := by
  cases entry with
  | obj fields =>
      have read : (plain (.obj fields)).get "code" = (fields.lookup "code").map plain :=
        lookup_plainFields fields (by decide)
      rw [codeOf, codeOf, read, get_obj]
      cases fields.lookup "code" with
      | none => rfl
      | some value => cases value <;> rfl
  | _ => rfl

/-- The counts do not depend on the order of the codes. -/
theorem countCodes_perm {left right : List Json} (same : (left.map codeOf).Perm (right.map codeOf)) :
    countCodes left = countCodes right := by
  have commutes : ∀ first second (codes : OrderedMap String Nat),
      (codes.modify first 0 (· + 1)).modify second 0 (· + 1) =
        (codes.modify second 0 (· + 1)).modify first 0 (· + 1) := by
    intro first second codes
    apply OrderedMap.ext_lookup
    intro key
    by_cases equal : first = second
    · rw [equal]
    · simp only [OrderedMap.lookup_modify]
      by_cases one : key = first
      · subst one
        simp [equal]
      · by_cases two : key = second
        · subst two
          simp [Ne.symm equal]
        · simp [one, two]
  exact same.foldl_eq' (fun first _ second _ codes => commutes first second codes) OrderedMap.empty

mutual

/-- Each object gets one marker in front of its lasting fields. -/
def marked : Json → Json
  | .obj fields => .obj (("property", .null) :: markedFields fields)
  | .arr items => .arr (markedItems items)
  | other => other

def markedItems : List Json → List Json
  | [] => []
  | item :: rest => marked item :: markedItems rest

def markedFields : List (String × Json) → List (String × Json)
  | [] => []
  | (key, value) :: rest =>
      if key ∈ sessionScoped then markedFields rest else (key, marked value) :: markedFields rest

end

theorem markedItems_eq (items : List Json) : markedItems items = items.map marked := by
  induction items with
  | nil => rfl
  | cons item rest ih =>
      rw [markedItems, ih]
      rfl

theorem markedFields_eq (fields : List (String × Json)) :
    markedFields fields = (fields.filter isLasting).map (Prod.map id marked) := by
  induction fields with
  | nil => rfl
  | cons field rest ih =>
      rcases field with ⟨key, value⟩
      rw [markedFields]
      by_cases marker : key ∈ sessionScoped
      · rw [if_pos marker, ih, List.filter_cons_of_neg (by simp [isLasting, marker])]
      · rw [if_neg marker, ih, List.filter_cons_of_pos (by simp [isLasting, marker])]
        rfl

theorem plain_marked (value : Json) : plain (marked value) = plain value := by
  induction value using Json.nestedInduction with
  | arr items ih =>
      rw [marked, plain, plain, markedItems_eq, plainItems_eq, plainItems_eq, List.map_map]
      congr 1
      exact List.map_congr_left ih
  | obj fields ih =>
      have front : isLasting ("property", Json.null) = false := by decide
      rw [marked, plain, plain, plainFields_eq, plainFields_eq, markedFields_eq,
        List.filter_cons_of_neg (by simp [front]), List.filter_eq_self.mpr lasting_of_map,
        List.map_map]
      congr 1
      apply List.map_congr_left
      intro field member
      exact Prod.ext rfl (ih field (List.mem_of_mem_filter member))
  | _ => rfl

theorem short_of_rotate_eq {Item : Type} {items : List Item} (distinct : items.Nodup)
    (same : items.getLast?.toList ++ items.dropLast = items) : items.length ≤ 1 := by
  induction items using List.reverseRecOn with
  | nil => exact Nat.zero_le _
  | append_singleton items last _ =>
      rw [List.getLast?_concat, List.dropLast_concat] at same
      cases items with
      | nil => exact Nat.le_refl _
      | cons first rest =>
          have equal : last = first := (List.cons.inj same).1
          rw [equal] at distinct
          simp at distinct

theorem strip_marked_fields (fields : List (String × Json)) :
    removeMarkers (stripFields (("property", .null) :: markedFields fields)) =
      ((fields.filter isLasting).map (Prod.map id (stripSessionScoped ∘ marked))).getLast?.toList ++
        ((fields.filter isLasting).map (Prod.map id (stripSessionScoped ∘ marked))).dropLast := by
  have inner : stripFields (markedFields fields) =
      (fields.filter isLasting).map (Prod.map id (stripSessionScoped ∘ marked)) := by
    rw [stripFields_eq, markedFields_eq, List.map_map]
    rfl
  have absent {marker : String} (member : marker ∈ sessionScoped) :
      ∀ field ∈ ((fields.filter isLasting).map
          (Prod.map id (stripSessionScoped ∘ marked))).getLast?.toList ++
          ((fields.filter isLasting).map (Prod.map id (stripSessionScoped ∘ marked))).dropLast,
        field.1 ≠ marker := by
    rintro field inside rfl
    exact absurd member (of_decide_eq_true (lasting_of_map field ((rotate_perm _).subset inside)))
  rw [stripFields, inner]
  show swapRemove "kinstr_marker" (swapRemove "property_marker" (swapRemove "property" _)) = _
  rw [swapRemove, if_pos rfl, swapRemove_of_absent _ (absent (by decide)),
    swapRemove_of_absent _ (absent (by decide))]

/-- The marked value keeps its order only where it is narrow. -/
theorem isNarrow_of_strip_marked (value : Json) (distinct : value.isDistinct = true)
    (same : stripSessionScoped (marked value) = plain value) : isNarrow value = true := by
  induction value using Json.nestedInduction with
  | arr items ih =>
      rw [isDistinct, itemsDistinct_iff] at distinct
      rw [marked, stripSessionScoped, plain, markedItems_eq, stripItems_eq, plainItems_eq,
        List.map_map, Json.arr.injEq] at same
      rw [isNarrow, itemsNarrow_iff]
      intro item member
      exact ih item member (distinct item member) (List.map_inj_left.mp same item member)
  | obj fields ih =>
      obtain ⟨keys, inner⟩ := Bool.and_eq_true_iff.mp distinct
      rw [fieldsDistinct_iff] at inner
      rw [marked, stripSessionScoped, plain, Json.obj.injEq, strip_marked_fields,
        plainFields_eq] at same
      have nodup : ((fields.filter isLasting).map Prod.fst).Nodup :=
        (of_decide_eq_true keys : (fields.map Prod.fst).Nodup).sublist
          (List.filter_sublist.map _)
      have keysOf (change : Json → Json) :
          ((fields.filter isLasting).map (Prod.map id change)).map Prod.fst =
            (fields.filter isLasting).map Prod.fst := by
        rw [List.map_map]
        rfl
      have names := congrArg (List.map Prod.fst) same
      rw [List.map_append, List.map_dropLast, ← Option.toList_map, ← List.getLast?_map, keysOf,
        keysOf] at names
      have short := short_of_rotate_eq nodup names
      rw [List.length_map] at short
      rw [isNarrow_obj_iff]
      refine ⟨short, fun field member => ?_⟩
      have kept := eq_of_perm_of_short
        (rotate_perm ((fields.filter isLasting).map (Prod.map id (stripSessionScoped ∘ marked))))
        (by rw [List.length_map]; exact short)
      rw [kept] at same
      have inside := List.mem_of_mem_filter member
      exact ih field inside (inner field inside)
        (Prod.ext_iff.mp (List.map_inj_left.mp same field member)).2
  | _ => rfl

section Values

theorem rebuilds_marked : Rebuilds marked where
  atoms value items fields := by cases value <;> simp_all [marked]
  items items := by rw [marked, markedItems_eq]
  fields fields _ := ⟨_, _, .refl _, by rw [marked, markedFields_eq]; rfl, .refl _⟩

def plainValue (value : JsonValue) : JsonValue where
  json := plain value.json
  spelled := (rebuilds_plain.keeps value.json value.distinct).2 value.spelled
  distinct := (rebuilds_plain.keeps value.json value.distinct).1

def markedValue (value : JsonValue) : JsonValue where
  json := marked value.json
  spelled := (rebuilds_marked.keeps value.json value.distinct).2 value.spelled
  distinct := (rebuilds_marked.keeps value.json value.distinct).1

end Values

/-- These are the entries without their markers. -/
def plains (entries : List JsonValue) : List Json := entries.map fun entry => plain entry.json

def strips (entries : List JsonValue) : List Json :=
  entries.map fun entry => stripSessionScoped entry.json

def digestOf (sha256Hex : String → String) (entries : List JsonValue) : Json :=
  incompleteDigest sha256Hex (.arr (entries.map JsonValue.json))

def inputOf (entries : List JsonValue) : String := hashedInput (entries.map JsonValue.json)

theorem mem_strips_spelled : ∀ value ∈ strips entries, value.isSpelled = true := by
  intro value member
  obtain ⟨entry, _, rfl⟩ := List.mem_map.mp member
  exact (rebuilds_stripSessionScoped.keeps entry.json entry.distinct).2 entry.spelled

/-- The texts of two lists agree in some order only where their values do. -/
theorem perm_of_render_perm {left right : List Json} (spelled : ∀ value ∈ left, value.isSpelled = true)
    (other : ∀ value ∈ right, value.isSpelled = true)
    (texts : (left.map Json.render).Perm (right.map Json.render)) : left.Perm right := by
  have attached {values : List Json} (spelled : ∀ value ∈ values, value.isSpelled = true) :
      ∃ all : List {value : Json // value.isSpelled = true}, all.map Subtype.val = values :=
    ⟨values.attachWith _ spelled, by simp⟩
  obtain ⟨left, rfl⟩ := attached spelled
  obtain ⟨right, rfl⟩ := attached other
  rw [List.map_map, List.map_map] at texts
  have injective : Function.Injective
      (Json.render ∘ (Subtype.val : {value : Json // value.isSpelled = true} → Json)) :=
    fun first second same => Subtype.ext (render_inj first.2 second.2 same)
  exact ((List.map_perm_map_iff injective).mp texts).map _

/-- The hashed text determines the stripped entries, and only these. -/
theorem inputOf_eq_iff (left right : List JsonValue) :
    inputOf left = inputOf right ↔ (strips left).Perm (strips right) := by
  have texts (entries : List JsonValue) :
      (entries.map JsonValue.json).map (fun entry => (stripSessionScoped entry).render) =
        (strips entries).map Json.render := by
    rw [strips, List.map_map, List.map_map]
    rfl
  have spelled (names : List String) : (Json.arr (names.map Json.str)).isSpelled = true := by
    rw [isSpelled, itemsSpelled_iff, List.forall_mem_map]
    exact fun _ _ => rfl
  unfold inputOf hashedInput
  constructor
  · intro same
    have names := Json.arr.inj (render_inj (spelled _) (spelled _) same)
    have listed := List.map_injective_iff.mpr (fun first second => Json.str.inj) names
    rw [identities, identities, StableSort.sortByKey_id_eq_iff, texts, texts] at listed
    exact perm_of_render_perm mem_strips_spelled mem_strips_spelled listed
  · intro permuted
    have listed : identities (left.map JsonValue.json) = identities (right.map JsonValue.json) := by
      rw [identities, identities, StableSort.sortByKey_id_eq_iff, texts, texts]
      exact permuted.map _
    rw [listed]

theorem inputOf_of_digestOf {sha256Hex : String → String} (injective : Function.Injective sha256Hex)
    {left right : List JsonValue} (same : digestOf sha256Hex left = digestOf sha256Hex right) :
    inputOf left = inputOf right := by
  have hashed := congrArg (fun digest => (digest.get "sha256").bind Json.asStr) same
  exact injective (Option.some.inj hashed)

theorem map_codeOf_plains (entries : List JsonValue) :
    (plains entries).map codeOf = (entries.map JsonValue.json).map codeOf := by
  rw [plains, List.map_map, List.map_map]
  exact List.map_congr_left fun entry _ => codeOf_plain entry.json

/-- Equal entries without markers have equal counts. -/
theorem digestOf_congr (sha256Hex : String → String) {left right : List JsonValue}
    (same : (plains left).Perm (plains right)) (input : inputOf left = inputOf right) :
    digestOf sha256Hex left = digestOf sha256Hex right := by
  have count : (left.map JsonValue.json).length = (right.map JsonValue.json).length := by
    have sizes := same.length_eq
    rw [plains, plains, List.length_map, List.length_map] at sizes
    rw [List.length_map, List.length_map, sizes]
  have codes : countCodes (left.map JsonValue.json) = countCodes (right.map JsonValue.json) := by
    apply countCodes_perm
    rw [← map_codeOf_plains, ← map_codeOf_plains]
    exact same.map codeOf
  rw [inputOf, inputOf] at input
  simp only [digestOf, incompleteDigest, asArray, Option.getD_some, count, codes, input]

/-- No marker and no order changes the digest, and everything else does. -/
structure SessionFree (sha256Hex : String → String) (entries : List JsonValue) : Prop where
  unchanged : ∀ others : List JsonValue, (plains others).Perm (plains entries) →
    digestOf sha256Hex others = digestOf sha256Hex entries
  determined : ∀ others : List JsonValue, inputOf others = inputOf entries →
    (plains others).Perm (plains entries)

def Narrow (entries : List JsonValue) : Prop := ∀ entry ∈ entries, isNarrow entry.json = true

theorem Narrow.strips_eq (narrow : Narrow entries) : strips entries = plains entries :=
  List.map_congr_left fun entry member =>
    stripSessionScoped_narrow entry.json entry.distinct (narrow entry member)

theorem Narrow.of_plains {entries others : List JsonValue} (narrow : Narrow entries)
    (same : (plains others).Perm (plains entries)) : Narrow others := by
  intro entry member
  obtain ⟨own, inside, equal⟩ := List.mem_map.mp (same.subset (List.mem_map_of_mem member))
  rw [← rebuilds_plain.isNarrow_eq entry.json entry.distinct, ← equal,
    rebuilds_plain.isNarrow_eq own.json own.distinct]
  exact narrow own inside

theorem Narrow.of_strips {entries others : List JsonValue} (narrow : Narrow entries)
    (same : (strips others).Perm (strips entries)) : Narrow others := by
  intro entry member
  obtain ⟨own, inside, equal⟩ := List.mem_map.mp (same.subset (List.mem_map_of_mem member))
  rw [← rebuilds_stripSessionScoped.isNarrow_eq entry.json entry.distinct, ← equal,
    rebuilds_stripSessionScoped.isNarrow_eq own.json own.distinct]
  exact narrow own inside

theorem Narrow.sessionFree (narrow : Narrow entries) (sha256Hex : String → String) :
    SessionFree sha256Hex entries where
  unchanged := by
    intro others same
    apply digestOf_congr sha256Hex same
    rw [inputOf_eq_iff, (narrow.of_plains same).strips_eq, narrow.strips_eq]
    exact same
  determined := by
    intro others same
    rw [inputOf_eq_iff] at same
    rw [← (narrow.of_strips same).strips_eq, ← narrow.strips_eq]
    exact same

theorem plain_plain (value : Json) : plain (plain value) = plain value := by
  induction value using Json.nestedInduction with
  | arr items ih =>
      rw [plain, plain, plainItems_eq, plainItems_eq, List.map_map]
      congr 1
      exact List.map_congr_left ih
  | obj fields ih =>
      rw [plain, plain, plainFields_eq, plainFields_eq, List.filter_eq_self.mpr lasting_of_map,
        List.map_map]
      congr 1
      apply List.map_congr_left
      intro field member
      exact Prod.ext rfl (ih field (List.mem_of_mem_filter member))
  | _ => rfl

/-- A value without markers keeps its order. -/
theorem stripSessionScoped_plain (value : Json) : stripSessionScoped (plain value) = plain value := by
  induction value using Json.nestedInduction with
  | arr items ih =>
      rw [plain, stripSessionScoped, plainItems_eq, stripItems_eq, List.map_map]
      congr 1
      exact List.map_congr_left ih
  | obj fields ih =>
      rw [plain, stripSessionScoped, plainFields_eq, stripFields_eq, List.map_map]
      have same : (fields.filter isLasting).map
          (Prod.map id stripSessionScoped ∘ Prod.map id plain) =
            (fields.filter isLasting).map (Prod.map id plain) := by
        apply List.map_congr_left
        intro field member
        exact Prod.ext rfl (ih field (List.mem_of_mem_filter member))
      rw [same, removeMarkers_of_lasting lasting_of_map]
  | _ => rfl

/-- One marker in front of a wide entry changes the digest. -/
theorem SessionFree.narrow {sha256Hex : String → String} (injective : Function.Injective sha256Hex)
    (free : SessionFree sha256Hex entries) : Narrow entries := by
  intro entry member
  obtain ⟨before, after, rfl⟩ := List.append_of_mem member
  have plained (values : List JsonValue) : plains (values.map plainValue) = plains values := by
    rw [plains, plains, List.map_map]
    exact List.map_congr_left fun value _ => plain_plain value.json
  have kept (own : JsonValue) (same : plain own.json = plain entry.json) :
      plains (before.map plainValue ++ own :: after.map plainValue) =
        plains (before ++ entry :: after) := by
    have left := plained before
    have right := plained after
    unfold plains at left right ⊢
    rw [List.map_append, List.map_append, List.map_cons, List.map_cons, left, right, same]
  have one := free.unchanged _ (.of_eq (kept (markedValue entry) (plain_marked entry.json)))
  have two := free.unchanged _ (.of_eq (kept (plainValue entry) (plain_plain entry.json)))
  have inputs := inputOf_of_digestOf injective (one.trans two.symm)
  rw [inputOf_eq_iff] at inputs
  simp only [strips, List.map_append, List.map_cons] at inputs
  have fronts := List.perm_middle.symm.trans (inputs.trans List.perm_middle)
  have bags := Multiset.coe_eq_coe.mpr fronts
  rw [← Multiset.cons_coe, ← Multiset.cons_coe, Multiset.cons_inj_left] at bags
  apply isNarrow_of_strip_marked entry.json entry.distinct
  exact bags.trans (stripSessionScoped_plain entry.json)

/-- The digest does not depend on the session exactly where no entry has an object with two fields
beside its markers. -/
theorem incompleteDigest_sessionFree_iff (sha256Hex : String → String)
    (injective : Function.Injective sha256Hex) (entries : List JsonValue) :
    SessionFree sha256Hex entries ↔ Narrow entries :=
  ⟨fun free => free.narrow injective, fun narrow => narrow.sessionFree sha256Hex⟩

/-- The digest of one known text is right, and no other text has it. -/
def knownHash (text : String) : String :=
  if text = "[\"\x7b\\\"code\\\":\\\"SMOKE_TEST_FAILED\\\"\x7d\"]" then
    "8d64ec33affccdc8f45c4f9140972d0ea3b1685881654db8731b1135e5e081d8"
  else "other " ++ text

theorem knownHash_injective : Function.Injective knownHash := by
  intro left right same
  have apart (text : String) :
      "8d64ec33affccdc8f45c4f9140972d0ea3b1685881654db8731b1135e5e081d8" ≠ "other " ++ text := by
    intro equal
    have heads := congrArg (fun text => text.toList.head?) equal
    simp at heads
  unfold knownHash at same
  split_ifs at same with first second second
  · exact first.trans second.symm
  · exact absurd same (apart right)
  · exact absurd same.symm (apart left)
  · simpa using same

def smokeEntry : JsonValue where
  json := .obj [("code", .str "SMOKE_TEST_FAILED"), ("property", .str "#p108")]
  spelled := rfl
  distinct := by decide

theorem incompleteDigest_sessionFree_example : SessionFree knownHash [smokeEntry] :=
  (incompleteDigest_sessionFree_iff knownHash knownHash_injective [smokeEntry]).mpr
    (List.forall_mem_singleton.mpr rfl)

def wideEntry : JsonValue where
  json := .obj [("code", .str "SMOKE_TEST_FAILED"), ("function", .str "f")]
  spelled := rfl
  distinct := by decide

/-- The removed marker lets the last field take its place. -/
theorem not_incompleteDigest_sessionFree : ¬ ∀ (sha256Hex : String → String),
    Function.Injective sha256Hex → ∀ entries : List JsonValue, SessionFree sha256Hex entries := by
  intro free
  have narrow := (free id Function.injective_id [wideEntry]).narrow Function.injective_id wideEntry
    (List.mem_singleton_self _)
  exact absurd narrow (by decide)

end FramaCMcp.IncompleteDigest
