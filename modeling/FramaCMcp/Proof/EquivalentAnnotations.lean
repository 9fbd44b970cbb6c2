/-
This file says what equal canonical annotations tell about their places.
-/

import FramaCMcp.Construction.WpClass
import Mathlib.Algebra.BigOperators.Group.List.Lemmas
import Mathlib.Algebra.Order.Group.Multiset

namespace FramaCMcp.AnnotationEquivalence

/-- An annotation of a payload is global, or it stands in the contract, at a statement or nowhere. -/
inductive Place where
  | global
  | contract
  | statement (sid : Int)
  | unknown
  deriving DecidableEq

/-- The canonical form keeps this much of the place. -/
def Place.kind : Place → String
  | .global => "global"
  | .contract => "spec"
  | .statement _ => "annot"
  | .unknown => "unknown"

def placeOf (item : Json) : Place :=
  match (item.get "sid").bind Json.asI64 with
  | some (-1) => .contract
  | some sid => .statement sid
  | none => .unknown

/-- Each annotation has its place and its words. -/
abbrev Placed := Place × List String

/-- These are all annotations of one payload. -/
def placed [UnicodeTables] (value : Json) : List Placed :=
  ((rowsOf value "globals").filterMap fun global =>
    (acslOf global).map fun acsl => (Place.global, annotationWords acsl)) ++
  (rowsOf value "annotations").filterMap fun item =>
    (acslOf item).map fun acsl => (placeOf item, annotationWords acsl)

/-- Annotations with the same words differ in labels, white space and spelling only. -/
def annotationsAt [UnicodeTables] (value : Json) (place : Place) : Multiset (List String) :=
  (((placed value).filter fun entry => entry.1 = place).map Prod.snd : List (List String))

/-- One entry of the canonical form keeps the kind of the place. -/
def render (entry : String × List String) : String := entry.1 ++ ":" ++ Text.join entry.2 " "

def kinded (entry : Placed) : String × List String := (entry.1.kind, entry.2)

theorem kind_placeOf (item : Json) : (placeOf item).kind = kindOf item := by
  rw [placeOf, kindOf]
  cases (item.get "sid").bind Json.asI64 with
  | none => rfl
  | some sid =>
      by_cases contract : sid = -1
      · subst contract
        rfl
      · split
        all_goals simp_all [Place.kind]

theorem canonicalExtractedAnnotations_eq [UnicodeTables] (value : Json) :
    canonicalExtractedAnnotations value =
      StableSort.sortByKey id ((placed value).map fun entry => render (kinded entry)) := by
  rw [canonicalExtractedAnnotations, placed, List.map_append, List.map_filterMap,
    List.map_filterMap]
  simp only [Option.map_map, Function.comp_def, kinded, render, kind_placeOf]
  rfl

section Reading

/-- The kind ends at the first colon. -/
def parse (entry : String) : String × List String :=
  (String.ofList (entry.toList.takeWhile (· ≠ ':')),
    Text.splitWhitespace (String.ofList ((entry.toList.dropWhile (· ≠ ':')).drop 1)))

theorem parse_render (place : Place) (words : List String) (clean : ∀ word ∈ words, Text.IsWord word) :
    parse (render (place.kind, words)) = (place.kind, words) := by
  have letters : ∀ letter ∈ place.kind.toList, decide (letter ≠ ':') = true := by
    refine List.all_eq_true.mp ?_
    cases place with
    | statement sid => exact (by decide : ("annot".toList.all fun c => decide (c ≠ ':')) = true)
    | _ => decide
  have split : (render (place.kind, words)).toList =
      place.kind.toList ++ ':' :: (Text.join words " ").toList := by
    simp [render]
  rw [parse, split, List.takeWhile_append_of_pos letters, List.dropWhile_append_of_pos letters,
    List.takeWhile_cons_of_neg (by decide), List.dropWhile_cons_of_neg (by decide)]
  rw [List.append_nil, List.drop_one, List.tail_cons, String.ofList_toList, String.ofList_toList,
    Text.splitWhitespace_join words clean]

theorem placed_clean [UnicodeTables] (value : Json) :
    ∀ entry ∈ placed value, ∀ word ∈ entry.2, Text.IsWord word := by
  intro entry member word inside
  rw [placed, List.mem_append] at member
  rcases member with member | member
  all_goals
    obtain ⟨row, _, found⟩ := List.mem_filterMap.mp member
    obtain ⟨acsl, _, rfl⟩ := Option.map_eq_some_iff.mp found
    exact Text.isWord_of_mem_splitWhitespace inside

/-- The canonical forms agree where both payloads hold the same words of each kind as often. -/
theorem canonical_eq_iff_perm [UnicodeTables] (sandbox main : Json) :
    canonicalExtractedAnnotations sandbox = canonicalExtractedAnnotations main ↔
      ((placed sandbox).map kinded).Perm ((placed main).map kinded) := by
  rw [canonicalExtractedAnnotations_eq, canonicalExtractedAnnotations_eq,
    StableSort.sortByKey_id_eq_iff]
  have back : ∀ value : Json,
      ((placed value).map fun entry => render (kinded entry)).map parse =
        (placed value).map kinded := by
    intro value
    rw [List.map_map]
    refine List.map_congr_left fun entry member => ?_
    exact parse_render entry.1 entry.2 (placed_clean value entry member)
  constructor
  · intro same
    have read := same.map parse
    rwa [back, back] at read
  · intro same
    have written := same.map render
    rwa [List.map_map, List.map_map] at written

end Reading

section Kinds

variable {Key Value : Type} [DecidableEq Key] [DecidableEq Value]

theorem count_filter_key (entries : List (Key × Value)) (key : Key) (value : Value) :
    ((entries.filter fun entry => entry.1 = key).map Prod.snd).count value =
      entries.count (key, value) := by
  induction entries with
  | nil => rfl
  | cons entry entries ih =>
      rcases entry with ⟨head, first⟩
      by_cases same : head = key
      · subst same
        simp [List.count_cons, ih]
      · simp [ih, same]

/-- Two lists of keyed values rearrange each other where the values of each key do. -/
theorem perm_iff_keys (entries other : List (Key × Value)) :
    entries.Perm other ↔ ∀ key, ((entries.filter fun entry => entry.1 = key).map Prod.snd).Perm
      ((other.filter fun entry => entry.1 = key).map Prod.snd) := by
  constructor
  · intro same key
    exact (same.filter _).map _
  · intro same
    rw [List.perm_iff_count]
    rintro ⟨key, value⟩
    rw [← count_filter_key, ← count_filter_key, (same key).count_eq]

end Kinds

/-- These are the annotations of one kind, at whatever place. -/
def ofKind [UnicodeTables] (value : Json) (kind : String) : Multiset (List String) :=
  (((placed value).filter fun entry => entry.1.kind = kind).map Prod.snd : List (List String))

theorem canonical_eq_iff_kinds [UnicodeTables] (sandbox main : Json) :
    canonicalExtractedAnnotations sandbox = canonicalExtractedAnnotations main ↔
      ∀ kind, ofKind sandbox kind = ofKind main kind := by
  have read : ∀ (value : Json) (kind : String),
      ((((placed value).map kinded).filter fun entry => entry.1 = kind).map Prod.snd :
        List (List String)) =
      ((placed value).filter fun entry => entry.1.kind = kind).map Prod.snd := by
    intro value kind
    rw [List.filter_map, List.map_map]
    rfl
  rw [canonical_eq_iff_perm, perm_iff_keys]
  refine forall_congr' fun kind => ?_
  rw [read, read, ofKind, ofKind, Multiset.coe_eq_coe]

theorem ofKind_place [UnicodeTables] (value : Json) (place : Place)
    (alone : ∀ other : Place, other.kind = place.kind ↔ other = place) :
    ofKind value place.kind = annotationsAt value place := by
  simp only [ofKind, annotationsAt, alone]

/-- The statements correspond one to one, and every annotated statement is among them. -/
structure Corresponding [UnicodeTables] (sandbox main : Json) (statements : List (Int × Int)) :
    Prop where
  sandboxOnce : (statements.map Prod.fst).Nodup
  mainOnce : (statements.map Prod.snd).Nodup
  sandboxCovered : ∀ entry ∈ placed sandbox, ∀ sid, entry.1 = .statement sid →
    sid ∈ statements.map Prod.fst
  mainCovered : ∀ entry ∈ placed main, ∀ sid, entry.1 = .statement sid →
    sid ∈ statements.map Prod.snd

/-- One entry adds its words to exactly one of the listed statements. -/
theorem sum_statement_single (sids : List Int) (once : sids.Nodup) (sid : Int) (listed : sid ∈ sids)
    (words : Multiset (List String)) :
    (sids.map fun other => if sid = other then words else 0).sum = words := by
  induction sids with
  | nil => cases listed
  | cons head sids ih =>
      obtain ⟨apart, later⟩ := List.nodup_cons.mp once
      rw [List.map_cons, List.sum_cons]
      rcases List.mem_cons.mp listed with rfl | member
      · have nowhere : (sids.map fun other => if sid = other then words else 0).sum = 0 := by
          apply List.sum_eq_zero
          intro value found
          obtain ⟨other, inside, rfl⟩ := List.mem_map.mp found
          refine if_neg fun same => apart ?_
          rw [same]
          exact inside
        rw [if_pos rfl, nowhere, add_zero]
      · have different : sid ≠ head := fun same => apart (same ▸ member)
        rw [if_neg different, zero_add, ih later member]

theorem sum_statements (entries : List Placed) (sids : List Int) (once : sids.Nodup)
    (covered : ∀ entry ∈ entries, ∀ sid, entry.1 = .statement sid → sid ∈ sids) :
    (sids.map fun sid => (((entries.filter fun entry => entry.1 = .statement sid).map Prod.snd :
        List (List String)) : Multiset (List String))).sum =
      (((entries.filter fun entry => entry.1.kind = "annot").map Prod.snd : List (List String)) :
        Multiset (List String)) := by
  induction entries with
  | nil => simp
  | cons entry entries ih =>
      obtain ⟨head, rest⟩ := List.forall_mem_cons.mp covered
      have later := ih rest
      rcases entry with ⟨place, words⟩
      cases place with
      | statement sid =>
          have listed : sid ∈ sids := head sid rfl
          have one := sum_statement_single sids once sid listed ({words} : Multiset (List String))
          have split : ∀ other : Int,
              ((((Place.statement sid, words) :: entries).filter fun entry =>
                  entry.1 = .statement other).map Prod.snd : Multiset (List String)) =
                (if sid = other then ({words} : Multiset (List String)) else 0) +
                  ((entries.filter fun entry => entry.1 = .statement other).map Prod.snd :
                    List (List String)) := by
            intro other
            by_cases same : sid = other
            · subst same
              simp
            · simp [same]
          rw [List.map_congr_left fun other _ => split other, List.sum_map_add, one, later]
          simp [Place.kind]
      | _ => simpa [List.filter_cons, Place.kind] using later

theorem summand_of_sum {Index Amount : Type} [DecidableEq Index] [AddCancelCommMonoid Amount]
    {indices : List Index} {first second : Index → Amount}
    (sums : (indices.map first).sum = (indices.map second).sum) {index : Index}
    (member : index ∈ indices) (once : indices.Nodup)
    (others : ∀ other ∈ indices, other ≠ index → first other = second other) :
    first index = second index := by
  have front := List.perm_cons_erase member
  have rest : (indices.erase index).map first = (indices.erase index).map second := by
    refine List.map_congr_left fun other inside => ?_
    obtain ⟨different, listed⟩ := once.mem_erase_iff.mp inside
    exact others other listed different
  rw [(front.map first).sum_eq, (front.map second).sum_eq, List.map_cons, List.map_cons,
    List.sum_cons, List.sum_cons, rest] at sums
  exact add_right_cancel sums

theorem ofKind_annot [UnicodeTables] (value : Json) (sids : List Int) (once : sids.Nodup)
    (covered : ∀ entry ∈ placed value, ∀ sid, entry.1 = .statement sid → sid ∈ sids) :
    ofKind value "annot" = (sids.map fun sid => annotationsAt value (.statement sid)).sum :=
  (sum_statements (placed value) sids once covered).symm

theorem ofKind_other [UnicodeTables] (value : Json) (kind : String)
    (unused : ∀ place : Place, place.kind ≠ kind) : ofKind value kind = 0 := by
  simp [ofKind, unused]

theorem canonical_eq_iff_places [UnicodeTables] {sandbox main : Json}
    {statements : List (Int × Int)} (corresponding : Corresponding sandbox main statements) :
    canonicalExtractedAnnotations sandbox = canonicalExtractedAnnotations main ↔
      annotationsAt sandbox .global = annotationsAt main .global ∧
        annotationsAt sandbox .contract = annotationsAt main .contract ∧
        annotationsAt sandbox .unknown = annotationsAt main .unknown ∧
        (statements.map fun statement => annotationsAt sandbox (.statement statement.1)).sum =
          (statements.map fun statement => annotationsAt main (.statement statement.2)).sum := by
  have onGlobal (value : Json) : ofKind value "global" = annotationsAt value .global :=
    ofKind_place value .global fun other => by cases other <;> simp [Place.kind]
  have onContract (value : Json) : ofKind value "spec" = annotationsAt value .contract :=
    ofKind_place value .contract fun other => by cases other <;> simp [Place.kind]
  have nowhere (value : Json) : ofKind value "unknown" = annotationsAt value .unknown :=
    ofKind_place value .unknown fun other => by cases other <;> simp [Place.kind]
  have onSandbox := ofKind_annot sandbox _ corresponding.sandboxOnce corresponding.sandboxCovered
  have onMain := ofKind_annot main _ corresponding.mainOnce corresponding.mainCovered
  rw [List.map_map] at onSandbox onMain
  rw [canonical_eq_iff_kinds, ← onGlobal, ← onGlobal, ← onContract, ← onContract, ← nowhere,
    ← nowhere]
  constructor
  · intro same
    exact ⟨same _, same _, same _, onSandbox.symm.trans ((same _).trans onMain)⟩
  · rintro ⟨globals, contract, unknown, statements⟩ kind
    by_cases used : ∃ place : Place, place.kind = kind
    · obtain ⟨place, rfl⟩ := used
      cases place with
      | global => exact globals
      | contract => exact contract
      | unknown => exact unknown
      | statement sid => exact onSandbox.trans (statements.trans onMain.symm)
    · have unused : ∀ place : Place, place.kind ≠ kind := fun place same => used ⟨place, same⟩
      rw [ofKind_other sandbox kind unused, ofKind_other main kind unused]

/-- This payload has one loop invariant at each of two statements. -/
def twoLoops (first second : Int) (firstText secondText : String) : Json :=
  .obj [("annotations", .arr [
    .obj [("sid", .num first), ("acsl", .str firstText)],
    .obj [("sid", .num second), ("acsl", .str secondText)]])]

theorem placed_twoLoops [UnicodeTables] (first second : Int) (firstText secondText : String) :
    placed (twoLoops first second firstText secondText) =
      [(placeOf (.obj [("sid", .num first), ("acsl", .str firstText)]), annotationWords firstText),
        (placeOf (.obj [("sid", .num second), ("acsl", .str secondText)]),
          annotationWords secondText)] := rfl

theorem twoLoops_corresponding [UnicodeTables] (texts others : String × String) :
    Corresponding (twoLoops 3 5 texts.1 texts.2) (twoLoops 17 19 others.1 others.2)
      [(3, 17), (5, 19)] where
  sandboxOnce := by decide
  mainOnce := by decide
  sandboxCovered := by
    intro entry member sid place
    rw [placed_twoLoops] at member
    simp only [List.mem_cons, List.not_mem_nil, or_false] at member
    rcases member with rfl | rfl
    · cases place
      decide
    · cases place
      decide
  mainCovered := by
    intro entry member sid place
    rw [placed_twoLoops] at member
    simp only [List.mem_cons, List.not_mem_nil, or_false] at member
    rcases member with rfl | rfl
    · cases place
      decide
    · cases place
      decide

end FramaCMcp.AnnotationEquivalence
