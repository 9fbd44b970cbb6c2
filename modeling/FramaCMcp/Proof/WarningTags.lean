/-
This file says which tag the log reader finds on a line.
-/

import FramaCMcp.Construction.ParseDiagnostics

namespace FramaCMcp.ParseDiagnostics

/-- The brackets are a field of the text with a colon and without white space between them. -/
structure IsTag (head before category after : Line) : Prop where
  split : head = before ++ '[' :: (category ++ ']' :: after)
  closed : ']' ∉ category
  colon : ':' ∈ category
  spaceless : ∀ letter ∈ category, Text.isWhitespace letter = false
  left : ∀ letter ∈ before.getLast?, Text.isWhitespace letter = true
  right : ∀ letter ∈ after.head?, Text.isWhitespace letter = true

structure FirstTag (head before category after : Line) : Prop where
  tag : IsTag head before category after
  first : ∀ early other late, IsTag head early other late → before.length ≤ early.length

def Untagged (head : Line) : Prop := ∀ before category after, ¬ IsTag head before category after

/-- The first marker with a tag before it is preceded by this tag. -/
structure ShowsAt (line head rest category : Line) : Prop where
  split : line = head ++ warningMarker ++ rest
  tagged : ∃ before after, FirstTag head before category after
  first : ∀ early late, line = early ++ warningMarker ++ late → early.length < head.length →
    Untagged early

/-- A reader from left to right takes the line for a warning of this category. -/
def Shows (line category : Line) : Prop := ∃ head rest, ShowsAt line head rest category

section Brackets

variable {head before category after early other late : Line}

/-- The place of a tag determines it. -/
theorem IsTag.unique (tag : IsTag head before category after) (again : IsTag head early other late)
    (same : before.length = early.length) : before = early ∧ category = other ∧ after = late := by
  obtain ⟨rfl, rest⟩ := List.append_inj (tag.split.symm.trans again.split) same
  obtain ⟨rfl, rfl⟩ := Utf8.append_cons_unique tag.closed again.closed (List.cons.inj rest).2
  exact ⟨rfl, rfl, rfl⟩

theorem FirstTag.unique (tag : FirstTag head before category after)
    (again : FirstTag head early other late) : category = other :=
  (tag.tag.unique again.tag (Nat.le_antisymm (tag.first _ _ _ again.tag)
    (again.first _ _ _ tag.tag))).2.1

end Brackets

section Scanning

/-- From this place on the scan finds the first tag, or there is none. -/
def Scanned (head : Line) (place : Nat) : Option (Nat × Nat) → Prop
  | none => ∀ before category after, IsTag head before category after → before.length < place
  | some bounds => ∃ before category after, IsTag head before category after ∧
      bounds = (Utf8.size before, Utf8.size before + 1 + Utf8.size category) ∧
      ∀ early other late, IsTag head early other late → place ≤ early.length →
        before.length ≤ early.length

theorem size_eq_zero_iff {text : Line} : Utf8.size text = 0 ↔ text = [] := by
  cases text with
  | nil => exact ⟨fun _ => rfl, fun _ => rfl⟩
  | cons letter rest =>
      have positive := letter.utf8Size_pos
      rw [Utf8.size_cons]
      constructor
      · intro empty
        omega
      · nofun

theorem endsWithSpace_iff {text : Line} : (Utf8.size text == 0 || endsWithSpace text) = true ↔
    ∀ letter ∈ text.getLast?, Text.isWhitespace letter = true := by
  rw [Bool.or_eq_true, beq_iff_eq, size_eq_zero_iff, endsWithSpace]
  cases shape : text.getLast? with
  | none => simp [List.getLast?_eq_none_iff.mp shape]
  | some letter =>
      have filled : text ≠ [] := by
        rintro rfl
        cases shape
      simp [filled]

theorem startsWithSpace_iff {text : Line} : (text.isEmpty || startsWithSpace text) = true ↔
    ∀ letter ∈ text.head?, Text.isWhitespace letter = true := by
  rw [startsWithSpace]
  cases text <;> simp

theorem IsTag.starts {head lead rest before category after : Line}
    (tag : IsTag head before category after) (split : head = lead ++ rest)
    (behind : lead.length ≤ before.length) : lead <+: before :=
  List.prefix_of_prefix_length_le ⟨rest, split.symm⟩ ⟨_, tag.split.symm⟩ behind

theorem IsTag.rest {head lead rest middle category after : Line}
    (tag : IsTag head (lead ++ middle) category after) (split : head = lead ++ rest) :
    middle ++ '[' :: (category ++ ']' :: after) = rest := by
  have same := tag.split.symm.trans split
  rw [List.append_assoc] at same
  exact List.append_cancel_left same

/-- The brackets at this place are a tag or the next one stands behind them. -/
theorem IsTag.at_or_behind {head lead early inner before category after : Line}
    (split : head = lead ++ early ++ '[' :: inner) (clear : '[' ∉ early)
    (tag : IsTag head before category after) (behind : lead.length ≤ before.length) :
    (before = lead ++ early ∧ inner = category ++ ']' :: after) ∨
      (lead ++ early ++ ['[']).length ≤ before.length := by
  rw [List.append_assoc] at split
  obtain ⟨middle, rfl⟩ := tag.starts split behind
  have shape := (tag.rest split).symm
  rcases Nat.lt_or_ge early.length middle.length with longer | shorter
  · right
    simp only [List.length_append, List.length_singleton]
    omega
  · left
    have within : middle <+: early :=
      List.prefix_of_prefix_length_le ⟨_, shape.symm⟩ ⟨_, rfl⟩ shorter
    obtain ⟨rfl, rfl⟩ :=
      Utf8.append_cons_unique clear (fun member => clear (within.subset member)) shape
    exact ⟨rfl, rfl⟩

/-- The test of the scan at a bracket is the test for a tag. -/
theorem isTag_iff {head before category after : Line}
    (split : head = before ++ '[' :: (category ++ ']' :: after)) (closed : ']' ∉ category) :
    ((Utf8.size before == 0 || endsWithSpace before) && (after.isEmpty || startsWithSpace after) &&
      category.contains ':' && !category.any Text.isWhitespace) = true ↔
      IsTag head before category after := by
  rw [Bool.and_eq_true, Bool.and_eq_true, Bool.and_eq_true, endsWithSpace_iff, startsWithSpace_iff,
    List.contains_iff_mem, Bool.not_eq_true', List.any_eq_false]
  constructor
  · rintro ⟨⟨⟨left, right⟩, colon⟩, spaceless⟩
    exact ⟨split, closed, colon, fun letter member => by simpa using spaceless letter member,
      left, right⟩
  · intro tag
    exact ⟨⟨⟨tag.left, tag.right⟩, tag.colon⟩,
      fun letter member => by simpa using tag.spaceless letter member⟩

section Steps

variable {head lead rest early inner category after : Line} (steps : Nat)

theorem tagBoundsFrom_none (split : head = lead ++ rest)
    (missing : Utf8.splitOnce ['['] rest = none) :
    tagBoundsFrom head (steps + 1) (Utf8.size lead) = some none := by
  have dropped : Utf8.dropTo head (Utf8.size lead) = some rest :=
    split ▸ Utf8.dropTo_append lead rest
  simp [tagBoundsFrom, dropped, Utf8.find, missing]

theorem tagBoundsFrom_open (split : head = lead ++ rest)
    (found : Utf8.splitOnce ['['] rest = some (early, inner))
    (missing : Utf8.splitOnce [']'] inner = none) :
    tagBoundsFrom head (steps + 1) (Utf8.size lead) = some none := by
  have dropped : Utf8.dropTo head (Utf8.size lead) = some rest :=
    split ▸ Utf8.dropTo_append lead rest
  have whole : head = lead ++ early ++ '[' :: inner := by
    rw [split, (Utf8.splitOnce_some found).1]
    simp
  have behind : Utf8.dropTo head (Utf8.size lead + Utf8.size early) = some ('[' :: inner) := by
    rw [← Utf8.size_append, whole, Utf8.dropTo_append]
  have noClose : Utf8.splitOnce [']'] ('[' :: inner) = none := by
    rw [Utf8.splitOnce_cons_of_ne (by decide), missing, Option.map_none]
  simp [tagBoundsFrom, dropped, Utf8.find, found, behind, noClose]

theorem tagBoundsFrom_closed (split : head = lead ++ rest)
    (found : Utf8.splitOnce ['['] rest = some (early, inner))
    (closes : Utf8.splitOnce [']'] inner = some (category, after)) :
    (IsTag head (lead ++ early) category after ∧
      tagBoundsFrom head (steps + 1) (Utf8.size lead) = some (some (Utf8.size (lead ++ early),
        Utf8.size (lead ++ early) + 1 + Utf8.size category))) ∨
    (¬ IsTag head (lead ++ early) category after ∧
      tagBoundsFrom head (steps + 1) (Utf8.size lead) =
        tagBoundsFrom head steps (Utf8.size (lead ++ early ++ ['[']))) := by
  have dropped : Utf8.dropTo head (Utf8.size lead) = some rest :=
    split ▸ Utf8.dropTo_append lead rest
  have bracket : inner = category ++ ']' :: after := by
    rw [(Utf8.splitOnce_some closes).1]
    simp
  have whole : head = lead ++ early ++ '[' :: (category ++ ']' :: after) := by
    rw [split, (Utf8.splitOnce_some found).1, bracket]
    simp
  have opening : Utf8.size lead + Utf8.size early = Utf8.size (lead ++ early) :=
    (Utf8.size_append _ _).symm
  have one : Char.utf8Size '[' = 1 := rfl
  have close : Utf8.size (lead ++ early) + Utf8.size ('[' :: category) =
      Utf8.size (lead ++ early) + 1 + Utf8.size category := by
    rw [Utf8.size_cons, one, Nat.add_assoc]
  have behind : Utf8.dropTo head (Utf8.size (lead ++ early)) = some ('[' :: inner) := by
    rw [whole, bracket, Utf8.dropTo_append]
  have closing : Utf8.splitOnce [']'] ('[' :: inner) = some ('[' :: category, after) := by
    rw [Utf8.splitOnce_cons_of_ne (by decide), closes, Option.map_some]
  have next : Utf8.size (lead ++ early) + 1 = Utf8.size (lead ++ early ++ ['[']) := by
    rw [Utf8.size_append _ ['['], Utf8.size_cons, one, Utf8.size_nil]
  have between : Utf8.slice head (Utf8.size (lead ++ early) + 1)
      (Utf8.size (lead ++ early) + 1 + Utf8.size category) = some category := by
    rw [next, show head = lead ++ early ++ ['['] ++ category ++ ']' :: after by simp [whole],
      Utf8.slice_append]
  have tail : Utf8.dropTo head (Utf8.size (lead ++ early) + 1 + Utf8.size category + 1) =
      some after := by
    have offset : Utf8.size (lead ++ early) + 1 + Utf8.size category + 1 =
        Utf8.size (lead ++ early ++ ['['] ++ category ++ [']']) := by
      rw [next, Utf8.size_append _ [']'], Utf8.size_append _ category]
      rfl
    rw [offset, show head = lead ++ early ++ ['['] ++ category ++ [']'] ++ after by simp [whole],
      Utf8.dropTo_append]
  have before : Utf8.takeTo head (Utf8.size (lead ++ early)) = some (lead ++ early) := by
    rw [whole, Utf8.takeTo_append]
  have test := isTag_iff whole (Utf8.notMem_of_splitOnce closes)
  rw [← next]
  by_cases tag : IsTag head (lead ++ early) category after
  · left
    refine ⟨tag, ?_⟩
    simp only [tagBoundsFrom, dropped, Utf8.find, found, Option.map_some, opening, behind, closing,
      close, between, tail, before, test.mpr tag, Option.bind_eq_bind, Option.bind_some, if_true]
  · right
    refine ⟨tag, ?_⟩
    have failed := mt test.mp tag
    simp only [tagBoundsFrom, dropped, Utf8.find, found, Option.map_some, opening, behind, closing,
      close, between, tail, before, failed, Option.bind_eq_bind, Option.bind_some]
    rfl

end Steps

/-- A scan that starts later finds the same where no tag stands between. -/
theorem Scanned.widen {head : Line} {place later : Nat} {bounds : Option (Nat × Nat)}
    (scanned : Scanned head later bounds)
    (clear : ∀ before category after, IsTag head before category after → place ≤ before.length →
      later ≤ before.length) : Scanned head place bounds := by
  cases bounds with
  | none =>
      intro before category after tag
      have short := scanned before category after tag
      by_contra behind
      exact absurd (clear before category after tag (Nat.not_lt.mp behind)) (Nat.not_le.mpr short)
  | some bounds =>
      obtain ⟨before, category, after, tag, same, first⟩ := scanned
      exact ⟨before, category, after, tag, same,
        fun early other late again behind => first _ _ _ again (clear _ _ _ again behind)⟩

theorem tagBoundsFrom_scanned {head lead rest : Line} {steps : Nat} (enough : rest.length < steps)
    (split : head = lead ++ rest) :
    ∃ bounds, tagBoundsFrom head steps (Utf8.size lead) = some bounds ∧
      Scanned head lead.length bounds := by
  induction steps generalizing lead rest with
  | zero => exact absurd enough (Nat.not_lt_zero _)
  | succ steps ih =>
      cases found : Utf8.splitOnce ['['] rest with
      | none =>
          refine ⟨none, tagBoundsFrom_none steps split found, fun before category after tag => ?_⟩
          by_contra behind
          obtain ⟨middle, rfl⟩ := tag.starts split (Nat.not_lt.mp behind)
          have member : '[' ∈ rest := by
            rw [← tag.rest split]
            exact List.mem_append_right _ List.mem_cons_self
          exact Utf8.notMem_of_splitOnce_none found member
      | some parts =>
          rcases parts with ⟨early, inner⟩
          have whole : head = lead ++ early ++ '[' :: inner := by
            rw [split, (Utf8.splitOnce_some found).1]
            simp
          have clear := Utf8.notMem_of_splitOnce found
          cases closes : Utf8.splitOnce [']'] inner with
          | none =>
              refine ⟨none, tagBoundsFrom_open steps split found closes,
                fun before category after tag => ?_⟩
              by_contra behind
              have member : ']' ∈ inner := by
                rcases tag.at_or_behind whole clear (Nat.not_lt.mp behind) with ⟨_, rfl⟩ | later
                · exact List.mem_append_right _ List.mem_cons_self
                · have second : head = lead ++ early ++ ['['] ++ inner := by simp [whole]
                  obtain ⟨middle, rfl⟩ := tag.starts second later
                  rw [← tag.rest second]
                  simp
              exact Utf8.notMem_of_splitOnce_none closes member
          | some ends =>
              rcases ends with ⟨category, after⟩
              rcases tagBoundsFrom_closed steps split found closes with
                ⟨tag, answer⟩ | ⟨noTag, answer⟩
              · refine ⟨_, answer, _, _, _, tag, rfl, fun other name late again behind => ?_⟩
                rcases again.at_or_behind whole clear behind with ⟨rfl, _⟩ | later
                · exact Nat.le_refl _
                · rw [List.length_append] at later
                  exact Nat.le_of_succ_le later
              · have shorter : inner.length < steps := by
                  rw [(Utf8.splitOnce_some found).1] at enough
                  simp only [List.length_append, List.length_cons] at enough
                  omega
                have second : head = lead ++ early ++ ['['] ++ inner := by simp [whole]
                obtain ⟨bounds, result, scanned⟩ := ih shorter second
                refine ⟨bounds, answer.trans result, scanned.widen ?_⟩
                intro before name late tag behind
                rcases tag.at_or_behind whole clear behind with ⟨rfl, shape⟩ | later
                · have bracket : inner = category ++ ']' :: after := by
                    rw [(Utf8.splitOnce_some closes).1]
                    simp
                  obtain ⟨rfl, rfl⟩ := Utf8.append_cons_unique
                    (Utf8.notMem_of_splitOnce closes) tag.closed (bracket.symm.trans shape)
                  exact absurd tag noTag
                · exact later

/-- The scan of a whole text finds its first tag. -/
theorem tagBounds_cases (head : Line) :
    (tagBounds head = some none ∧ Untagged head) ∨
      ∃ before category after, FirstTag head before category after ∧ tagBounds head =
        some (some (Utf8.size before, Utf8.size before + 1 + Utf8.size category)) := by
  obtain ⟨bounds, answer, scanned⟩ :=
    tagBoundsFrom_scanned (Nat.lt_succ_self head.length) (List.nil_append head).symm
  cases bounds with
  | none =>
      exact .inl ⟨answer, fun before category after tag =>
        absurd (scanned before category after tag) (Nat.not_lt_zero _)⟩
  | some bounds =>
      obtain ⟨before, category, after, tag, rfl, first⟩ := scanned
      exact .inr ⟨before, category, after,
        ⟨tag, fun early other late again => first early other late again (Nat.zero_le _)⟩, answer⟩

end Scanning

section Markers

variable {line head rest category other : Line}

theorem ShowsAt.length_le {early late name : Line} (shows_ : ShowsAt line head rest category)
    (again : ShowsAt line early late name) : head.length ≤ early.length := by
  by_contra shorter
  obtain ⟨before, after, first⟩ := again.tagged
  exact shows_.first early late again.split (Nat.not_le.mp shorter) _ _ _ first.tag

theorem warningMarker_eq : warningMarker = ['W'] ++ "arning:".toList := rfl

theorem Shows.unique (shows_ : Shows line category) (again : Shows line other) :
    category = other := by
  obtain ⟨head, rest, first⟩ := shows_
  obtain ⟨early, late, second⟩ := again
  have same := Nat.le_antisymm (first.length_le second) (second.length_le first)
  have split := first.split.symm.trans second.split
  rw [List.append_assoc, List.append_assoc] at split
  obtain ⟨rfl, _⟩ := List.append_inj split same
  obtain ⟨_, _, tag⟩ := first.tagged
  obtain ⟨_, _, twin⟩ := second.tagged
  exact tag.unique twin

/-- Before this place no marker has a tag before it. -/
def Passed (line : Line) (place : Nat) : Prop :=
  ∀ early late, line = early ++ warningMarker ++ late → early.length < place → Untagged early

/-- The answer tells the category that the line shows. -/
def Answers (line : Line) : Option (Line × Line) → Prop
  | none => ∀ head rest, line = head ++ warningMarker ++ rest → Untagged head
  | some fields => Shows line fields.1

/-- The location stands on either side of the tag. -/
def Located (line : Line) : Option (Line × Line) → Prop
  | none => True
  | some fields => ∃ head rest before after, ShowsAt line head rest fields.1 ∧
      FirstTag head before fields.1 after ∧
      fields.2 = if trimSource before = [] then trimSource after else trimSource before

theorem rest_of_marker {lead early late : Line} (split : line = lead ++ rest)
    (marked : line = early ++ warningMarker ++ late) (place : lead.length ≤ early.length) :
    ∃ middle, early = lead ++ middle ∧ rest = middle ++ warningMarker ++ late := by
  rw [List.append_assoc] at marked
  obtain ⟨middle, rfl⟩ : lead <+: early :=
    List.prefix_of_prefix_length_le ⟨_, split.symm⟩ ⟨_, marked.symm⟩ place
  refine ⟨middle, rfl, ?_⟩
  have shape := split.symm.trans marked
  rw [List.append_assoc] at shape
  rw [List.append_cancel_left shape, List.append_assoc]

section Steps

variable {lead early late : Line} (steps : Nat)

theorem warningLineFieldsFrom_none (split : line = lead ++ rest)
    (missing : Utf8.splitOnce warningMarker rest = none) :
    warningLineFieldsFrom line (steps + 1) (Utf8.size lead) = some none := by
  have dropped : Utf8.dropTo line (Utf8.size lead) = some rest :=
    split ▸ Utf8.dropTo_append lead rest
  simp [warningLineFieldsFrom, dropped, Utf8.find, missing]

/-- At a marker the scan looks for a tag before it. -/
theorem warningLineFieldsFrom_marker (split : line = lead ++ rest)
    (found : Utf8.splitOnce warningMarker rest = some (early, late)) :
    (Untagged (lead ++ early) ∧ warningLineFieldsFrom line (steps + 1) (Utf8.size lead) =
      warningLineFieldsFrom line steps (Utf8.size (lead ++ early ++ ['W']))) ∨
    ∃ before category after, FirstTag (lead ++ early) before category after ∧
      warningLineFieldsFrom line (steps + 1) (Utf8.size lead) = some (some (category,
        if trimSource before = [] then trimSource after else trimSource before)) := by
  have dropped : Utf8.dropTo line (Utf8.size lead) = some rest :=
    split ▸ Utf8.dropTo_append lead rest
  have stop : Utf8.size lead + Utf8.size early = Utf8.size (lead ++ early) :=
    (Utf8.size_append _ _).symm
  have taken : Utf8.takeTo line (Utf8.size (lead ++ early)) = some (lead ++ early) := by
    rw [split, (Utf8.splitOnce_some found).1, List.append_assoc, ← List.append_assoc lead,
      Utf8.takeTo_append]
  rcases tagBounds_cases (lead ++ early) with
    ⟨none, clear⟩ | ⟨before, category, after, first, bounds⟩
  · left
    refine ⟨clear, ?_⟩
    have next : Utf8.size (lead ++ early) + 1 = Utf8.size (lead ++ early ++ ['W']) := by
      rw [Utf8.size_append _ ['W']]
      rfl
    simp only [warningLineFieldsFrom, dropped, Utf8.find, found, Option.map_some, stop, taken, none,
      Option.bind_eq_bind, Option.bind_some, next]
  · right
    have shape := first.tag.split
    have next : Utf8.size before + 1 = Utf8.size (before ++ ['[']) := by
      rw [Utf8.size_append]
      rfl
    have lead_ : Utf8.takeTo (lead ++ early) (Utf8.size before) = some before := by
      rw [shape, Utf8.takeTo_append]
    have between : Utf8.slice (lead ++ early) (Utf8.size before + 1)
        (Utf8.size before + 1 + Utf8.size category) = some category := by
      rw [next, shape, show before ++ '[' :: (category ++ ']' :: after) =
        before ++ ['['] ++ category ++ ']' :: after by simp, Utf8.slice_append]
    have tail : Utf8.dropTo (lead ++ early) (Utf8.size before + 1 + Utf8.size category + 1) =
        some after := by
      have offset : Utf8.size before + 1 + Utf8.size category + 1 =
          Utf8.size (before ++ ['['] ++ category ++ [']']) := by
        rw [next, Utf8.size_append _ [']'], Utf8.size_append _ category]
        rfl
      rw [offset, shape, show before ++ '[' :: (category ++ ']' :: after) =
        before ++ ['['] ++ category ++ [']'] ++ after by simp, Utf8.dropTo_append]
    refine ⟨before, category, after, first, ?_⟩
    simp only [warningLineFieldsFrom, dropped, Utf8.find, found, Option.map_some, stop, taken,
      bounds, lead_, tail, between, Option.bind_eq_bind, Option.bind_some]

end Steps

theorem warningLineFieldsFrom_answers {lead : Line} {steps : Nat} (enough : rest.length < steps)
    (split : line = lead ++ rest) (passed : Passed line lead.length) :
    ∃ answer, warningLineFieldsFrom line steps (Utf8.size lead) = some answer ∧
      Answers line answer ∧ Located line answer := by
  induction steps generalizing lead rest with
  | zero => exact absurd enough (Nat.not_lt_zero _)
  | succ steps ih =>
      cases found : Utf8.splitOnce warningMarker rest with
      | none =>
          refine ⟨none, warningLineFieldsFrom_none steps split found, ?_, trivial⟩
          intro head late marked
          rcases Nat.lt_or_ge head.length lead.length with before | behind
          · exact passed head late marked before
          · obtain ⟨middle, _, same⟩ := rest_of_marker split marked behind
            exact absurd same (Utf8.splitOnce_none found middle late)
      | some parts =>
          rcases parts with ⟨early, late⟩
          obtain ⟨same, least⟩ := Utf8.splitOnce_some found
          have whole : line = lead ++ early ++ warningMarker ++ late := by
            rw [split, same]
            simp
          -- The markers between the place and this one are none.
          have next : ∀ first behind, line = first ++ warningMarker ++ behind →
              lead.length ≤ first.length → (lead ++ early).length ≤ first.length := by
            intro first behind marked place
            obtain ⟨middle, rfl, other⟩ := rest_of_marker split marked place
            have short := least middle behind other
            simp only [List.length_append]
            omega
          rcases warningLineFieldsFrom_marker steps split found with
            ⟨clear, answer⟩ | ⟨before, category, after, first, answer⟩
          · have shorter : ("arning:".toList ++ late).length < steps := by
              rw [same] at enough
              simp only [List.length_append] at enough ⊢
              have length : warningMarker.length = "arning:".toList.length + 1 := rfl
              omega
            have behind : line = lead ++ early ++ ['W'] ++ ("arning:".toList ++ late) := by
              rw [whole, warningMarker_eq]
              simp only [List.append_assoc]
            have later : Passed line (lead ++ early ++ ['W']).length := by
              intro first behind marked short
              rcases Nat.lt_or_ge first.length lead.length with before | place
              · exact passed first behind marked before
              · have far := next first behind marked place
                simp only [List.length_append, List.length_singleton] at short far
                rw [List.append_assoc _ warningMarker] at marked whole
                have same : first.length = (lead ++ early).length := by
                  rw [List.length_append]
                  omega
                obtain ⟨rfl, _⟩ := List.append_inj (marked.symm.trans whole) same
                exact clear
            obtain ⟨fields, result, answers⟩ :=
              ih shorter behind later
            exact ⟨fields, answer.trans result, answers⟩
          · have shown : ShowsAt line (lead ++ early) late category := by
              refine ⟨whole, ⟨before, after, first⟩, fun other behind marked short => ?_⟩
              rcases Nat.lt_or_ge other.length lead.length with before_ | place
              · exact passed other behind marked before_
              · exact absurd (next other behind marked place) (Nat.not_le.mpr short)
            exact ⟨_, answer, ⟨lead ++ early, late, shown⟩,
              lead ++ early, late, before, after, shown, first, rfl⟩

/-- The reading of a line never fails, and it tells the category that the line shows. -/
theorem warningLineFields_answers (line : Line) :
    ∃ answer, warningLineFields line = some answer ∧ Answers line answer ∧ Located line answer :=
  warningLineFieldsFrom_answers (Nat.lt_succ_self line.length) (List.nil_append line).symm
    fun _ _ _ short => absurd short (Nat.not_lt_zero _)

end Markers

section Lines

variable {line category : Line}

/-- These are the category and the location that are read off a line. -/
def fields (line : Line) : Option (Line × Line) := (warningLineFields line).getD none

theorem warningLineFields_eq (line : Line) : warningLineFields line = some (fields line) := by
  obtain ⟨answer, read, _⟩ := warningLineFields_answers line
  rw [fields, read, Option.getD_some]

theorem located_of_warningLineFields {answer : Option (Line × Line)}
    (read : warningLineFields line = some answer) : Located line answer := by
  obtain ⟨other, same, _, located⟩ := warningLineFields_answers line
  rw [read, Option.some.injEq] at same
  rwa [same]

theorem fields_answers (line : Line) : Answers line (fields line) := by
  obtain ⟨answer, read, answers, _⟩ := warningLineFields_answers line
  rwa [fields, read, Option.getD_some]

theorem category_eq_some_iff : (fields line).map Prod.fst = some category ↔ Shows line category := by
  have answers := fields_answers line
  cases read : fields line with
  | none =>
      rw [read] at answers
      refine ⟨nofun, ?_⟩
      rintro ⟨head, rest, shown⟩
      obtain ⟨before, after, first⟩ := shown.tagged
      exact absurd first.tag (answers head rest shown.split _ _ _)
  | some parts =>
      rw [read] at answers
      rw [Option.map_some, Option.some.injEq]
      exact ⟨fun same => same ▸ answers, fun shown => Shows.unique answers shown⟩

end Lines

end FramaCMcp.ParseDiagnostics
