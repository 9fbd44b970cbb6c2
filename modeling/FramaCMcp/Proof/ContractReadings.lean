/-
This file shows when the result-range lint reads what a contract says.
-/

import FramaCMcp.Proof.FormulaPlaces
import FramaCMcp.Proof.ResultOverflow

namespace FramaCMcp.ResultRange

section Contracts

variable {State : Type}

/-- The scan takes a literal on the other side of the comparison as a bound. -/
def Spot.IsRead (spot : Spot State) : Prop :=
  if spot.onRight then
    resultWord <+: spot.link.right.text ∧ (literalBefore spot.link.left.text).isSome
  else resultWord <:+ spot.link.left.text ∧ (literalAfter spot.link.right.text).isSome

/-- One operand is a literal and the other one is the result. -/
def Link.IsWhole (link : Link State) : Prop :=
  (∃ negative digits suffix decimal, link.left = .literal negative digits suffix decimal ∧
      link.right = .result) ∨
    ∃ negative digits suffix decimal, link.left = .result ∧
      link.right = .literal negative digits suffix decimal

/-- No literal stands next to the mark and an occurrence of the word inside the text. -/
def Quiet (mark : Mark) (text : Line) : Prop :=
  ∀ before after, text = before ++ resultWord ++ after →
    mark.before before = none ∧ mark.behind after = none

/-- Where a literal is read, whole operands are compared at the place. -/
structure PlainFor (mark : Mark) (place : Place) (clause : Clause State) : Prop where
  cores : ∀ core ∈ clause.cores, Quiet mark core
  spots : ∀ spot ∈ clause.spots .top [], spot.link.relation.text = mark.operator → spot.IsRead →
    spot.place = place ∧ spot.link.IsWhole

/-- Bounds stand at the top level, and equalities are sides of an equivalence there. A text without
an equivalence sign has no determined values. -/
structure Plain (clause : Clause State) : Prop where
  bounds : ∀ mark ∈ orderMarks, PlainFor mark .top clause
  equalities : (Utf8.find "<==>".toList clause.text).isSome → PlainFor equalMark .side clause

/-- The spot is the result in a comparison with the literal. -/
structure Spot.States (spot : Spot State) (mark : Mark) (place : Place) (literal : Int) : Prop where
  place : spot.place = place
  relation : spot.link.relation.text = mark.operator
  operand : spot.operand = .result
  pins : spot.link.Pins literal

/-- Each occurrence of the word that a literal is read next to is the result in a comparison with
this literal at the place. -/
def Counts (mark : Mark) (place : Place) (clause : Clause State) : Prop :=
  ∀ before after, clause.text = before ++ resultWord ++ after → ∀ literal,
    (mark.before before = some literal → ∃ spot ∈ clause.spots .top [],
      spot.lead = before ∧ spot.onRight = true ∧ spot.States mark place literal) ∧
    (mark.behind after = some literal → ∃ spot ∈ clause.spots .top [],
      spot.lead = before ∧ spot.onRight = false ∧ spot.States mark place literal)

def texts (contract : List (Clause State)) : List Line := contract.map Clause.text

/-- The range follows from the postconditions, each determined value is a side of an equivalence at
the top level, and nothing else counts. -/
structure ReadsOnly (contract : List (Clause State)) : Prop where
  range : ∀ low high, resultRange (texts contract) = .ok (some (low, high)) →
    ∀ state result, (∀ clause ∈ contract, clause.Holds state result) →
      low ≤ result ∧ result ≤ high
  determined : ∀ values, resultValuesDetermined (texts contract) = .ok values →
    ∀ value, values.contains value = true → ∃ clause ∈ contract, clause.Determines value
  bounds : ∀ clause ∈ contract, ∀ mark ∈ orderMarks, Counts mark .top clause
  equalities : ∀ clause ∈ contract, (Utf8.find "<==>".toList clause.text).isSome →
    Counts equalMark .side clause

def Comparison.mark (comparison : Comparison) : Mark :=
  ⟨comparison.operator, if comparison.operator.length = 1 then ['='] else []⟩

theorem mark_mem {comparison : Comparison} (member : comparison ∈ comparisons) :
    comparison.mark ∈ orderMarks := by
  simp only [comparisons, List.mem_cons, List.not_mem_nil, or_false] at member
  rcases member with rfl | rfl | rfl | rfl <;> simp [Comparison.mark, orderMarks]

theorem rightLiteral_eq {comparison : Comparison} (member : comparison ∈ comparisons)
    (after : Line) : rightLiteral comparison after = comparison.mark.behind after := by
  simp only [comparisons, List.mem_cons, List.not_mem_nil, or_false] at member
  have lax (next : Option Char) : next.all (fun letter => !([] : Line).contains letter) = true := by
    cases next <;> rfl
  have strict (next : Option Char) :
      next.all (fun letter => !(['='] : Line).contains letter) = !(next == some '=') := by
    cases next with
    | none => rfl
    | some letter =>
        rw [Option.all_some, List.contains_cons, List.contains_nil, Bool.or_false]
        rfl
  rw [rightLiteral, Mark.behind]
  rcases member with rfl | rfl | rfl | rfl
  · exact congrArg (fun next => if ['<', '='].isPrefixOf (Line.trimStart after) && next then _
      else none) (lax _).symm
  · exact congrArg (fun next => if ['<'].isPrefixOf (Line.trimStart after) && next then _
      else none) (strict _).symm
  · exact congrArg (fun next => if ['>', '='].isPrefixOf (Line.trimStart after) && next then _
      else none) (lax _).symm
  · exact congrArg (fun next => if ['>'].isPrefixOf (Line.trimStart after) && next then _
      else none) (strict _).symm

variable {literal : Int} {contract : List (Clause State)} {spot : Spot State} {place : Place}
    {mark : Mark} {clause : Clause State} {lead : Line}

theorem mem_equalLiterals {before after : Line} (member : literal ∈ equalLiterals (before, after)) :
    equalMark.before before = some literal ∨ equalMark.behind after = some literal := by
  rcases List.mem_append.mp member with right | left
  · refine .inr ?_
    have read := Option.mem_toList.mp right
    split_ifs at read with found
    · rw [Bool.and_eq_true, bne_iff_ne] at found
      rw [Mark.behind, if_pos]
      · exact read
      · rw [Bool.and_eq_true]
        refine ⟨found.1, ?_⟩
        change ((Line.trimStart after).drop 2).head?.all _ = true
        cases next : ((Line.trimStart after).drop 2).head? with
        | none => rfl
        | some letter =>
            have other : letter ≠ '>' := fun same => found.2 (by rw [next, same])
            rw [Option.all_some, equalMark, List.contains_cons, List.contains_nil, Bool.or_false,
              beq_eq_false_iff_ne.mpr other]
            rfl
  · exact .inl (Option.mem_toList.mp left)

theorem exists_occurrence {reading : Reading} (member : reading ∈ readings (texts contract)) :
    ∃ clause ∈ contract, ∃ before after, clause.text = before ++ resultWord ++ after ∧
      ∃ comparison ∈ comparisons, reading.strictBy = comparison.strictBy ∧
        ((comparison.mark.before before = some reading.literal ∧
            reading.isLow = comparison.leftIsLow) ∨
          (comparison.mark.behind after = some reading.literal ∧
            reading.isLow = !comparison.leftIsLow)) := by
  obtain ⟨before, after, listed, read⟩ := mem_readings.mp member
  obtain ⟨clause, inside, split⟩ := List.mem_map.mp listed
  obtain ⟨comparison, known, here⟩ := List.mem_flatMap.mp read
  refine ⟨clause, inside, before, after, split, comparison, known, ?_⟩
  rcases List.mem_append.mp here with left | right
  · obtain ⟨literal, found, rfl⟩ := Option.map_eq_some_iff.mp (Option.mem_toList.mp left)
    exact ⟨rfl, .inl ⟨found, rfl⟩⟩
  · obtain ⟨literal, found, rfl⟩ := Option.map_eq_some_iff.mp (Option.mem_toList.mp right)
    exact ⟨rfl, .inr ⟨rightLiteral_eq known after ▸ found, rfl⟩⟩

/-- The literal that is read off a comparison of whole operands is the literal of the comparison. -/
theorem Spot.ReadsBefore.states {before : Line} (read : spot.ReadsBefore mark literal before)
    (here : spot.place = place) (whole : spot.link.IsWhole) : spot.States mark place literal := by
  obtain ⟨lead, spotPlace, ⟨left, relation, right⟩, onRight⟩ := spot
  obtain ⟨side, -, same, starts, taken⟩ := read
  dsimp only at side same starts taken
  subst side
  rcases whole with ⟨negative, digits, suffix, decimal, first, second⟩ |
    ⟨negative, digits, suffix, decimal, first, second⟩
  · dsimp only at first second
    subst first second
    exact ⟨here, same, rfl,
      .inl ⟨negative, digits, suffix, decimal, rfl, literalBefore_literal taken, rfl⟩⟩
  · dsimp only at first second
    subst first second
    exact absurd (starts.subset List.mem_cons_self) (notMem_literal negative decimal)

theorem Spot.ReadsBehind.states {before : Line} (read : spot.ReadsBehind mark literal before)
    (here : spot.place = place) (whole : spot.link.IsWhole) :
    spot.lead = before ∧ spot.States mark place literal := by
  obtain ⟨lead, spotPlace, ⟨left, relation, right⟩, onRight⟩ := spot
  obtain ⟨side, ⟨front, ends, begun⟩, same, taken⟩ := read
  dsimp only at side ends begun same taken
  subst side
  rcases whole with ⟨negative, digits, suffix, decimal, first, second⟩ |
    ⟨negative, digits, suffix, decimal, first, second⟩
  · dsimp only at first second
    subst first second
    refine absurd ?_ (@notMem_literal State negative _ _ decimal)
    rw [ends]
    exact List.mem_append_right front List.mem_cons_self
  · dsimp only at first second
    subst first second
    obtain rfl : front = [] := List.self_eq_append_left.mp ends
    rw [List.append_nil] at begun
    exact ⟨begun.symm, here, same, rfl,
      .inr ⟨negative, digits, suffix, decimal, rfl, rfl, literalAfter_literal taken⟩⟩

theorem counts_of_plain (isMark : IsMark mark) (plain : PlainFor mark place clause) :
    Counts mark place clause := by
  intro before after split literal
  have outside : ¬ ReadInside mark literal clause.cores := by
    rintro ⟨core, listed, front, back, own, taken⟩
    obtain ⟨first, second⟩ := plain.cores core listed front back own
    rw [first, second] at taken
    rcases taken with none | none <;> cases none
  constructor
  · intro read
    rcases clause.before_site isMark .top [] split read with inside | ⟨spot, member, found⟩
    · exact absurd inside outside
    · obtain ⟨side, lead, same, starts, taken⟩ := id found
      have isRead : spot.IsRead := by
        rw [Spot.IsRead, if_pos side]
        exact ⟨starts, Option.isSome_iff_exists.mpr ⟨_, taken⟩⟩
      obtain ⟨here, whole⟩ := plain.spots spot member same isRead
      exact ⟨spot, member, lead, side, found.states here whole⟩
  · intro read
    rcases clause.behind_site isMark .top [] split read with inside | ⟨spot, member, found⟩
    · exact absurd inside outside
    · obtain ⟨side, ⟨front, ends, -⟩, same, taken⟩ := id found
      have isRead : spot.IsRead := by
        rw [Spot.IsRead, side]
        exact ⟨⟨front, ends.symm⟩, Option.isSome_iff_exists.mpr ⟨_, taken⟩⟩
      obtain ⟨here, whole⟩ := plain.spots spot member same isRead
      obtain ⟨lead, states⟩ := found.states here whole
      exact ⟨spot, member, lead, side, states⟩

theorem Place.ofPart_below (below : place ≠ .top) : place.ofPart = .inner := by
  cases place with
  | top => exact absurd rfl below
  | side => rfl
  | inner => rfl

theorem Place.ofSide_below (below : place ≠ .top) : place.ofSide = .inner := by
  cases place with
  | top => exact absurd rfl below
  | side => rfl
  | inner => rfl

theorem chainSpots_place {first : Term State} {links : List (Relation × Term State)}
    (member : spot ∈ chainSpots place lead first links) : spot.place = place := by
  induction links generalizing lead first with
  | nil => cases member
  | cons link links ih =>
      rcases List.mem_cons.mp member with rfl | member
      · rfl
      rcases List.mem_cons.mp member with rfl | later
      · rfl
      · exact ih later

theorem place_of_parts {left right : List (Spot State)} {place part : Place}
    (below : place ≠ .top → part = .inner) (member : spot ∈ left ++ right)
    (first : spot ∈ left → part = .inner → spot.place = .inner)
    (second : spot ∈ right → part = .inner → spot.place = .inner) :
    (place = .inner → spot.place = .inner) ∧ (place = .side → spot.place ≠ .top) := by
  have inside (under : place ≠ .top) : spot.place = .inner :=
    (List.mem_append.mp member).elim (first · (below under)) (second · (below under))
  constructor
  · rintro rfl
    exact inside (by decide)
  · rintro rfl
    exact inside (by decide) ▸ by decide

/-- What is inside another predicate stays there, and a side has no comparison of the top level. -/
theorem place_of_mem (member : spot ∈ clause.spots place lead) :
    (place = .inner → spot.place = .inner) ∧ (place = .side → spot.place ≠ .top) := by
  induction clause generalizing place lead with
  | chain first links =>
      rw [chainSpots_place member]
      constructor
      · rintro rfl
        rfl
      · rintro rfl
        rw [Place.ofChain]
        split_ifs <;> decide
  | both left right first second =>
      exact place_of_parts Place.ofPart_below member (fun here => (first here).1)
        fun there => (second there).1
  | equivalence left right first second =>
      exact place_of_parts Place.ofSide_below member (fun here => (first here).1)
        fun there => (second there).1
  | group front tail frontBlank tailBlank inner inside => exact inside member
  | other front text tail frontBlank tailBlank core meaning => cases member

theorem chainHolds_of_mem {state : State} {result : Int} {first : Term State}
    {links : List (Relation × Term State)} (holds : ChainHolds state result first links)
    (member : spot ∈ chainSpots place lead first links) :
    spot.link.relation.Holds (spot.link.left.value state result)
      (spot.link.right.value state result) := by
  induction links generalizing lead first with
  | nil => cases member
  | cons link links ih =>
      rcases List.mem_cons.mp member with rfl | member
      · exact holds.1
      rcases List.mem_cons.mp member with rfl | later
      · exact holds.1
      · exact ih holds.2 later

theorem Clause.Holds.comparison {state : State} {result : Int} (holds : clause.Holds state result)
    (member : spot ∈ clause.spots .top lead) (here : spot.place = .top) :
    spot.link.relation.Holds (spot.link.left.value state result)
      (spot.link.right.value state result) := by
  induction clause generalizing lead with
  | chain first links =>
      cases links with
      | nil => cases member
      | cons link links => exact chainHolds_of_mem holds member
  | both left right first second =>
      rcases List.mem_append.mp member with inLeft | inRight
      · exact first holds.1 inLeft
      · exact second holds.2 inRight
  | equivalence left right first second =>
      rcases List.mem_append.mp member with inLeft | inRight
      · exact absurd here ((place_of_mem inLeft).2 rfl)
      · exact absurd here ((place_of_mem inRight).2 rfl)
  | group front tail frontBlank tailBlank inner inside => exact inside holds member
  | other front text tail frontBlank tailBlank core meaning => cases member

/-- A side of an equivalence with one comparison is this comparison. -/
theorem isEquality_of_mem (member : spot ∈ clause.spots .side lead) (here : spot.place = .side)
    (equal : spot.link.relation = .eq) (pins : spot.link.Pins literal) :
    clause.IsEquality literal := by
  induction clause generalizing lead with
  | chain first links =>
      have single : links.length = 1 := by
        by_contra more
        rw [chainSpots_place member, Place.ofChain, if_pos ⟨rfl, more⟩] at here
        cases here
      obtain ⟨⟨relation, term⟩, rfl⟩ := List.length_eq_one_iff.mp single
      have link : spot.link = ⟨first.operand, relation, term.operand⟩ := by
        rcases List.mem_cons.mp member with rfl | member
        · rfl
        · obtain rfl := List.mem_singleton.mp member
          rfl
      rw [link] at equal pins
      obtain rfl : relation = .eq := equal
      exact pins
  | both left right first second =>
      rcases List.mem_append.mp member with inLeft | inRight
      · rw [(place_of_mem inLeft).1 rfl] at here
        cases here
      · rw [(place_of_mem inRight).1 rfl] at here
        cases here
  | equivalence left right first second =>
      rcases List.mem_append.mp member with inLeft | inRight
      · rw [(place_of_mem inLeft).1 rfl] at here
        cases here
      · rw [(place_of_mem inRight).1 rfl] at here
        cases here
  | group front tail frontBlank tailBlank inner inside => exact inside member
  | other front text tail frontBlank tailBlank core meaning => cases member

theorem determines_of_mem (member : spot ∈ clause.spots .top lead) (here : spot.place = .side)
    (equal : spot.link.relation = .eq) (pins : spot.link.Pins literal) :
    clause.Determines literal := by
  induction clause generalizing lead with
  | chain first links =>
      rw [chainSpots_place member] at here
      cases here
  | both left right first second =>
      rcases List.mem_append.mp member with inLeft | inRight
      · exact .inl (first inLeft)
      · exact .inr (second inRight)
  | equivalence left right first second =>
      rcases List.mem_append.mp member with inLeft | inRight
      · exact .inl (isEquality_of_mem inLeft here equal pins)
      · exact .inr (isEquality_of_mem inRight here equal pins)
  | group front tail frontBlank tailBlank inner inside => exact inside member
  | other front text tail frontBlank tailBlank core meaning => cases member

theorem comparison_of_text {comparison : Comparison} (known : comparison ∈ comparisons)
    {relation : Relation} (same : relation.text = comparison.operator) :
    (relation = .le ∧ comparison = ⟨['<', '='], 0, true⟩) ∨
      (relation = .lt ∧ comparison = ⟨['<'], 1, true⟩) ∨
      (relation = .ge ∧ comparison = ⟨['>', '='], 0, false⟩) ∨
      (relation = .gt ∧ comparison = ⟨['>'], 1, false⟩) := by
  simp only [comparisons, List.mem_cons, List.not_mem_nil, or_false] at known
  rcases known with rfl | rfl | rfl | rfl <;> cases relation <;>
    first | exact absurd same (by decide) | simp

theorem bound_of_counts (counts : ∀ clause ∈ contract, ∀ mark ∈ orderMarks, Counts mark .top clause)
    {reading : Reading} (member : reading ∈ readings (texts contract)) {state : State}
    {result : Int} (holds : ∀ clause ∈ contract, clause.Holds state result) :
    if reading.isLow then reading.value ≤ result else result ≤ reading.value := by
  obtain ⟨clause, inside, before, after, split, comparison, known, strict, found⟩ :=
    exists_occurrence member
  have both := counts clause inside _ (mark_mem known) before after split reading.literal
  rcases found with ⟨read, isLow⟩ | ⟨read, isLow⟩
  · obtain ⟨spot, listed, -, side, states⟩ := both.1 read
    have compared := (holds clause inside).comparison listed states.place
    have agree := comparison_of_text known states.relation
    have right : spot.link.right = .result := by
      have operand := states.operand
      rwa [Spot.operand, if_pos side] at operand
    rcases states.pins with ⟨negative, digits, suffix, decimal, left, value, -⟩ |
      ⟨negative, digits, suffix, decimal, -, other, -⟩
    · rw [left, right, Operand.value, Operand.value, value] at compared
      rw [Reading.value, isLow, strict]
      rcases agree with ⟨relation, rfl⟩ | ⟨relation, rfl⟩ | ⟨relation, rfl⟩ | ⟨relation, rfl⟩ <;>
        rw [relation] at compared <;> simp only [Relation.Holds] at compared <;> simp <;> omega
    · rw [right] at other
      cases other
  · obtain ⟨spot, listed, -, side, states⟩ := both.2 read
    have compared := (holds clause inside).comparison listed states.place
    have agree := comparison_of_text known states.relation
    have left : spot.link.left = .result := by
      have operand := states.operand
      rwa [Spot.operand, side] at operand
    rcases states.pins with ⟨negative, digits, suffix, decimal, other, -, -⟩ |
      ⟨negative, digits, suffix, decimal, -, right, value⟩
    · rw [left] at other
      cases other
    · rw [left, right, Operand.value, Operand.value, value] at compared
      rw [Reading.value, isLow, strict]
      rcases agree with ⟨relation, rfl⟩ | ⟨relation, rfl⟩ | ⟨relation, rfl⟩ | ⟨relation, rfl⟩ <;>
        rw [relation] at compared <;> simp only [Relation.Holds] at compared <;> simp <;> omega

/-- Each value that is read is a side of an equivalence. -/
theorem determined_of_counts
    (counts : ∀ clause ∈ contract, (Utf8.find "<==>".toList clause.text).isSome →
      Counts equalMark .side clause) {value : Int}
    (member : value ∈ determinedValues (texts contract)) :
    ∃ clause ∈ contract, clause.Determines value := by
  obtain ⟨text, kept, found⟩ := List.mem_flatMap.mp member
  obtain ⟨listed, equivalent⟩ := List.mem_filter.mp kept
  obtain ⟨clause, inside, rfl⟩ := List.mem_map.mp listed
  obtain ⟨⟨before, after⟩, split, read⟩ := List.mem_flatMap.mp found
  have both := counts clause inside equivalent before after (mem_splits.mp split) value
  have equal {link : Link State} (same : link.relation.text = equalMark.operator) :
      link.relation = .eq := by
    cases relation : link.relation <;> rw [relation] at same <;> first | rfl | cases same
  rcases mem_equalLiterals read with read | read
  · obtain ⟨spot, here, -, -, states⟩ := both.1 read
    exact ⟨clause, inside, determines_of_mem here states.place (equal states.relation) states.pins⟩
  · obtain ⟨spot, here, -, -, states⟩ := both.2 read
    exact ⟨clause, inside, determines_of_mem here states.place (equal states.relation) states.pins⟩

/-- The range lies between bounds that were read. -/
theorem bounds_of_range {texts : List Line} {low high : Int}
    (range : resultRange texts = .ok (some (low, high))) :
    (∃ reading ∈ readings texts, reading.isLow = true ∧ reading.value = low) ∧
      ∃ reading ∈ readings texts, reading.isLow = false ∧ reading.value = high := by
  have fits : ∀ row ∈ readings texts, Fits row.value := by
    intro row member
    by_contra large
    rw [resultRange_overflow member large] at range
    cases range
  obtain ⟨bounds, ⟨lowest, highest⟩, found⟩ := resultRange_eq fits
  rw [range] at found
  have found := Except.ok.inj found
  cases below : bounds.low with
  | none => rw [below] at found; cases found
  | some least =>
      cases above : bounds.high with
      | none => rw [below, above] at found; cases found
      | some greatest =>
          rw [below, above] at found
          dsimp only at found
          split_ifs at found
          obtain ⟨rfl, rfl⟩ := Prod.mk.inj (Option.some.inj found)
          rw [below] at lowest
          rw [above] at highest
          obtain ⟨first, firstMember, firstValue⟩ := List.mem_map.mp lowest.1
          obtain ⟨last, lastMember, lastValue⟩ := List.mem_map.mp highest.1
          obtain ⟨firstRead, firstSide⟩ := List.mem_filter.mp firstMember
          obtain ⟨lastRead, lastSide⟩ := List.mem_filter.mp lastMember
          exact ⟨⟨first, firstRead, firstSide, firstValue⟩, last, lastRead, by simpa using lastSide,
            lastValue⟩

/-- What counts gives the range and the determined values. -/
theorem readsOnly_of_counts
    (bounds : ∀ clause ∈ contract, ∀ mark ∈ orderMarks, Counts mark .top clause)
    (equalities : ∀ clause ∈ contract, (Utf8.find "<==>".toList clause.text).isSome →
      Counts equalMark .side clause) : ReadsOnly contract where
  range := by
    intro low high range state result holds
    obtain ⟨⟨first, firstRead, firstSide, rfl⟩, last, lastRead, lastSide, rfl⟩ :=
      bounds_of_range range
    have below := bound_of_counts bounds firstRead holds
    have above := bound_of_counts bounds lastRead holds
    rw [firstSide] at below
    rw [lastSide] at above
    exact ⟨below, above⟩
  determined := by
    intro values found value contained
    rw [resultValuesDetermined_eq] at found
    obtain rfl := Except.ok.inj found
    have member := (OrderedMap.mem_keys _ _).mpr contained
    rcases (OrderedSet.mem_keys_addAll _ _ _).mp member with read | none
    · exact determined_of_counts equalities read
    · cases none
  bounds := bounds
  equalities := equalities

theorem Link.Pins.isWhole {link : Link State} (pins : link.Pins literal) : link.IsWhole := by
  rcases pins with ⟨negative, digits, suffix, decimal, left, -, right⟩ |
    ⟨negative, digits, suffix, decimal, left, right, -⟩
  · exact .inl ⟨negative, digits, suffix, decimal, left, right⟩
  · exact .inr ⟨negative, digits, suffix, decimal, left, right⟩

/-- A text of another form is quiet where only comparisons count. -/
theorem quiet_of_counts (isMark : IsMark mark) (counts : Counts mark place clause) {core : Line}
    (member : core ∈ clause.cores) : Quiet mark core := by
  intro before after own
  obtain ⟨lead, piece⟩ := mem_pieces_of_mem_cores [] member
  obtain ⟨isPiece, -⟩ := Clause.isPiece opensAll_nil _ piece
  obtain ⟨rest, whole, stops⟩ := isPiece.split
  have split : clause.text = (lead ++ before) ++ resultWord ++ (after ++ rest) := by
    rw [List.nil_append] at whole
    simp only [whole, own, List.append_assoc]
  have within : before.length < core.length := by
    have lengths := congrArg List.length own
    have long := List.length_pos_iff.mpr resultWord_ne_nil
    simp only [List.length_append] at lengths
    omega
  have core := isPiece.core
  constructor
  · apply Option.eq_none_iff_forall_not_mem.mpr
    intro literal read
    have filled : before ≠ [] := by
      rintro rfl
      rw [before_opening isMark isBlank_nil.opening] at read
      cases read
    have fresh : Fresh before := by
      have begun := core.fresh []
      rw [List.append_nil] at begun
      rw [own, List.append_assoc] at begun
      exact begun.of_append filled
    have taken := (before_append_open isMark isPiece.isOpen fresh).trans read
    obtain ⟨spot, listed, start, -⟩ := (counts _ _ split literal).1 taken
    have other := (Clause.isSpot opensAll_nil spot listed).2
    rw [start] at other
    exact filled (Clause.start_inside piece other within).1
  · apply Option.eq_none_iff_forall_not_mem.mpr
    intro literal read
    have filled : after ≠ [] := by
      rintro rfl
      rw [behind_closing isMark isBlank_nil.closing] at read
      cases read
    have settled : Settled after := by
      have ended := core.settled []
      rw [List.nil_append] at ended
      rw [own] at ended
      exact ended.of_append filled
    have taken := (behind_append_settled isMark settled stops.notDigit).trans read
    obtain ⟨spot, listed, start, -, states⟩ := (counts _ _ split literal).2 taken
    have other := (Clause.isSpot opensAll_nil spot listed).2
    rw [start, states.operand] at other
    obtain ⟨rfl, same⟩ := Clause.start_inside piece other within
    have word : resultWord = resultWord ++ after := same.trans own
    exact filled (List.self_eq_append_right.mp word)

/-- A comparison that is read stands where it counts. -/
theorem whole_of_counts (isMark : IsMark mark) (counts : Counts mark place clause)
    (member : spot ∈ clause.spots .top []) (same : spot.link.relation.text = mark.operator)
    (isRead : spot.IsRead) : spot.place = place ∧ spot.link.IsWhole := by
  obtain ⟨⟨front, before, behind, rest, stands⟩, piece⟩ := Clause.isSpot opensAll_nil spot member
  have whole := stands.split
  have lead := stands.lead
  rw [List.nil_append] at whole
  have settle {other : Spot State} {literal : Int} (listed : other ∈ clause.spots .top [])
      (start : other.lead = spot.lead) (side : other.onRight = spot.onRight)
      (states : other.States mark place literal) : spot.place = place ∧ spot.link.IsWhole := by
    obtain rfl := Clause.spot_unique listed member start side
    exact ⟨states.place, states.pins.isWhole⟩
  rw [Spot.IsRead] at isRead
  cases side : spot.onRight with
  | true =>
      rw [if_pos side] at isRead lead
      obtain ⟨⟨more, starts⟩, read⟩ := isRead
      obtain ⟨literal, read⟩ := Option.isSome_iff_exists.mp read
      have operand := spot.link.left.core.fresh []
      rw [List.append_nil] at operand
      have taken : literalBefore (front ++ spot.link.left.text ++ before) = some literal := by
        rw [literalBefore_append_blank _ stands.beforeBlank,
          literalBefore_append_open stands.isOpen operand, read]
      have found := before_of_relation stands.behindBlank same taken
      have split : clause.text = spot.lead ++ resultWord ++ (more ++ rest) := by
        rw [whole, lead, ← starts]
        simp only [List.append_assoc]
      have shape : front ++ spot.link.left.text ++ before ++ spot.link.relation.text ++ behind =
          spot.lead := by
        rw [lead]
        simp only [List.append_assoc]
      rw [shape] at found
      obtain ⟨other, listed, start, right, states⟩ := (counts _ _ split literal).1 found
      exact settle listed start (right.trans side.symm) states
  | false =>
      rw [side] at isRead lead
      obtain ⟨⟨inner, ends⟩, read⟩ := isRead
      obtain ⟨literal, read⟩ := Option.isSome_iff_exists.mp read
      have operand := spot.link.right.core.settled []
      rw [List.nil_append] at operand
      have taken : literalAfter (behind ++ (spot.link.right.text ++ rest)) = some literal := by
        rw [literalAfter_append_blank stands.behindBlank,
          literalAfter_append_settled operand stands.stops.notDigit, read]
      have found := behind_of_relation isMark stands.beforeBlank
        (head_append_fresh stands.behindBlank (spot.link.right.core.fresh rest)) same taken
      have split : clause.text = (spot.lead ++ inner) ++ resultWord ++
          (before ++ (spot.link.relation.text ++
            (behind ++ (spot.link.right.text ++ rest)))) := by
        rw [whole, ← ends]
        have start : spot.lead = front := lead
        simp only [start, List.append_assoc]
      obtain ⟨other, listed, start, left, states⟩ := (counts _ _ split literal).2 found
      have own : (spot.lead, spot.link.left.text) ∈ clause.pieces [] := by
        rw [Spot.operand, side] at piece
        exact piece
      have there := (Clause.isSpot opensAll_nil other listed).2
      rw [start, states.operand] at there
      have within : inner.length < spot.link.left.text.length := by
        have long := List.length_pos_iff.mpr resultWord_ne_nil
        rw [← ends, List.length_append]
        omega
      obtain ⟨rfl, -⟩ := Clause.start_inside own there within
      rw [List.append_nil] at start
      exact settle listed start (left.trans side.symm) states

theorem plain_of_counts (isMark : IsMark mark) (counts : Counts mark place clause) :
    PlainFor mark place clause where
  cores := fun _ member => quiet_of_counts isMark counts member
  spots := fun _ member same isRead => whole_of_counts isMark counts member same isRead

/-- The lint reads what a contract says exactly where each literal that it takes stands in a
comparison of whole operands at the right place. -/
theorem readsOnly_iff (contract : List (Clause State)) :
    ReadsOnly contract ↔ ∀ clause ∈ contract, Plain clause := by
  constructor
  · intro reads clause member
    exact ⟨fun mark order => plain_of_counts (.inl order) (reads.bounds clause member mark order),
      fun equivalent => plain_of_counts (.inr rfl) (reads.equalities clause member equivalent)⟩
  · intro plain
    exact readsOnly_of_counts
      (fun clause member mark order =>
        counts_of_plain (.inl order) ((plain clause member).bounds mark order))
      fun clause member equivalent =>
        counts_of_plain (.inr rfl) ((plain clause member).equalities equivalent)

end Contracts

section Examples

theorem isBlank_space : IsBlank [' '] := by
  intro letter member
  obtain rfl := List.mem_singleton.mp member
  rfl

def digitOperand (digit : Char) (isDigit : digit.isDigit = true) : Operand Int :=
  .literal false [digit] []
    { filled := List.cons_ne_nil _ _
      decimal := fun _ member => List.mem_singleton.mp member ▸ isDigit
      canonical := fun zero => by rw [Option.some.inj zero]
      suffix := fun _ member => absurd member List.not_mem_nil }

def spacedTerm (operand : Operand Int) : Term Int :=
  ⟨[' '], operand, [' '], isBlank_space, isBlank_space⟩

/-- The state is the parameter, and the second literal starts a product with it. -/
def productContract : List (Clause Int) :=
  [.chain (spacedTerm .result) [(.ge, spacedTerm (digitOperand '0' rfl))],
    .chain (spacedTerm .result) [(.le, spacedTerm (.other "3 * n".toList (fun n _ => 3 * n)
      ⟨by decide, fun _ first => Option.some.inj first ▸ rfl,
        fun _ last => Option.some.inj last ▸ rfl⟩))]]

/-- A result of 20 meets the contract where the parameter is 10, and the range ends at 3. -/
theorem not_readsOnly_product : ¬ ReadsOnly productContract := by
  intro reads
  have range : resultRange (texts productContract) = .ok (some (0, 3)) := by decide +kernel
  have holds : ∀ clause ∈ productContract, clause.Holds 10 20 := by
    intro clause member
    simp only [productContract, List.mem_cons, List.not_mem_nil, or_false] at member
    rcases member with rfl | rfl
    · exact ⟨(by decide : (20 : Int) ≥ 0), trivial⟩
    · exact ⟨(by decide : (20 : Int) ≤ 3 * 10), trivial⟩
  exact absurd (reads.range 0 3 range 10 20 holds).2 (by decide)

end Examples

end FramaCMcp.ResultRange
