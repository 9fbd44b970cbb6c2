/-
This file shows that the operands of a formula stand one behind the other in its text.
-/

import FramaCMcp.Proof.FormulaSites

namespace FramaCMcp.ResultRange

section Pieces

variable {State : Type}

/-- The operands of a chain stand behind their leads. -/
def chainPieces (lead : Line) (first : Term State) :
    List (Relation × Term State) → List (Line × Line)
  | [] => [(lead ++ first.lead, first.operand.text)]
  | (relation, term) :: links =>
      (lead ++ first.lead, first.operand.text) ::
        chainPieces (lead ++ first.text ++ relation.text) term links

def Clause.pieces (lead : Line) : Clause State → List (Line × Line)
  | .chain first links => chainPieces lead first links
  | .both left right => left.pieces lead ++ right.pieces (lead ++ left.text ++ bothSign)
  | .equivalence left right =>
      left.pieces lead ++ right.pieces (lead ++ left.text ++ equivalenceSign)
  | .group front _ _ _ inner => inner.pieces (lead ++ (front ++ ['(']))
  | .other front text _ _ _ _ _ => [(lead ++ front, text)]

/-- The text of the piece is neither continued to the left nor to the right. -/
structure IsPiece (whole : Line) (piece : Line × Line) : Prop where
  core : IsCore piece.2
  isOpen : IsOpen piece.1
  split : ∃ rest, whole = piece.1 ++ (piece.2 ++ rest) ∧ Stops rest

theorem Stops.append {text more : Line} (own : Stops text) (further : Stops more) :
    Stops (text ++ more) := by
  cases text with
  | nil => exact further
  | cons letter text => exact own

theorem IsPiece.append {whole more : Line} {piece : Line × Line} (isPiece : IsPiece whole piece)
    (stops : Stops more) : IsPiece (whole ++ more) piece := by
  obtain ⟨rest, split, own⟩ := isPiece.split
  refine ⟨isPiece.core, isPiece.isOpen, rest ++ more, ?_, own.append stops⟩
  rw [split]
  simp only [List.append_assoc]

/-- Every text that opens a formula leaves the lead open. -/
def OpensAll (lead : Line) : Prop := ∀ opening, IsOpening opening → IsOpen (lead ++ opening)

theorem opensAll_nil : OpensAll [] := fun _ isOpening => isOpen_of_opening isOpening

theorem opensAll_relation (lead : Line) (relation : Relation) :
    ∀ blank, IsBlank blank → IsOpen (lead ++ relation.text ++ blank) :=
  fun _ white => isOpen_relation lead relation white

theorem opensAll_connective {sign : Line} (connective : sign = bothSign ∨ sign = equivalenceSign)
    (lead : Line) : OpensAll (lead ++ sign) :=
  fun _ isOpening => isOpen_connective connective lead isOpening

theorem opensAll_bracket (lead : Line) {front : Line} : OpensAll (lead ++ (front ++ ['('])) := by
  intro opening isOpening
  rw [← List.append_assoc]
  exact isOpen_append isOpening (by decide)

theorem isPiece_chain {lead : Line} {first : Term State} {links : List (Relation × Term State)}
    (opens : ∀ blank, IsBlank blank → IsOpen (lead ++ blank)) :
    ∀ piece ∈ chainPieces lead first links, IsPiece (lead ++ chainText first links) piece ∧
      lead.length + first.lead.length ≤ piece.1.length := by
  induction links generalizing lead first with
  | nil =>
      intro piece member
      obtain rfl := List.mem_singleton.mp member
      obtain ⟨rest, split, stops⟩ := chainText_opens first []
      refine ⟨⟨first.operand.core, opens _ first.leadBlank, rest, ?_, stops⟩, by simp⟩
      rw [split, List.append_assoc]
  | cons link links ih =>
      obtain ⟨relation, term⟩ := link
      intro piece member
      rcases List.mem_cons.mp member with rfl | later
      · obtain ⟨rest, split, stops⟩ := chainText_opens first ((relation, term) :: links)
        refine ⟨⟨first.operand.core, opens _ first.leadBlank, rest, ?_, stops⟩, by simp⟩
        rw [split, List.append_assoc]
      · obtain ⟨isPiece, behind⟩ := ih (opensAll_relation (lead ++ first.text) relation) piece later
        simp only [chainText, List.append_assoc] at isPiece ⊢
        refine ⟨isPiece, ?_⟩
        simp only [Term.text, List.length_append] at behind
        omega

theorem IsPiece.length_le {whole : Line} {piece : Line × Line} (isPiece : IsPiece whole piece) :
    piece.1.length + piece.2.length ≤ whole.length := by
  obtain ⟨rest, split, -⟩ := isPiece.split
  have lengths := congrArg List.length split
  simp only [List.length_append] at lengths
  omega

variable {clause : Clause State}

/-- Each operand stands in the text behind the lead. -/
theorem Clause.isPiece {lead : Line} (opens : OpensAll lead) :
    ∀ piece ∈ clause.pieces lead, IsPiece (lead ++ clause.text) piece ∧
      lead.length ≤ piece.1.length := by
  have connective {left right : Clause State} {sign lead : Line}
      (sort : sign = bothSign ∨ sign = equivalenceSign)
      (first : ∀ piece ∈ left.pieces lead, IsPiece (lead ++ left.text) piece ∧
        lead.length ≤ piece.1.length)
      (second : ∀ piece ∈ right.pieces (lead ++ left.text ++ sign),
        IsPiece (lead ++ left.text ++ sign ++ right.text) piece ∧
          (lead ++ left.text ++ sign).length ≤ piece.1.length) :
      ∀ piece ∈ left.pieces lead ++ right.pieces (lead ++ left.text ++ sign),
        IsPiece (lead ++ (left.text ++ sign ++ right.text)) piece ∧
          lead.length ≤ piece.1.length := by
    intro piece member
    rcases List.mem_append.mp member with here | there
    · obtain ⟨isPiece, behind⟩ := first piece here
      have whole := isPiece.append (connective_stops sort right.text)
      simp only [List.append_assoc] at whole ⊢
      exact ⟨whole, behind⟩
    · obtain ⟨isPiece, behind⟩ := second piece there
      simp only [List.append_assoc, List.length_append] at isPiece behind ⊢
      exact ⟨isPiece, by omega⟩
  induction clause generalizing lead with
  | chain first links =>
      intro piece member
      obtain ⟨isPiece, behind⟩ := isPiece_chain (fun _ white => opens _ white.opening) piece member
      exact ⟨isPiece, by omega⟩
  | both left right first second =>
      exact connective (.inl rfl) (first opens) (second (opensAll_connective (.inl rfl) _))
  | equivalence left right first second =>
      exact connective (.inr rfl) (first opens) (second (opensAll_connective (.inr rfl) _))
  | group front tail frontBlank tailBlank inner inside =>
      intro piece member
      obtain ⟨isPiece, behind⟩ := inside (opensAll_bracket lead) piece member
      have whole := isPiece.append (bracket_stops tail)
      simp only [Clause.text, List.append_assoc, List.length_append] at whole behind ⊢
      exact ⟨whole, by omega⟩
  | other front text tail frontBlank tailBlank core meaning =>
      intro piece member
      obtain rfl := List.mem_singleton.mp member
      have stops := tailBlank.closing.stops Stops.nil
      rw [List.append_nil] at stops
      refine ⟨⟨core, opens _ frontBlank.opening, tail, ?_, stops⟩, by simp⟩
      simp only [Clause.text, List.append_assoc]

/-- The second operand starts where the first one has ended. -/
def Follows (first second : Line × Line) : Prop :=
  first.1.length + first.2.length ≤ second.1.length

theorem follows_chain {lead : Line} {first : Term State} {links : List (Relation × Term State)}
    (opens : ∀ blank, IsBlank blank → IsOpen (lead ++ blank)) :
    (chainPieces lead first links).Pairwise Follows := by
  induction links generalizing lead first with
  | nil => exact List.pairwise_singleton _ _
  | cons link links ih =>
      obtain ⟨relation, term⟩ := link
      have later := opensAll_relation (lead ++ first.text) relation
      refine List.pairwise_cons.mpr ⟨fun piece member => ?_, ih later⟩
      have behind := (isPiece_chain later piece member).2
      simp only [Term.text, List.length_append] at behind
      simp only [Follows, List.length_append]
      omega

/-- The operands of a formula do not overlap. -/
theorem Clause.follows {lead : Line} (opens : OpensAll lead) :
    (clause.pieces lead).Pairwise Follows := by
  have connective {left right : Clause State} {sign lead : Line}
      (sort : sign = bothSign ∨ sign = equivalenceSign) (opens : OpensAll lead)
      (first : (left.pieces lead).Pairwise Follows)
      (second : (right.pieces (lead ++ left.text ++ sign)).Pairwise Follows) :
      (left.pieces lead ++ right.pieces (lead ++ left.text ++ sign)).Pairwise Follows := by
    refine List.pairwise_append.mpr ⟨first, second, fun piece here other there => ?_⟩
    have above := (Clause.isPiece opens piece here).1.length_le
    have below := (Clause.isPiece (opensAll_connective sort _) other there).2
    rw [List.length_append] at below
    exact above.trans (by omega)
  induction clause generalizing lead with
  | chain first links => exact follows_chain fun _ white => opens _ white.opening
  | both left right first second =>
      exact connective (.inl rfl) opens (first opens) (second (opensAll_connective (.inl rfl) _))
  | equivalence left right first second =>
      exact connective (.inr rfl) opens (first opens) (second (opensAll_connective (.inr rfl) _))
  | group front tail frontBlank tailBlank inner inside => exact inside (opensAll_bracket lead)
  | other front text tail frontBlank tailBlank core meaning => exact List.pairwise_singleton _ _

theorem eq_or_of_pairwise {Item : Type} {relation : Item → Item → Prop} {items : List Item}
    (ordered : items.Pairwise relation) {first second : Item} (here : first ∈ items)
    (there : second ∈ items) : first = second ∨ relation first second ∨ relation second first := by
  by_cases same : first = second
  · exact .inl same
  have either : items.Pairwise fun first second => relation first second ∨ relation second first :=
    ordered.imp .inl
  have symmetric : Std.Symm fun first second => relation first second ∨ relation second first :=
    ⟨fun _ _ => Or.symm⟩
  exact .inr (either.forall here there same)

theorem Clause.start_inside {lead text other : Line} {inner : Line}
    (here : (lead, text) ∈ clause.pieces []) (there : (lead ++ inner, other) ∈ clause.pieces [])
    (within : inner.length < text.length) : inner = [] ∧ other = text := by
  have own := (Clause.isPiece opensAll_nil _ there).1.core.filled
  have long : 0 < other.length := List.length_pos_iff.mpr own
  rcases eq_or_of_pairwise (Clause.follows opensAll_nil) here there with same | after | before
  · obtain ⟨start, rfl⟩ := Prod.mk.inj same
    exact ⟨List.self_eq_append_right.mp start, rfl⟩
  · simp only [Follows, List.length_append] at after
    omega
  · simp only [Follows, List.length_append] at before
    omega

/-- A text of another form is one of the operands. -/
theorem mem_pieces_of_mem_cores {core : Line} (lead : Line) (member : core ∈ clause.cores) :
    ∃ front, (front, core) ∈ clause.pieces lead := by
  have operand {operand : Operand State} {core : Line} (member : core ∈ operand.cores) :
      operand.text = core := by
    cases operand with
    | literal negative digits suffix decimal => cases member
    | result => cases member
    | other text value isCore => exact (List.mem_singleton.mp member).symm
  induction clause generalizing lead with
  | chain first links =>
      induction links generalizing lead first with
      | nil =>
          rcases List.mem_append.mp member with own | none
          · exact ⟨_, List.mem_singleton.mpr (Prod.ext rfl (operand own).symm)⟩
          · cases none
      | cons link links ih =>
          obtain ⟨relation, term⟩ := link
          rcases List.mem_append.mp member with own | later
          · refine ⟨_, List.mem_cons.mpr (.inl (Prod.ext rfl (operand own).symm))⟩
          · rw [List.flatMap_cons] at later
            obtain ⟨front, found⟩ := ih term (lead ++ first.text ++ relation.text) later
            exact ⟨front, List.mem_cons_of_mem _ found⟩
  | both left right first second =>
      rcases List.mem_append.mp member with here | there
      · obtain ⟨front, found⟩ := first lead here
        exact ⟨front, List.mem_append_left _ found⟩
      · obtain ⟨front, found⟩ := second (lead ++ left.text ++ bothSign) there
        exact ⟨front, List.mem_append_right _ found⟩
  | equivalence left right first second =>
      rcases List.mem_append.mp member with here | there
      · obtain ⟨front, found⟩ := first lead here
        exact ⟨front, List.mem_append_left _ found⟩
      · obtain ⟨front, found⟩ := second (lead ++ left.text ++ equivalenceSign) there
        exact ⟨front, List.mem_append_right _ found⟩
  | group front tail frontBlank tailBlank inner inside => exact inside _ member
  | other front text tail frontBlank tailBlank core meaning =>
      exact ⟨lead ++ front, List.mem_singleton.mpr (Prod.ext rfl (List.mem_singleton.mp member))⟩

end Pieces

section Spots

variable {State : Type}

def Spot.operand (spot : Spot State) : Operand State :=
  if spot.onRight then spot.link.right else spot.link.left

/-- The comparison of the spot stands in the text with white space around its relation. -/
structure Spot.StandsIn (spot : Spot State) (whole : Line) (front before behind rest : Line) :
    Prop where
  split : whole = front ++ (spot.link.left.text ++ (before ++ (spot.link.relation.text ++
    (behind ++ (spot.link.right.text ++ rest)))))
  lead : spot.lead = if spot.onRight then
    front ++ (spot.link.left.text ++ (before ++ (spot.link.relation.text ++ behind))) else front
  isOpen : IsOpen front
  beforeBlank : IsBlank before
  behindBlank : IsBlank behind
  stops : Stops rest

theorem Spot.StandsIn.append {spot : Spot State} {whole front before behind rest more : Line}
    (stands : spot.StandsIn whole front before behind rest) (stops : Stops more) :
    spot.StandsIn (whole ++ more) front before behind (rest ++ more) where
  split := by
    rw [stands.split]
    simp only [List.append_assoc]
  lead := stands.lead
  isOpen := stands.isOpen
  beforeBlank := stands.beforeBlank
  behindBlank := stands.behindBlank
  stops := stands.stops.append stops

/-- The spot stands in the text, and its operand is one of the pieces. -/
def IsSpot (whole : Line) (pieces : List (Line × Line)) (spot : Spot State) : Prop :=
  (∃ front before behind rest, spot.StandsIn whole front before behind rest) ∧
    (spot.lead, spot.operand.text) ∈ pieces

theorem IsSpot.append {whole more : Line} {pieces others : List (Line × Line)} {spot : Spot State}
    (isSpot : IsSpot whole pieces spot) (stops : Stops more)
    (among : ∀ piece ∈ pieces, piece ∈ others) : IsSpot (whole ++ more) others spot := by
  obtain ⟨⟨front, before, behind, rest, stands⟩, member⟩ := isSpot
  exact ⟨⟨front, before, behind, rest ++ more, stands.append stops⟩, among _ member⟩

variable {links : List (Relation × Term State)} {place : Place}

theorem isSpot_chain {lead : Line} {first : Term State}
    (opens : ∀ blank, IsBlank blank → IsOpen (lead ++ blank)) :
    ∀ spot ∈ chainSpots place lead first links,
      IsSpot (lead ++ chainText first links) (chainPieces lead first links) spot := by
  induction links generalizing lead first with
  | nil => exact fun _ member => absurd member List.not_mem_nil
  | cons link links ih =>
      obtain ⟨relation, term⟩ := link
      obtain ⟨rest, shape, stops⟩ := chainText_opens term links
      have whole : lead ++ chainText first ((relation, term) :: links) =
          lead ++ first.lead ++ (first.operand.text ++ (first.tail ++ (relation.text ++
            (term.lead ++ (term.operand.text ++ rest))))) := by
        simp only [chainText, Term.text, shape, List.append_assoc]
      have next : (lead ++ first.text ++ relation.text ++ term.lead, term.operand.text) ∈
          chainPieces (lead ++ first.text ++ relation.text) term links := by
        cases links <;> exact List.mem_cons_self
      intro spot member
      rcases List.mem_cons.mp member with rfl | member
      · exact ⟨⟨lead ++ first.lead, first.tail, term.lead, rest, whole, rfl,
          opens _ first.leadBlank, first.tailBlank, term.leadBlank, stops⟩, List.mem_cons_self⟩
      rcases List.mem_cons.mp member with rfl | later
      · refine ⟨⟨lead ++ first.lead, first.tail, term.lead, rest, whole, ?_,
          opens _ first.leadBlank, first.tailBlank, term.leadBlank, stops⟩,
          List.mem_cons_of_mem _ next⟩
        simp only [Term.text, List.append_assoc, if_true]
      · have found := ih (opensAll_relation (lead ++ first.text) relation) spot later
        have same : lead ++ first.text ++ relation.text ++ chainText term links =
            lead ++ chainText first ((relation, term) :: links) := by
          simp only [chainText, List.append_assoc]
        rw [same] at found
        exact ⟨found.1, List.mem_cons_of_mem _ found.2⟩

theorem Clause.isSpot {clause : Clause State} {lead : Line} (opens : OpensAll lead) :
    ∀ spot ∈ clause.spots place lead,
      IsSpot (lead ++ clause.text) (clause.pieces lead) spot := by
  have connective {left right : Clause State} {sign lead : Line} {part : Place}
      (sort : sign = bothSign ∨ sign = equivalenceSign)
      (first : ∀ spot ∈ left.spots part lead, IsSpot (lead ++ left.text) (left.pieces lead) spot)
      (second : ∀ spot ∈ right.spots part (lead ++ left.text ++ sign),
        IsSpot (lead ++ left.text ++ sign ++ right.text)
          (right.pieces (lead ++ left.text ++ sign)) spot) :
      ∀ spot ∈ left.spots part lead ++ right.spots part (lead ++ left.text ++ sign),
        IsSpot (lead ++ (left.text ++ sign ++ right.text))
          (left.pieces lead ++ right.pieces (lead ++ left.text ++ sign)) spot := by
    intro spot member
    rcases List.mem_append.mp member with here | there
    · have found := (first spot here).append (connective_stops sort right.text)
        fun piece inside => List.mem_append_left (right.pieces (lead ++ left.text ++ sign)) inside
      simpa only [List.append_assoc] using found
    · have found := second spot there
      refine ⟨?_, List.mem_append_right _ found.2⟩
      simpa only [List.append_assoc] using found.1
  induction clause generalizing place lead with
  | chain first links => exact isSpot_chain fun _ white => opens _ white.opening
  | both left right first second =>
      exact connective (.inl rfl) (first opens) (second (opensAll_connective (.inl rfl) _))
  | equivalence left right first second =>
      exact connective (.inr rfl) (first opens) (second (opensAll_connective (.inr rfl) _))
  | group front tail frontBlank tailBlank inner inside =>
      intro spot member
      have found := (inside (opensAll_bracket lead) spot member).append (bracket_stops tail)
        fun _ inside => inside
      simp only [Clause.text, List.append_assoc] at found ⊢
      exact found
  | other front text tail frontBlank tailBlank core meaning =>
      exact fun _ member => absurd member List.not_mem_nil

/-- Of two spots the first one starts earlier, or they are the two sides of one operand. -/
def Precedes (first second : Spot State) : Prop :=
  first.lead.length ≤ second.lead.length ∧
    (first.onRight = second.onRight → first.lead.length < second.lead.length)

theorem chainSpots_behind {lead : Line} {first : Term State} :
    ∀ spot ∈ chainSpots place lead first links,
      lead.length + first.lead.length ≤ spot.lead.length ∧
        (spot.onRight = true → lead.length + first.lead.length < spot.lead.length) := by
  induction links generalizing lead first with
  | nil => exact fun _ member => absurd member List.not_mem_nil
  | cons link links ih =>
      obtain ⟨relation, term⟩ := link
      have long := List.length_pos_iff.mpr first.operand.core.filled
      intro spot member
      rcases List.mem_cons.mp member with rfl | member
      · exact ⟨by simp, nofun⟩
      rcases List.mem_cons.mp member with rfl | later
      · simp only [Term.text, List.length_append]
        exact ⟨by omega, fun _ => by omega⟩
      · have behind := (ih spot later).1
        simp only [Term.text, List.length_append] at behind
        exact ⟨by omega, fun _ => by omega⟩

theorem precedes_chain {lead : Line} {first : Term State} :
    (chainSpots place lead first links).Pairwise Precedes := by
  induction links generalizing lead first with
  | nil => exact .nil
  | cons link links ih =>
      obtain ⟨relation, term⟩ := link
      have long := List.length_pos_iff.mpr first.operand.core.filled
      refine List.pairwise_cons.mpr ⟨fun spot member => ?_,
        List.pairwise_cons.mpr ⟨fun spot later => ?_, ih⟩⟩
      · rcases List.mem_cons.mp member with rfl | later
        · simp only [Precedes, Term.text, List.length_append]
          exact ⟨by omega, fun _ => by omega⟩
        · have behind := (chainSpots_behind spot later).1
          simp only [Precedes, Term.text, List.length_append] at behind ⊢
          exact ⟨by omega, fun _ => by omega⟩
      · obtain ⟨behind, further⟩ := chainSpots_behind spot later
        simp only [Precedes, Term.text, List.length_append] at behind further ⊢
        exact ⟨by omega, fun same => by have := further same.symm; omega⟩

theorem Clause.precedes {clause : Clause State} {lead : Line} (opens : OpensAll lead) :
    (clause.spots place lead).Pairwise Precedes := by
  have connective {left right : Clause State} {sign lead : Line} {part : Place}
      (sort : sign = bothSign ∨ sign = equivalenceSign) (opens : OpensAll lead)
      (first : (left.spots part lead).Pairwise Precedes)
      (second : (right.spots part (lead ++ left.text ++ sign)).Pairwise Precedes) :
      (left.spots part lead ++ right.spots part (lead ++ left.text ++ sign)).Pairwise
        Precedes := by
    refine List.pairwise_append.mpr ⟨first, second, fun spot here other there => ?_⟩
    have one := (Clause.isPiece opens _ (Clause.isSpot opens spot here).2).1
    have two := (Clause.isPiece (opensAll_connective sort _) _
      (Clause.isSpot (opensAll_connective sort _) other there).2).2
    have above := one.length_le
    have long := List.length_pos_iff.mpr one.core.filled
    simp only [List.length_append] at above two long
    exact ⟨by omega, fun _ => by omega⟩
  induction clause generalizing place lead with
  | chain first links => exact precedes_chain
  | both left right first second =>
      exact connective (.inl rfl) opens (first opens) (second (opensAll_connective (.inl rfl) _))
  | equivalence left right first second =>
      exact connective (.inr rfl) opens (first opens) (second (opensAll_connective (.inr rfl) _))
  | group front tail frontBlank tailBlank inner inside => exact inside (opensAll_bracket lead)
  | other front text tail frontBlank tailBlank core meaning => exact .nil

theorem Clause.spot_unique {clause : Clause State} {first second : Spot State}
    (here : first ∈ clause.spots place []) (there : second ∈ clause.spots place [])
    (lead : first.lead = second.lead) (side : first.onRight = second.onRight) : first = second := by
  rcases eq_or_of_pairwise (Clause.precedes opensAll_nil) here there with same | before | after
  · exact same
  · exact absurd (before.2 side) (by rw [lead]; exact Nat.lt_irrefl _)
  · exact absurd (after.2 side.symm) (by rw [lead]; exact Nat.lt_irrefl _)

end Spots

end FramaCMcp.ResultRange
