/-
This file finds the comparison of a formula that each reading of the scan comes from.
-/

import FramaCMcp.Proof.FormulaReadings

namespace FramaCMcp.ResultRange

section Sites

variable {State : Type} {mark : Mark} {literal : Int}

/-- A literal is read inside a text of another form. -/
def ReadInside (mark : Mark) (literal : Int) (cores : List Line) : Prop :=
  ∃ core ∈ cores, ∃ before after, core = before ++ resultWord ++ after ∧
    (mark.before before = some literal ∨ mark.behind after = some literal)

/-- The right operand starts with the word, and a literal ends the left one. -/
def Spot.ReadsBefore (spot : Spot State) (mark : Mark) (literal : Int) (before : Line) : Prop :=
  spot.onRight = true ∧ spot.lead = before ∧ spot.link.relation.text = mark.operator ∧
    resultWord <+: spot.link.right.text ∧ literalBefore spot.link.left.text = some literal

/-- The left operand ends with the word, and a literal starts the right one. -/
def Spot.ReadsBehind (spot : Spot State) (mark : Mark) (literal : Int) (before : Line) : Prop :=
  spot.onRight = false ∧
    (∃ front, spot.link.left.text = front ++ resultWord ∧ before = spot.lead ++ front) ∧
    spot.link.relation.text = mark.operator ∧ literalAfter spot.link.right.text = some literal

theorem ReadInside.mono {cores others : List Line} (inside : ReadInside mark literal cores)
    (among : ∀ core ∈ cores, core ∈ others) : ReadInside mark literal others := by
  obtain ⟨core, member, found⟩ := inside
  exact ⟨core, among core member, found⟩

theorem resultWord_ne_nil : resultWord ≠ [] := by decide

theorem plain_of_mem_resultWord {letter : Char} (member : letter ∈ resultWord) :
    Text.isWhitespace letter = false ∧ letter ∉ ['<', '>', '=', '!', '&', '(', ')'] := by
  have all : resultWord.all (fun letter => !Text.isWhitespace letter &&
      ! ['<', '>', '=', '!', '&', '(', ')'].contains letter) = true := rfl
  have own := List.all_eq_true.mp all letter member
  simpa using own

theorem notMem_resultWord {letter : Char} (other : Text.isWhitespace letter = true ∨
    letter ∈ ['<', '>', '=', '!', '&', '(', ')']) : letter ∉ resultWord := by
  intro member
  obtain ⟨black, sign⟩ := plain_of_mem_resultWord member
  rcases other with white | found
  · rw [black] at white
    cases white
  · exact sign found

theorem apart_opening {opening : Line} (isOpening : IsOpening opening) :
    ∀ letter ∈ opening, letter ∉ resultWord := by
  intro letter member
  rcases isOpening letter member with white | rfl
  · exact notMem_resultWord (.inl white)
  · exact notMem_resultWord (.inr (by decide))

theorem apart_closing {closing : Line} (isClosing : IsClosing closing) :
    ∀ letter ∈ closing, letter ∉ resultWord := by
  intro letter member
  rcases isClosing letter member with white | rfl
  · exact notMem_resultWord (.inl white)
  · exact notMem_resultWord (.inr (by decide))

theorem apart_relation (relation : Relation) : ∀ letter ∈ relation.text, letter ∉ resultWord := by
  intro letter member
  apply notMem_resultWord
  cases relation <;> simp only [Relation.text, List.mem_cons, List.not_mem_nil, or_false] at member <;>
    simp [member]
  all_goals
    rcases member with rfl | rfl <;> simp

theorem Stops.notDigit {text : Line} (stops : Stops text) :
    ∀ letter ∈ text.head?, letter.isDigit = false := by
  intro letter first
  by_contra digit
  rw [Bool.not_eq_false] at digit
  have edge := isEdge_of_isDigit digit
  rcases stops letter first with white | sign
  · rw [isWhitespace_of_isEdge edge] at white
    cases white
  · simp only [List.mem_cons, List.not_mem_nil, or_false] at sign
    rcases sign with rfl | rfl | rfl | rfl | rfl | rfl <;> exact absurd digit (by decide)

theorem Fresh.of_append {text rest : Line} (filled : text ≠ []) (fresh : Fresh (text ++ rest)) :
    Fresh text :=
  ⟨filled, fun letter first => fresh.starts letter (by
    rwa [List.head?_append_of_ne_nil _ filled])⟩

theorem Settled.of_append {lead text : Line} (filled : text ≠ [])
    (settled : Settled (lead ++ text)) : Settled text :=
  ⟨filled, fun letter last => settled.stops letter (by
    rwa [List.getLast?_append_of_ne_nil _ filled])⟩

/-- A literal does not contain the word. -/
theorem notMem_literal (negative : Bool) {digits suffix : Line} (decimal : IsDecimal digits suffix) :
    '\\' ∉ (Operand.literal negative digits suffix decimal : Operand State).text := by
  intro member
  rcases List.mem_append.mp member with front | back
  · rcases List.mem_append.mp front with sign | digit
    · cases negative with
      | true => exact absurd (List.mem_singleton.mp sign) (by decide)
      | false => cases sign
    · exact absurd (decimal.decimal '\\' digit) (by decide)
  · exact absurd (decimal.suffix '\\' back) (by decide)

/-- An occurrence with other letters around it is part of a text of another form. -/
theorem mem_cores_of_occurrence {operand : Operand State} {before after : Line}
    (split : operand.text = before ++ resultWord ++ after) (more : before ≠ [] ∨ after ≠ []) :
    operand.text ∈ operand.cores := by
  cases operand with
  | literal negative digits suffix decimal =>
      refine absurd ?_ (@notMem_literal State negative _ _ decimal)
      rw [split]
      exact List.mem_append_left _ (List.mem_append_right _ List.mem_cons_self)
  | result =>
      have lengths := congrArg List.length split
      rw [Operand.text, List.length_append, List.length_append] at lengths
      rcases more with front | back
      · have := List.length_pos_iff.mpr front
        omega
      · have := List.length_pos_iff.mpr back
        omega
  | other text value core => exact List.mem_singleton_self _

theorem term_occurrence {term : Term State} {before after : Line}
    (split : term.text = before ++ resultWord ++ after) :
    ∃ front back, term.operand.text = front ++ resultWord ++ back ∧ before = term.lead ++ front ∧
      after = back ++ term.tail := by
  obtain ⟨back, inner, behind⟩ := occurrence_before (apart_closing term.tailBlank.closing)
    resultWord_ne_nil split
  obtain ⟨front, own, lead⟩ := occurrence_behind (apart_opening term.leadBlank.opening)
    resultWord_ne_nil inner
  exact ⟨front, back, own, lead, behind⟩

theorem term_before (isMark : IsMark mark) {term : Term State} {front back : Line}
    (own : term.operand.text = front ++ resultWord ++ back)
    (read : mark.before (term.lead ++ front) = some literal) :
    ReadInside mark literal term.operand.cores := by
  by_cases filled : front = []
  · rw [filled, List.append_nil, before_opening isMark term.leadBlank.opening] at read
    cases read
  · have fresh : Fresh front := by
      refine Fresh.of_append filled (?_ : Fresh (front ++ (resultWord ++ back)))
      rw [← List.append_assoc, ← own, ← List.append_nil term.operand.text]
      exact term.operand.core.fresh []
    rw [before_append_open isMark (isOpen_of_blank term.leadBlank) fresh] at read
    exact ⟨_, mem_cores_of_occurrence own (.inl filled), front, back, own, .inl read⟩

theorem term_behind (isMark : IsMark mark) {term : Term State} {front back trail : Line}
    (own : term.operand.text = front ++ resultWord ++ back) (filled : back ≠ [])
    (stops : Stops trail) (read : mark.behind (back ++ trail) = some literal) :
    ReadInside mark literal term.operand.cores := by
  have settled : Settled back := by
    refine Settled.of_append filled (?_ : Settled (front ++ resultWord ++ back))
    rw [← own, ← List.nil_append term.operand.text]
    exact term.operand.core.settled []
  rw [behind_append_settled isMark settled stops.notDigit] at read
  exact ⟨_, mem_cores_of_occurrence own (.inr filled), front, back, own, .inr read⟩

/-- Nothing else stands behind the operand. -/
theorem term_alone_behind (isMark : IsMark mark) {term : Term State} {before after : Line}
    (split : term.text = before ++ resultWord ++ after) (read : mark.behind after = some literal) :
    ReadInside mark literal term.operand.cores := by
  obtain ⟨front, back, own, -, rfl⟩ := term_occurrence split
  by_cases filled : back = []
  · rw [filled, List.nil_append, behind_closing isMark term.tailBlank.closing] at read
    cases read
  · have stops := term.tailBlank.closing.stops Stops.nil
    rw [List.append_nil] at stops
    exact term_behind isMark own filled stops read

/-- A word at the start of an operand is part of it. -/
theorem prefix_of_stops {text rest after : Line} (stops : Stops rest)
    (split : text ++ rest = resultWord ++ after) : resultWord <+: text := by
  rcases List.append_eq_append_iff.mp split with ⟨more, own, tail⟩ | ⟨more, own, tail⟩
  · cases more with
    | nil =>
        rw [List.append_nil] at own
        exact ⟨[], by rw [own, List.append_nil]⟩
    | cons letter more =>
        have member : letter ∈ resultWord := own ▸ List.mem_append_right text List.mem_cons_self
        refine absurd member (notMem_resultWord ?_)
        rcases stops letter (by rw [tail]; rfl) with white | sign
        · exact .inl white
        · refine .inr ?_
          simp only [List.mem_cons, List.not_mem_nil, or_false] at sign ⊢
          tauto
  · exact ⟨more, own.symm⟩

theorem isOpen_relation (lead : Line) (relation : Relation) {blank : Line} (white : IsBlank blank) :
    IsOpen (lead ++ relation.text ++ blank) := by
  have shape : ∃ front letter, relation.text = front ++ [letter] ∧
      letter ∈ ['<', '>', '=', '&', '('] := by
    cases relation
    · exact ⟨['<'], '=', rfl, by decide⟩
    · exact ⟨[], '<', rfl, by decide⟩
    · exact ⟨['>'], '=', rfl, by decide⟩
    · exact ⟨[], '>', rfl, by decide⟩
    · exact ⟨['='], '=', rfl, by decide⟩
    · exact ⟨['!'], '=', rfl, by decide⟩
  obtain ⟨front, letter, same, sign⟩ := shape
  rw [same, ← List.append_assoc]
  exact isOpen_append white.opening sign

def chainCores (first : Term State) (links : List (Relation × Term State)) : List Line :=
  first.operand.cores ++ links.flatMap fun link => link.2.operand.cores

theorem chainCores_first (first : Term State) (links : List (Relation × Term State)) :
    ∀ core ∈ first.operand.cores, core ∈ chainCores first links :=
  fun _ member => List.mem_append_left _ member

theorem chainCores_rest (first term : Term State) (relation : Relation)
    (links : List (Relation × Term State)) :
    ∀ core ∈ chainCores term links, core ∈ chainCores first ((relation, term) :: links) := by
  intro core member
  rw [chainCores, List.flatMap_cons]
  exact List.mem_append_right _ member

/-- White space and an operand do not start with a mark of a comparison. -/
theorem head_append_fresh {blank text : Line} (white : IsBlank blank) (fresh : Fresh text) :
    ∀ letter ∈ (blank ++ text).head?, letter ∉ ['<', '>', '='] := by
  intro letter found sign
  have edge : isEdge letter = true := by
    rw [isEdge, List.contains_iff_mem.mpr sign, Bool.or_true]
  have black : Text.isWhitespace letter = false := by
    simp only [List.mem_cons, List.not_mem_nil, or_false] at sign
    rcases sign with rfl | rfl | rfl <;> decide
  cases blank with
  | nil =>
      rw [fresh.starts letter found] at edge
      cases edge
  | cons head others =>
      obtain rfl := Option.some.inj found
      rw [white head List.mem_cons_self] at black
      cases black

theorem literalAfter_append_blank {blank : Line} (white : IsBlank blank) (text : Line) :
    literalAfter (blank ++ text) = literalAfter text := by
  rw [literalAfter, Line.trimStart_append white, literalAfter]

theorem chain_before (isMark : IsMark mark) (place : Place) {lead : Line} {first : Term State}
    {links : List (Relation × Term State)} {before after : Line}
    (split : chainText first links = before ++ resultWord ++ after)
    (read : mark.before before = some literal) :
    ReadInside mark literal (chainCores first links) ∨
      ∃ spot ∈ chainSpots place lead first links, spot.ReadsBefore mark literal (lead ++ before) := by
  induction links generalizing lead first before with
  | nil =>
      obtain ⟨front, back, own, rfl, -⟩ := term_occurrence split
      exact .inl ((term_before isMark own read).mono (chainCores_first first []))
  | cons link links ih =>
      obtain ⟨relation, term⟩ := link
      rcases occurrence_beside (apart_relation relation)
        (by cases relation <;> exact List.cons_ne_nil _ _) resultWord_ne_nil split with
        ⟨tail, inner, -⟩ | ⟨later, inner, rfl⟩
      · obtain ⟨front, back, own, rfl, -⟩ := term_occurrence inner
        exact .inl ((term_before isMark own read).mono (chainCores_first first _))
      obtain ⟨rest, shape, stops⟩ := chainText_opens term links
      obtain ⟨front, own, rfl⟩ := occurrence_behind (apart_opening term.leadBlank.opening)
        resultWord_ne_nil (shape.symm.trans inner)
      by_cases filled : front = []
      · -- the word starts the operand, and the relation stands right before it
        subst filled
        rw [List.append_nil] at read
        obtain ⟨same, taken⟩ := before_relation isMark relation term.leadBlank read
        refine .inr ⟨_, List.mem_cons_of_mem _ List.mem_cons_self, rfl, ?_, same,
          prefix_of_stops stops own, ?_⟩
        · simp only [List.append_assoc, List.append_nil]
        rwa [Term.text, literalBefore_append_blank _ first.tailBlank,
          ← List.append_nil first.operand.text,
          literalBefore_append_open (isOpen_of_blank first.leadBlank)
            (first.operand.core.fresh []), List.append_nil] at taken
      · have fresh : Fresh front := by
          refine Fresh.of_append filled (?_ : Fresh (front ++ (resultWord ++ after)))
          rw [← List.append_assoc, ← own]
          exact term.operand.core.fresh rest
        rw [← List.append_assoc, before_append_open isMark
          (isOpen_relation first.text relation term.leadBlank) fresh,
          ← before_append_open isMark (isOpen_of_blank term.leadBlank) fresh] at read
        rcases @ih (lead ++ first.text ++ relation.text) term _ inner read with
          inside | ⟨spot, member, found⟩
        · exact .inl (inside.mono (chainCores_rest first term relation links))
        · refine .inr ⟨spot, List.mem_cons_of_mem _ (List.mem_cons_of_mem _ member), ?_⟩
          simpa only [List.append_assoc] using found

theorem chain_behind (isMark : IsMark mark) (place : Place) {lead : Line} {first : Term State}
    {links : List (Relation × Term State)} {before after : Line}
    (split : chainText first links = before ++ resultWord ++ after)
    (read : mark.behind after = some literal) :
    ReadInside mark literal (chainCores first links) ∨
      ∃ spot ∈ chainSpots place lead first links,
        spot.ReadsBehind mark literal (lead ++ before) := by
  induction links generalizing lead first before with
  | nil =>
      exact .inl ((term_alone_behind isMark split read).mono (chainCores_first first []))
  | cons link links ih =>
      obtain ⟨relation, term⟩ := link
      rcases occurrence_beside (apart_relation relation)
        (by cases relation <;> exact List.cons_ne_nil _ _) resultWord_ne_nil split with
        ⟨tail, inner, rfl⟩ | ⟨later, inner, rfl⟩
      · obtain ⟨front, back, own, rfl, rfl⟩ := term_occurrence inner
        rw [List.append_assoc] at read
        by_cases filled : back = []
        · -- the word ends the operand, and the relation stands right behind it
          subst filled
          obtain ⟨rest, shape, stops⟩ := chainText_opens term links
          rw [List.nil_append] at read
          have plain := head_append_fresh term.leadBlank (term.operand.core.fresh rest)
          obtain ⟨same, taken⟩ := behind_relation isMark relation first.tailBlank
            (shape ▸ plain) read
          refine .inr ⟨_, List.mem_cons_self, rfl, ⟨front, by rw [own, List.append_nil],
            (List.append_assoc ..).symm⟩, same, ?_⟩
          have core := term.operand.core.settled []
          rw [List.nil_append] at core
          rwa [shape, literalAfter_append_blank term.leadBlank,
            literalAfter_append_settled core stops.notDigit] at taken
        · have stops := first.tailBlank.closing.stops (relation.stops (chainText term links))
          exact .inl ((term_behind isMark own filled stops read).mono (chainCores_first first _))
      · rcases @ih (lead ++ first.text ++ relation.text) term _ inner with
          inside | ⟨spot, member, found⟩
        · exact .inl (inside.mono (chainCores_rest first term relation links))
        · refine .inr ⟨spot, List.mem_cons_of_mem _ (List.mem_cons_of_mem _ member), ?_⟩
          simpa only [List.append_assoc] using found

theorem connective_apart {sign : Line} (connective : sign = bothSign ∨ sign = equivalenceSign) :
    ∀ letter ∈ sign, letter ∉ resultWord := by
  intro letter member
  apply notMem_resultWord
  rcases connective with rfl | rfl <;>
    simp only [bothSign, equivalenceSign, List.mem_cons, List.not_mem_nil, or_false] at member ⊢ <;>
    tauto

theorem connective_ne_nil {sign : Line} (connective : sign = bothSign ∨ sign = equivalenceSign) :
    sign ≠ [] := by
  rcases connective with rfl | rfl <;> exact List.cons_ne_nil _ _

/-- A text that opens the formula hides nothing from the scan before it. -/
theorem Clause.before_open (isMark : IsMark mark) {clause : Clause State} {front lead after : Line}
    (split : clause.text = lead ++ resultWord ++ after)
    (isOpen : ∀ opening, IsOpening opening → IsOpen (front ++ opening))
    (none : ∀ opening, IsOpening opening → mark.before (front ++ opening) = none)
    (read : mark.before (front ++ lead) = some literal) : mark.before lead = some literal := by
  obtain ⟨opening, rest, shape, isOpening, begun⟩ := clause.opens
  obtain ⟨start, own, rfl⟩ := occurrence_behind (apart_opening isOpening) resultWord_ne_nil
    (shape.symm.trans split)
  by_cases filled : start = []
  · rw [filled, List.append_nil, none opening isOpening] at read
    cases read
  · have fresh : Fresh start := by
      refine Fresh.of_append filled (?_ : Fresh (start ++ (resultWord ++ after)))
      rwa [← List.append_assoc, ← own]
    rw [← List.append_assoc, before_append_open isMark (isOpen opening isOpening) fresh] at read
    rwa [before_append_open isMark (isOpen_of_opening isOpening) fresh]

theorem Clause.behind_closed (isMark : IsMark mark) {clause : Clause State}
    {before tail trail : Line} (split : clause.text = before ++ resultWord ++ tail)
    (stops : Stops trail)
    (none : ∀ closing, IsClosing closing → mark.behind (closing ++ trail) = none)
    (read : mark.behind (tail ++ trail) = some literal) : mark.behind tail = some literal := by
  obtain ⟨rest, closing, shape, isClosing, ended⟩ := clause.closes
  obtain ⟨back, own, rfl⟩ := occurrence_before (apart_closing isClosing) resultWord_ne_nil
    (shape.symm.trans split)
  rw [List.append_assoc] at read
  by_cases filled : back = []
  · rw [filled, List.nil_append, none closing isClosing] at read
    cases read
  · have settled : Settled back := by
      refine Settled.of_append filled (?_ : Settled (before ++ resultWord ++ back))
      rwa [← own]
    have quiet := isClosing.stops Stops.nil
    rw [List.append_nil] at quiet
    rw [behind_append_settled isMark settled (isClosing.stops stops).notDigit] at read
    rwa [behind_append_settled isMark settled quiet.notDigit]

theorem isOpen_connective {sign : Line} (connective : sign = bothSign ∨ sign = equivalenceSign)
    (lead : Line) {opening : Line} (isOpening : IsOpening opening) :
    IsOpen (lead ++ sign ++ opening) := by
  rcases connective with rfl | rfl
  · have isOpen := @isOpen_append (lead ++ ['&']) _ '&' isOpening (by decide)
    rwa [List.append_assoc lead] at isOpen
  · have isOpen := @isOpen_append (lead ++ ['<', '=', '=']) _ '>' isOpening (by decide)
    rwa [List.append_assoc lead] at isOpen

theorem connective_stops {sign : Line} (connective : sign = bothSign ∨ sign = equivalenceSign)
    (rest : Line) : Stops (sign ++ rest) := by
  rcases connective with rfl | rfl <;> intro letter first <;>
    (obtain rfl := Option.some.inj first; exact .inr (by decide))

theorem isOpening_bracket {lead opening : Line} (blank : IsBlank lead)
    (isOpening : IsOpening opening) : IsOpening (lead ++ ['('] ++ opening) := by
  intro letter member
  rcases List.mem_append.mp member with before | after
  · rcases List.mem_append.mp before with white | bracket
    · exact .inl (blank letter white)
    · exact .inr (List.mem_singleton.mp bracket)
  · exact isOpening letter after

theorem isClosing_bracket {tail closing : Line} (blank : IsBlank tail)
    (isClosing : IsClosing closing) : IsClosing (closing ++ ([')'] ++ tail)) := by
  intro letter member
  rcases List.mem_append.mp member with before | after
  · exact isClosing letter before
  · rcases List.mem_append.mp after with bracket | white
    · exact .inr (List.mem_singleton.mp bracket)
    · exact .inl (blank letter white)

theorem bracket_stops (tail : Line) : Stops ([')'] ++ tail) := by
  intro letter first
  obtain rfl := Option.some.inj first
  exact .inr (by decide)

theorem group_occurrence {lead tail inner before after : Line} (leadBlank : IsBlank lead)
    (tailBlank : IsBlank tail)
    (split : lead ++ ['('] ++ inner ++ ([')'] ++ tail) = before ++ resultWord ++ after) :
    ∃ front back, inner = front ++ resultWord ++ back ∧ before = lead ++ ['('] ++ front ∧
      after = back ++ ([')'] ++ tail) := by
  have opening := isOpening_bracket leadBlank isBlank_nil.opening
  have closing := isClosing_bracket tailBlank isBlank_nil.closing
  rw [List.append_nil] at opening
  obtain ⟨back, front, behind⟩ := occurrence_before (apart_closing closing) resultWord_ne_nil split
  obtain ⟨start, own, lead⟩ := occurrence_behind (apart_opening opening) resultWord_ne_nil front
  exact ⟨start, back, own, lead, behind⟩

/-- A predicate of another form is read as an operand is. -/
def otherTerm (State : Type) (lead text tail : Line) (leadBlank : IsBlank lead) (tailBlank : IsBlank tail)
    (core : IsCore text) : Term State :=
  ⟨lead, .other text (fun _ _ => 0) core, tail, leadBlank, tailBlank⟩

/-- What is read beside a connective is read in one of its parts. -/
theorem connective_site (Read : Line → Line → Prop) (Seen : Line → Spot State → Prop)
    {left right : Clause State} {sign : Line} {part : Place} {lead before after : Line}
    (sort : sign = bothSign ∨ sign = equivalenceSign)
    (split : left.text ++ sign ++ right.text = before ++ resultWord ++ after)
    (read : Read before after)
    (inLeft : ∀ {before tail}, left.text = before ++ resultWord ++ tail →
      Read before (tail ++ (sign ++ right.text)) → Read before tail)
    (inRight : ∀ {later after}, right.text = later ++ resultWord ++ after →
      Read (left.text ++ sign ++ later) after → Read later after)
    (first : ∀ {before after}, left.text = before ++ resultWord ++ after → Read before after →
      ReadInside mark literal left.cores ∨ ∃ spot ∈ left.spots part lead, Seen (lead ++ before) spot)
    (second : ∀ {before after}, right.text = before ++ resultWord ++ after → Read before after →
      ReadInside mark literal right.cores ∨
        ∃ spot ∈ right.spots part (lead ++ left.text ++ sign),
          Seen (lead ++ left.text ++ sign ++ before) spot) :
    ReadInside mark literal (left.cores ++ right.cores) ∨
      ∃ spot ∈ left.spots part lead ++ right.spots part (lead ++ left.text ++ sign),
        Seen (lead ++ before) spot := by
  rcases occurrence_beside (connective_apart sort) (connective_ne_nil sort) resultWord_ne_nil
    split with ⟨tail, own, rfl⟩ | ⟨later, own, rfl⟩
  · rcases first own (inLeft own read) with inside | ⟨spot, member, found⟩
    · exact .inl (inside.mono fun core member => List.mem_append_left _ member)
    · exact .inr ⟨spot, List.mem_append_left _ member, found⟩
  · rcases second own (inRight own read) with inside | ⟨spot, member, found⟩
    · exact .inl (inside.mono fun core member => List.mem_append_right _ member)
    · refine .inr ⟨spot, List.mem_append_right _ member, ?_⟩
      simpa only [List.append_assoc] using found

/-- A literal before an occurrence in a formula is read inside a text of another form or off the
left operand of a comparison. -/
theorem Clause.before_site (isMark : IsMark mark) (clause : Clause State) (place : Place)
    (lead : Line) {before after : Line} (split : clause.text = before ++ resultWord ++ after)
    (read : mark.before before = some literal) :
    ReadInside mark literal clause.cores ∨
      ∃ spot ∈ clause.spots place lead, spot.ReadsBefore mark literal (lead ++ before) := by
  have connective {left right : Clause State} {sign : Line}
      (sort : sign = bothSign ∨ sign = equivalenceSign) {later after : Line}
      (own : right.text = later ++ resultWord ++ after)
      (read : mark.before (left.text ++ sign ++ later) = some literal) :
      mark.before later = some literal :=
    Clause.before_open isMark own (fun opening => isOpen_connective sort left.text)
      (fun opening => before_connective isMark left.text sort) read
  induction clause generalizing place lead before after with
  | chain first links => exact chain_before isMark (place.ofChain links) split read
  | both left right first second =>
      exact connective_site (fun before _ => mark.before before = some literal)
        (fun front spot => spot.ReadsBefore mark literal front) (.inl rfl) split read
        (fun _ read => read) (connective (.inl rfl)) (fun own => first place.ofPart lead own)
        fun own => second place.ofPart _ own
  | equivalence left right first second =>
      exact connective_site (fun before _ => mark.before before = some literal)
        (fun front spot => spot.ReadsBefore mark literal front) (.inr rfl) split read
        (fun _ read => read) (connective (.inr rfl)) (fun own => first place.ofSide lead own)
        fun own => second place.ofSide _ own
  | group front tail frontBlank tailBlank inner inside =>
      obtain ⟨start, back, own, rfl, -⟩ := group_occurrence frontBlank tailBlank split
      have taken := Clause.before_open isMark own
        (fun opening isOpening => isOpen_of_opening (isOpening_bracket frontBlank isOpening))
        (fun opening isOpening => before_opening isMark (isOpening_bracket frontBlank isOpening))
        read
      rw [← List.append_assoc lead]
      exact inside place _ own taken
  | other front text tail frontBlank tailBlank core meaning =>
      have shape : (otherTerm State front text tail frontBlank tailBlank core).text =
          before ++ resultWord ++ after := split
      obtain ⟨start, back, own, rfl, -⟩ := term_occurrence shape
      exact .inl (term_before isMark own read)

theorem Clause.behind_site (isMark : IsMark mark) (clause : Clause State) (place : Place)
    (lead : Line) {before after : Line} (split : clause.text = before ++ resultWord ++ after)
    (read : mark.behind after = some literal) :
    ReadInside mark literal clause.cores ∨
      ∃ spot ∈ clause.spots place lead, spot.ReadsBehind mark literal (lead ++ before) := by
  have connective {left right : Clause State} {sign : Line}
      (sort : sign = bothSign ∨ sign = equivalenceSign) {before tail : Line}
      (own : left.text = before ++ resultWord ++ tail)
      (read : mark.behind (tail ++ (sign ++ right.text)) = some literal) :
      mark.behind tail = some literal :=
    Clause.behind_closed isMark own (connective_stops sort right.text)
      (fun closing => behind_connective isMark right.text sort) read
  induction clause generalizing place lead before after with
  | chain first links => exact chain_behind isMark (place.ofChain links) split read
  | both left right first second =>
      exact connective_site (fun _ after => mark.behind after = some literal)
        (fun front spot => spot.ReadsBehind mark literal front) (.inl rfl) split read
        (connective (.inl rfl)) (fun _ read => read) (fun own => first place.ofPart lead own)
        fun own => second place.ofPart _ own
  | equivalence left right first second =>
      exact connective_site (fun _ after => mark.behind after = some literal)
        (fun front spot => spot.ReadsBehind mark literal front) (.inr rfl) split read
        (connective (.inr rfl)) (fun _ read => read) (fun own => first place.ofSide lead own)
        fun own => second place.ofSide _ own
  | group front tail frontBlank tailBlank inner inside =>
      obtain ⟨start, back, own, rfl, rfl⟩ := group_occurrence frontBlank tailBlank split
      have taken := Clause.behind_closed isMark own (bracket_stops tail)
        (fun closing isClosing => behind_closing isMark (isClosing_bracket tailBlank isClosing))
        read
      rw [← List.append_assoc lead]
      exact inside place _ own taken
  | other front text tail frontBlank tailBlank core meaning =>
      have shape : (otherTerm State front text tail frontBlank tailBlank core).text =
          before ++ resultWord ++ after := split
      exact .inl (term_alone_behind isMark shape read)

end Sites

section Literals

variable {State : Type} {negative : Bool} {digits suffix : Line} {decimal : IsDecimal digits suffix}
  {literal : Int}

theorem parseI64_decimal (isDecimal : IsDecimal digits suffix)
    (read : parseI64 ((if negative then ['-'] else []) ++ digits) = some literal) :
    signedValue negative digits = literal := by
  obtain ⟨-, same⟩ := Option.ite_none_right_eq_some.mp read
  rw [← Option.some.inj same]
  cases negative with
  | true => rfl
  | false =>
      obtain ⟨letter, rest, split⟩ := List.exists_cons_of_ne_nil isDecimal.filled
      have digit := isDecimal.decimal letter (split ▸ List.mem_cons_self)
      have minus : letter ≠ '-' := by
        rintro rfl
        exact absurd digit (by decide)
      have plus : letter ≠ '+' := by
        rintro rfl
        exact absurd digit (by decide)
      subst split
      simp [signedValue, decimalValue, minus, plus]

theorem isDigit_of_suffix (isDecimal : IsDecimal digits suffix) {letter : Char}
    (member : letter ∈ suffix) : letter.isDigit = false ∧ letter ≠ '-' ∧ endsOperand letter = true := by
  have letters := isDecimal.suffix letter member
  simp only [List.mem_cons, List.not_mem_nil, or_false] at letters
  rcases letters with rfl | rfl | rfl | rfl <;> decide

theorem literalBefore_literal
    (read : literalBefore (Operand.literal negative digits suffix decimal : Operand State).text =
      some literal) : signedValue negative digits = literal := by
  have core := (Operand.literal negative digits suffix decimal : Operand State).core
  have kept : Line.trimEnd (Operand.literal negative digits suffix decimal : Operand State).text =
      (Operand.literal negative digits suffix decimal : Operand State).text :=
    Line.reverse_dropWhile_of_last fun letter last => isWhitespace_of_isEdge (core.stops letter last)
  rw [literalBefore, kept, Operand.text] at read
  rcases List.eq_nil_or_concat' suffix with rfl | ⟨others, letter, rfl⟩
  · rw [List.append_nil] at read
    have turned : ∀ letter ∈ digits.reverse, letter.isDigit = true := fun letter member =>
      decimal.decimal letter (List.mem_reverse.mp member)
    have parts : literalParts ((if negative then ['-'] else []) ++ digits) =
        ([], (if negative then ['-'] else []) ++ digits) := by
      rw [literalParts, List.reverse_append, List.dropWhile_append_of_pos turned,
        List.takeWhile_append_of_pos turned]
      cases negative with
      | true => simp
      | false => simp
    rw [parts] at read
    exact parseI64_decimal decimal read
  · -- the suffix is an operand of its own to the scan
    obtain ⟨plain, minus, ends⟩ := isDigit_of_suffix decimal
      (List.mem_append_right others (List.mem_singleton_self letter))
    rw [← List.append_assoc] at read
    generalize (if negative then ['-'] else []) ++ digits ++ others = front at read
    have parts : literalParts (front ++ [letter]) = (front ++ [letter], []) := by
      rw [literalParts, List.reverse_append, List.reverse_singleton, List.singleton_append,
        List.dropWhile_cons_of_neg (by simp [plain]), List.takeWhile_cons_of_neg (by simp [plain])]
      simp [minus]
    have held : standsAlone (front ++ [letter]) = false := by
      have black : Text.isWhitespace letter = false := by
        have letters := decimal.suffix letter (List.mem_append_right others List.mem_cons_self)
        simp only [List.mem_cons, List.not_mem_nil, or_false] at letters
        rcases letters with rfl | rfl | rfl | rfl <;> decide
      rw [standsAlone, trimEnd_append_of_last black, List.getLast?_concat, Option.all_some, ends]
      rfl
    rw [parts, held] at read
    cases read

theorem literalAfter_literal
    (read : literalAfter (Operand.literal negative digits suffix decimal : Operand State).text =
      some literal) : signedValue negative digits = literal := by
  have core := (Operand.literal negative digits suffix decimal : Operand State).core
  have kept := Line.trimStart_of_head fun letter first =>
    isWhitespace_of_isEdge (core.starts letter first)
  have stopped : ∀ letter ∈ suffix.head?, letter.isDigit = false := fun letter first =>
    (isDigit_of_suffix decimal (List.mem_of_mem_head? first)).1
  have taken : (digits ++ suffix).takeWhile Char.isDigit = digits := by
    rw [takeWhile_append_stopped stopped, List.takeWhile_eq_self_iff.mpr decimal.decimal]
  rw [literalAfter, kept, Operand.text, List.append_assoc] at read
  have start : leadingDigits ((if negative then ['-'] else []) ++ (digits ++ suffix)) =
      (if negative then ['-'] else []) ++ digits := by
    cases negative with
    | true => exact congrArg (List.cons '-') taken
    | false =>
        obtain ⟨letter, rest, split⟩ := List.exists_cons_of_ne_nil decimal.filled
        have digit := decimal.decimal letter (split ▸ List.mem_cons_self)
        rw [split] at taken ⊢
        change leadingDigits (letter :: (rest ++ suffix)) = letter :: rest
        rw [leadingDigits.eq_def]
        split
        · rename_i head
          obtain ⟨rfl, -⟩ := List.cons.inj head
          exact absurd digit (by decide)
        · exact taken
  rw [start] at read
  exact parseI64_decimal decimal read

end Literals

end FramaCMcp.ResultRange
