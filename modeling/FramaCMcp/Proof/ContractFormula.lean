/-
This file gives the postconditions of a contract with their texts and their meaning.
-/

import FramaCMcp.Proof.ResultReadings

namespace FramaCMcp.ResultRange

section Formulas

/-- A mark of a comparison neither starts nor ends an operand or a predicate. -/
def isEdge (letter : Char) : Bool := Text.isWhitespace letter || ['<', '>', '='].contains letter

/-- The text of an operand or of a predicate is bounded by letters of its own. -/
structure IsCore (text : Line) : Prop where
  filled : text ≠ []
  starts : ∀ letter ∈ text.head?, isEdge letter = false
  stops : ∀ letter ∈ text.getLast?, isEdge letter = false

def IsBlank (text : Line) : Prop := ∀ letter ∈ text, Text.isWhitespace letter = true

/-- A literal with a leading zero is none of the decimal ones. -/
structure IsDecimal (digits suffix : Line) : Prop where
  filled : digits ≠ []
  decimal : ∀ letter ∈ digits, letter.isDigit = true
  canonical : digits.head? = some '0' → digits = ['0']
  suffix : ∀ letter ∈ suffix, letter ∈ ['u', 'U', 'l', 'L']

inductive Operand (State : Type) where
  | literal (negative : Bool) (digits suffix : Line) (decimal : IsDecimal digits suffix)
  | result
  | other (text : Line) (value : State → Int → Int) (core : IsCore text)

inductive Relation where
  | le
  | lt
  | ge
  | gt
  | eq
  | ne
  deriving DecidableEq

/-- White space stands around an operand. -/
structure Term (State : Type) where
  lead : Line
  operand : Operand State
  tail : Line
  leadBlank : IsBlank lead
  tailBlank : IsBlank tail

/-- A predicate of another form has any text and any meaning. -/
inductive Clause (State : Type) where
  | chain (first : Term State) (links : List (Relation × Term State))
  | both (left right : Clause State)
  | equivalence (left right : Clause State)
  | group (lead tail : Line) (leadBlank : IsBlank lead) (tailBlank : IsBlank tail)
      (inner : Clause State)
  | other (lead text tail : Line) (leadBlank : IsBlank lead) (tailBlank : IsBlank tail)
      (core : IsCore text) (meaning : State → Int → Prop)

end Formulas

section Texts

variable {State : Type}

def Relation.text : Relation → Line
  | .le => ['<', '=']
  | .lt => ['<']
  | .ge => ['>', '=']
  | .gt => ['>']
  | .eq => ['=', '=']
  | .ne => ['!', '=']

def Operand.text : Operand State → Line
  | .literal negative digits suffix _ => (if negative then ['-'] else []) ++ digits ++ suffix
  | .result => resultWord
  | .other text _ _ => text

def Term.text (term : Term State) : Line := term.lead ++ term.operand.text ++ term.tail

def chainText (first : Term State) : List (Relation × Term State) → Line
  | [] => first.text
  | (relation, term) :: links => first.text ++ relation.text ++ chainText term links

def bothSign : Line := ['&', '&']

def equivalenceSign : Line := ['<', '=', '=', '>']

def Clause.text : Clause State → Line
  | .chain first links => chainText first links
  | .both left right => left.text ++ bothSign ++ right.text
  | .equivalence left right => left.text ++ equivalenceSign ++ right.text
  | .group lead tail _ _ inner => lead ++ ['('] ++ inner.text ++ ([')'] ++ tail)
  | .other lead text tail _ _ _ _ => lead ++ text ++ tail

end Texts

section Meaning

variable {State : Type} (state : State) (result : Int)

def decimalValue (digits : Line) : Int :=
  digits.foldl (fun number digit => 10 * number + (digit.toNat - 48)) 0

def signedValue (negative : Bool) (digits : Line) : Int :=
  if negative then -decimalValue digits else decimalValue digits

def Operand.value : Operand State → Int
  | .literal negative digits _ _ => signedValue negative digits
  | .result => result
  | .other _ value _ => value state result

def Relation.Holds : Relation → Int → Int → Prop
  | .le, left, right => left ≤ right
  | .lt, left, right => left < right
  | .ge, left, right => left ≥ right
  | .gt, left, right => left > right
  | .eq, left, right => left = right
  | .ne, left, right => left ≠ right

/-- Each operand of a chain is compared with the next one. -/
def ChainHolds (first : Term State) : List (Relation × Term State) → Prop
  | [] => True
  | (relation, term) :: links =>
      relation.Holds (first.operand.value state result) (term.operand.value state result) ∧
        ChainHolds term links

/-- An operand without a comparison is a truth value. -/
def Clause.Holds : Clause State → Prop
  | .chain first [] => first.operand.value state result ≠ 0
  | .chain first links => ChainHolds state result first links
  | .both left right => left.Holds ∧ right.Holds
  | .equivalence left right => left.Holds ↔ right.Holds
  | .group _ _ _ _ inner => inner.Holds
  | .other _ _ _ _ _ _ meaning => meaning state result

end Meaning

section Places

variable {State : Type}

/-- A comparison stands at the top level, is a side of an equivalence there, or is a part of another
predicate. -/
inductive Place where
  | top
  | side
  | inner
  deriving DecidableEq

def Place.ofPart : Place → Place
  | .top => .top
  | _ => .inner

def Place.ofSide : Place → Place
  | .top => .side
  | _ => .inner

/-- A chain of more than one comparison is a side as a whole only. -/
def Place.ofChain {Link : Type} (place : Place) (links : List Link) : Place :=
  if place = .side ∧ links.length ≠ 1 then .inner else place

/-- Two operands of a chain stand next to each other. -/
structure Link (State : Type) where
  left : Operand State
  relation : Relation
  right : Operand State

/-- One operand of a comparison stands behind its lead. -/
structure Spot (State : Type) where
  lead : Line
  place : Place
  link : Link State
  onRight : Bool

def chainSpots (place : Place) (lead : Line) (first : Term State) :
    List (Relation × Term State) → List (Spot State)
  | [] => []
  | (relation, term) :: links =>
      let link : Link State := ⟨first.operand, relation, term.operand⟩
      let next := lead ++ first.text ++ relation.text
      ⟨lead ++ first.lead, place, link, false⟩ :: ⟨next ++ term.lead, place, link, true⟩ ::
        chainSpots place next term links

/-- These are the operands of all comparisons behind a lead. -/
def Clause.spots : Place → Line → Clause State → List (Spot State)
  | place, lead, .chain first links => chainSpots (place.ofChain links) lead first links
  | place, lead, .both left right =>
      left.spots place.ofPart lead ++ right.spots place.ofPart (lead ++ left.text ++ bothSign)
  | place, lead, .equivalence left right =>
      left.spots place.ofSide lead ++
        right.spots place.ofSide (lead ++ left.text ++ equivalenceSign)
  | place, lead, .group front _ _ _ inner => inner.spots place (lead ++ (front ++ ['(']))
  | _, _, .other _ _ _ _ _ _ _ => []

def Operand.cores : Operand State → List Line
  | .literal _ _ _ _ => []
  | .result => []
  | .other text _ _ => [text]

/-- These are the texts of another form. -/
def Clause.cores : Clause State → List Line
  | .chain first links => first.operand.cores ++ links.flatMap fun link => link.2.operand.cores
  | .both left right => left.cores ++ right.cores
  | .equivalence left right => left.cores ++ right.cores
  | .group _ _ _ _ inner => inner.cores
  | .other _ text _ _ _ _ _ => [text]

/-- The whole result is compared with a whole literal. -/
def Link.Pins (link : Link State) (literal : Int) : Prop :=
  (∃ negative digits suffix decimal, link.left = .literal negative digits suffix decimal ∧
      signedValue negative digits = literal ∧ link.right = .result) ∨
    ∃ negative digits suffix decimal, link.left = .result ∧
      link.right = .literal negative digits suffix decimal ∧ signedValue negative digits = literal

def Clause.IsEquality (literal : Int) : Clause State → Prop
  | .chain first [(.eq, term)] =>
      (⟨first.operand, .eq, term.operand⟩ : Link State).Pins literal
  | .group _ _ _ _ inner => inner.IsEquality literal
  | _ => False

/-- An equivalence at the top level has an equality of the result as a side. -/
def Clause.Determines (literal : Int) : Clause State → Prop
  | .both left right => left.Determines literal ∨ right.Determines literal
  | .equivalence left right => left.IsEquality literal ∨ right.IsEquality literal
  | .group _ _ _ _ inner => inner.Determines literal
  | _ => False

end Places

section Shapes

variable {State : Type}

theorem isWhitespace_of_isEdge {letter : Char} (plain : isEdge letter = false) :
    Text.isWhitespace letter = false := (Bool.or_eq_false_iff.mp plain).1

theorem isEdge_of_isAlphanum {letter : Char} (plain : letter.isAlphanum = true) :
    isEdge letter = false := by
  have ranges := Text.isAlphanum_iff.mp plain
  rw [isEdge, Bool.or_eq_false_iff]
  constructor
  · rw [Text.isWhitespace, decide_eq_false_iff_not]
    simp only [List.mem_cons, List.not_mem_nil, or_false]
    omega
  · by_contra sign
    rw [Bool.not_eq_false, List.contains_iff_mem] at sign
    simp only [List.mem_cons, List.not_mem_nil, or_false] at sign
    rcases sign with rfl | rfl | rfl
    · exact absurd ranges (by decide)
    · exact absurd ranges (by decide)
    · exact absurd ranges (by decide)

theorem isEdge_of_isDigit {letter : Char} (digit : letter.isDigit = true) :
    isEdge letter = false := by
  apply isEdge_of_isAlphanum
  rw [Char.isAlphanum, digit, Bool.or_true]

theorem core_resultWord : IsCore resultWord where
  filled := by decide
  starts := by
    intro letter first
    obtain rfl := Option.some.inj first
    decide
  stops := by
    intro letter last
    obtain rfl := Option.some.inj last
    decide

theorem core_of_forall {text : Line} (filled : text ≠ [])
    (plain : ∀ letter ∈ text, isEdge letter = false) : IsCore text where
  filled := filled
  starts := fun letter first => plain letter (List.mem_of_mem_head? first)
  stops := fun letter last => plain letter (List.mem_of_mem_getLast? last)

theorem Operand.core (operand : Operand State) : IsCore operand.text := by
  cases operand with
  | literal negative digits suffix decimal =>
      refine core_of_forall (by simp [Operand.text, decimal.filled]) fun letter member => ?_
      rcases List.mem_append.mp member with front | back
      · rcases List.mem_append.mp front with sign | digit
        · cases negative with
          | true =>
              obtain rfl := List.mem_singleton.mp sign
              decide
          | false => cases sign
        · exact isEdge_of_isDigit (decimal.decimal letter digit)
      · have letters := decimal.suffix letter back
        simp only [List.mem_cons, List.not_mem_nil, or_false] at letters
        rcases letters with rfl | rfl | rfl | rfl <;> decide
  | result => exact core_resultWord
  | other text value core => exact core

/-- Only white space and opening brackets stand before the first operand. -/
def IsOpening (text : Line) : Prop :=
  ∀ letter ∈ text, Text.isWhitespace letter = true ∨ letter = '('

def IsClosing (text : Line) : Prop :=
  ∀ letter ∈ text, Text.isWhitespace letter = true ∨ letter = ')'

theorem isBlank_nil : IsBlank [] := fun _ member => absurd member List.not_mem_nil

theorem IsBlank.opening {text : Line} (blank : IsBlank text) : IsOpening text :=
  fun letter member => .inl (blank letter member)

theorem IsBlank.closing {text : Line} (blank : IsBlank text) : IsClosing text :=
  fun letter member => .inl (blank letter member)

/-- The text starts with a letter of an operand. -/
structure Fresh (text : Line) : Prop where
  filled : text ≠ []
  starts : ∀ letter ∈ text.head?, isEdge letter = false

/-- The text ends with a letter of an operand. -/
structure Settled (text : Line) : Prop where
  filled : text ≠ []
  stops : ∀ letter ∈ text.getLast?, isEdge letter = false

theorem IsCore.fresh {text : Line} (core : IsCore text) (rest : Line) : Fresh (text ++ rest) where
  filled := List.append_ne_nil_of_left_ne_nil core.filled rest
  starts := by
    rw [List.head?_append_of_ne_nil _ core.filled]
    exact core.starts

theorem IsCore.settled {text : Line} (core : IsCore text) (lead : Line) :
    Settled (lead ++ text) where
  filled := List.append_ne_nil_of_right_ne_nil lead core.filled
  stops := by
    rw [List.getLast?_append_of_ne_nil _ core.filled]
    exact core.stops

/-- No operand goes on into the text. -/
def Stops (text : Line) : Prop := ∀ letter ∈ text.head?,
  Text.isWhitespace letter = true ∨ letter ∈ ['<', '>', '=', '!', '&', ')']

theorem Stops.nil : Stops [] := fun _ first => absurd first (Option.not_mem_none _)

theorem IsClosing.stops {closing rest : Line} (isClosing : IsClosing closing)
    (stops : Stops rest) : Stops (closing ++ rest) := by
  cases closing with
  | nil => exact stops
  | cons letter closing =>
      intro head first
      obtain rfl := Option.some.inj first
      rcases isClosing letter List.mem_cons_self with white | rfl
      · exact .inl white
      · exact .inr (by decide)

theorem Relation.stops (relation : Relation) (rest : Line) : Stops (relation.text ++ rest) := by
  intro letter first
  cases relation <;> (obtain rfl := Option.some.inj first; exact .inr (by decide))

theorem chainText_opens (first : Term State) (links : List (Relation × Term State)) :
    ∃ rest, chainText first links = first.lead ++ (first.operand.text ++ rest) ∧ Stops rest := by
  cases links with
  | nil =>
      refine ⟨first.tail, List.append_assoc .., ?_⟩
      rw [← List.append_nil first.tail]
      exact first.tailBlank.closing.stops Stops.nil
  | cons link links =>
      refine ⟨first.tail ++ (link.1.text ++ chainText link.2 links), ?_,
        first.tailBlank.closing.stops (link.1.stops _)⟩
      simp only [chainText, Term.text, List.append_assoc]

theorem chainText_closes (first : Term State) (links : List (Relation × Term State)) :
    ∃ rest tail, chainText first links = rest ++ tail ∧ IsBlank tail ∧ Settled rest := by
  induction links generalizing first with
  | nil =>
      exact ⟨first.lead ++ first.operand.text, first.tail, rfl, first.tailBlank,
        first.operand.core.settled _⟩
  | cons link links ih =>
      obtain ⟨rest, tail, split, blank, settled⟩ := ih link.2
      refine ⟨first.text ++ link.1.text ++ rest, tail, ?_, blank, ?_, ?_⟩
      · rw [chainText, split, List.append_assoc _ rest]
      · exact List.append_ne_nil_of_right_ne_nil _ settled.filled
      · rw [List.getLast?_append_of_ne_nil _ settled.filled]
        exact settled.stops

theorem Clause.opens (clause : Clause State) :
    ∃ lead rest, clause.text = lead ++ rest ∧ IsOpening lead ∧ Fresh rest := by
  have further {text lead rest : Line} (more : Line) (split : text = lead ++ rest)
      (fresh : Fresh rest) : text ++ more = lead ++ (rest ++ more) ∧ Fresh (rest ++ more) := by
    refine ⟨by rw [split, List.append_assoc], List.append_ne_nil_of_left_ne_nil fresh.filled _, ?_⟩
    rw [List.head?_append_of_ne_nil _ fresh.filled]
    exact fresh.starts
  induction clause with
  | chain first links =>
      obtain ⟨rest, split, -⟩ := chainText_opens first links
      exact ⟨first.lead, _, split, first.leadBlank.opening, first.operand.core.fresh rest⟩
  | both left right first _ =>
      obtain ⟨lead, rest, split, opening, fresh⟩ := first
      have whole := further (bothSign ++ right.text) split fresh
      exact ⟨lead, _, (List.append_assoc ..).trans whole.1, opening, whole.2⟩
  | equivalence left right first _ =>
      obtain ⟨lead, rest, split, opening, fresh⟩ := first
      have whole := further (equivalenceSign ++ right.text) split fresh
      exact ⟨lead, _, (List.append_assoc ..).trans whole.1, opening, whole.2⟩
  | group lead tail leadBlank tailBlank inner inside =>
      obtain ⟨front, rest, split, opening, fresh⟩ := inside
      have whole := further ([')'] ++ tail) split fresh
      refine ⟨lead ++ ['('] ++ front, _, ?_, fun letter member => ?_, whole.2⟩
      · rw [Clause.text, List.append_assoc _ inner.text, whole.1, List.append_assoc _ front]
      · rcases List.mem_append.mp member with before | after
        · rcases List.mem_append.mp before with white | bracket
          · exact .inl (leadBlank letter white)
          · exact .inr (List.mem_singleton.mp bracket)
        · exact opening letter after
  | other lead text tail leadBlank tailBlank core meaning =>
      exact ⟨lead, text ++ tail, List.append_assoc .., leadBlank.opening, core.fresh tail⟩

theorem Clause.closes (clause : Clause State) :
    ∃ rest tail, clause.text = rest ++ tail ∧ IsClosing tail ∧ Settled rest := by
  have further {text rest tail : Line} (more : Line) (split : text = rest ++ tail)
      (settled : Settled rest) : more ++ text = more ++ rest ++ tail ∧ Settled (more ++ rest) := by
    refine ⟨by rw [split, List.append_assoc], List.append_ne_nil_of_right_ne_nil _ settled.filled,
      ?_⟩
    rw [List.getLast?_append_of_ne_nil _ settled.filled]
    exact settled.stops
  induction clause with
  | chain first links =>
      obtain ⟨rest, tail, split, blank, settled⟩ := chainText_closes first links
      exact ⟨rest, tail, split, blank.closing, settled⟩
  | both left right _ second =>
      obtain ⟨rest, tail, split, closing, settled⟩ := second
      have whole := further (left.text ++ bothSign) split settled
      exact ⟨_, tail, whole.1, closing, whole.2⟩
  | equivalence left right _ second =>
      obtain ⟨rest, tail, split, closing, settled⟩ := second
      have whole := further (left.text ++ equivalenceSign) split settled
      exact ⟨_, tail, whole.1, closing, whole.2⟩
  | group lead tail leadBlank tailBlank inner inside =>
      obtain ⟨rest, back, split, closing, settled⟩ := inside
      have whole := further (lead ++ ['(']) split settled
      refine ⟨_, back ++ ([')'] ++ tail), ?_, fun letter member => ?_, whole.2⟩
      · rw [Clause.text, whole.1, List.append_assoc]
      · rcases List.mem_append.mp member with before | after
        · exact closing letter before
        · rcases List.mem_append.mp after with bracket | white
          · exact .inr (List.mem_singleton.mp bracket)
          · exact .inl (tailBlank letter white)
  | other lead text tail leadBlank tailBlank core meaning =>
      exact ⟨lead ++ text, tail, rfl, tailBlank.closing, core.settled lead⟩

end Shapes

section Occurrences

variable {word sep left right before after : Line}

/-- A word behind letters that it does not have stands behind all of them. -/
theorem occurrence_behind (apart : ∀ letter ∈ sep, letter ∉ word) (filled : word ≠ [])
    (split : sep ++ right = before ++ word ++ after) :
    ∃ lead, right = lead ++ word ++ after ∧ before = sep ++ lead := by
  rw [List.append_assoc] at split
  rcases List.append_eq_append_iff.mp split with ⟨lead, own, rest⟩ | ⟨more, own, rest⟩
  · exact ⟨lead, by rw [rest, List.append_assoc], own⟩
  · cases more with
    | nil =>
        rw [List.append_nil] at own
        exact ⟨[], rest.symm, by rw [own, List.append_nil]⟩
    | cons letter more =>
        obtain ⟨head, tail, rfl⟩ := List.exists_cons_of_ne_nil filled
        obtain ⟨rfl, -⟩ := List.cons.inj rest
        exact absurd List.mem_cons_self
          (apart head (own ▸ List.mem_append_right before List.mem_cons_self))

theorem occurrence_before (apart : ∀ letter ∈ sep, letter ∉ word) (filled : word ≠ [])
    (split : left ++ sep = before ++ word ++ after) :
    ∃ tail, left = before ++ word ++ tail ∧ after = tail ++ sep := by
  have turned : sep.reverse ++ left.reverse = after.reverse ++ word.reverse ++ before.reverse := by
    rw [← List.reverse_append, split]
    simp only [List.reverse_append, List.append_assoc]
  obtain ⟨lead, own, rest⟩ := occurrence_behind
    (fun letter member => by
      rw [List.mem_reverse] at member ⊢
      exact apart letter member)
    (by rwa [ne_eq, List.reverse_eq_nil_iff]) turned
  refine ⟨lead.reverse, ?_, ?_⟩
  · have same := congrArg List.reverse own
    simpa only [List.reverse_append, List.reverse_reverse, List.append_assoc] using same
  · have same := congrArg List.reverse rest
    simpa only [List.reverse_append, List.reverse_reverse] using same

/-- A word stands on one side of letters that it does not have. -/
theorem occurrence_beside (apart : ∀ letter ∈ sep, letter ∉ word) (parted : sep ≠ [])
    (filled : word ≠ []) (split : left ++ sep ++ right = before ++ word ++ after) :
    (∃ tail, left = before ++ word ++ tail ∧ after = tail ++ (sep ++ right)) ∨
      ∃ lead, right = lead ++ word ++ after ∧ before = left ++ sep ++ lead := by
  rw [List.append_assoc, List.append_assoc] at split
  rcases List.append_eq_append_iff.mp split with ⟨lead, own, rest⟩ | ⟨more, own, rest⟩
  · rw [← List.append_assoc] at rest
    obtain ⟨inner, behind, same⟩ := occurrence_behind apart filled rest
    exact .inr ⟨inner, behind, by rw [own, same, List.append_assoc]⟩
  · rcases List.append_eq_append_iff.mp rest with ⟨tail, whole, behind⟩ | ⟨cut, whole, behind⟩
    · exact .inl ⟨tail, by rw [own, whole, List.append_assoc], behind⟩
    · cases cut with
      | nil =>
          rw [List.append_nil] at whole
          exact .inl ⟨[], by rw [own, whole, List.append_nil], behind.symm⟩
      | cons letter cut =>
          obtain ⟨head, others, rfl⟩ := List.exists_cons_of_ne_nil parted
          obtain ⟨rfl, -⟩ := List.cons.inj behind
          exact absurd (whole ▸ List.mem_append_right more List.mem_cons_self)
            (apart head List.mem_cons_self)

end Occurrences

end FramaCMcp.ResultRange
