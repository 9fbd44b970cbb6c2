/-
This file finds each literal that the scan reads in the formulas of a contract.
-/

import FramaCMcp.Proof.ContractFormula

namespace FramaCMcp.ResultRange

section Marks

/-- A letter of the second list behind the operator makes it another one. -/
structure Mark where
  operator : Line
  blocked : Line
  deriving DecidableEq

def orderMarks : List Mark :=
  [⟨['<', '='], []⟩, ⟨['<'], ['=']⟩, ⟨['>', '='], []⟩, ⟨['>'], ['=']⟩]

def equalMark : Mark := ⟨['=', '='], ['>']⟩

def IsMark (mark : Mark) : Prop := mark ∈ orderMarks ∨ mark = equalMark

theorem IsMark.cases {mark : Mark} (isMark : IsMark mark) :
    mark = ⟨['<', '='], []⟩ ∨ mark = ⟨['<'], ['=']⟩ ∨ mark = ⟨['>', '='], []⟩ ∨
      mark = ⟨['>'], ['=']⟩ ∨ mark = ⟨['=', '='], ['>']⟩ := by
  rcases isMark with order | rfl
  · simp only [orderMarks, List.mem_cons, List.not_mem_nil, or_false] at order
    rcases order with rfl | rfl | rfl | rfl
    · exact .inl rfl
    · exact .inr (.inl rfl)
    · exact .inr (.inr (.inl rfl))
    · exact .inr (.inr (.inr (.inl rfl)))
  · exact .inr (.inr (.inr (.inr rfl)))

theorem IsMark.edge {mark : Mark} (isMark : IsMark mark) {letter : Char}
    (member : letter ∈ mark.operator) : isEdge letter = true := by
  rcases isMark.cases with rfl | rfl | rfl | rfl | rfl <;>
    simp only [List.mem_cons, List.not_mem_nil, or_false] at member
  · rcases member with rfl | rfl <;> decide
  · exact member ▸ by decide
  · rcases member with rfl | rfl <;> decide
  · exact member ▸ by decide
  · rcases member with rfl | rfl <;> decide

def Mark.before (mark : Mark) (before : Line) : Option Int :=
  let lhs := Line.trimEnd before
  if mark.operator.isSuffixOf lhs then
    literalBefore (lhs.take (lhs.length - mark.operator.length))
  else none

def Mark.behind (mark : Mark) (after : Line) : Option Int :=
  let rhs := Line.trimStart after
  if mark.operator.isPrefixOf rhs &&
      (rhs.drop mark.operator.length).head?.all (fun letter => !mark.blocked.contains letter) then
    literalAfter (rhs.drop mark.operator.length)
  else none

theorem before_eq_some_iff {mark : Mark} {before : Line} {literal : Int} :
    mark.before before = some literal ↔
      ∃ lead, Line.trimEnd before = lead ++ mark.operator ∧ literalBefore lead = some literal := by
  rw [Mark.before]
  constructor
  · intro read
    split_ifs at read with ends
    obtain ⟨lead, same⟩ := List.isSuffixOf_iff_suffix.mp ends
    refine ⟨lead, same.symm, ?_⟩
    rwa [← same, List.length_append, Nat.add_sub_cancel, List.take_left] at read
  · rintro ⟨lead, same, read⟩
    rw [same, if_pos (List.isSuffixOf_iff_suffix.mpr (List.suffix_append ..)), List.length_append,
      Nat.add_sub_cancel, List.take_left, read]

theorem behind_eq_some_iff {mark : Mark} {after : Line} {literal : Int} :
    mark.behind after = some literal ↔ ∃ rest, Line.trimStart after = mark.operator ++ rest ∧
      (∀ letter ∈ rest.head?, letter ∉ mark.blocked) ∧ literalAfter rest = some literal := by
  rw [Mark.behind]
  constructor
  · intro read
    split_ifs at read with starts
    rw [Bool.and_eq_true, List.isPrefixOf_iff_prefix] at starts
    obtain ⟨⟨rest, same⟩, free⟩ := starts
    rw [← same, List.drop_left] at free read
    refine ⟨rest, same.symm, fun letter first => ?_, read⟩
    rw [Option.mem_def] at first
    rw [first, Option.all_some] at free
    simpa using free
  · rintro ⟨rest, same, free, read⟩
    rw [same, List.drop_left, if_pos, read]
    rw [Bool.and_eq_true, List.isPrefixOf_iff_prefix]
    refine ⟨List.prefix_append .., ?_⟩
    cases first : rest.head? with
    | none => rfl
    | some letter =>
        rw [Option.all_some]
        simpa using free letter first

end Marks

section Lead

/-- The text ends, up to white space, with a letter that no operand goes on behind. -/
def IsOpen (lead : Line) : Prop :=
  ∀ letter ∈ (Line.trimEnd lead).getLast?, letter ∈ ['<', '>', '=', '&', '(']

theorem trimEnd_append_blank (lead : Line) {blank : Line} (white : IsBlank blank) :
    Line.trimEnd (lead ++ blank) = Line.trimEnd lead := by
  rw [Line.trimEnd, List.reverse_append, List.dropWhile_append_of_pos, Line.trimEnd]
  intro letter member
  exact white letter (List.mem_reverse.mp member)

theorem trimEnd_append_of_last {lead : Line} {letter : Char}
    (plain : Text.isWhitespace letter = false) :
    Line.trimEnd (lead ++ [letter]) = lead ++ [letter] := by
  apply Line.reverse_dropWhile_of_last
  intro last found
  rw [List.getLast?_concat, Option.mem_some] at found
  exact found ▸ plain

theorem Fresh.trimEnd {text : Line} (fresh : Fresh text) : Fresh (Line.trimEnd text) := by
  obtain ⟨letter, rest, rfl⟩ := List.exists_cons_of_ne_nil fresh.filled
  have plain := fresh.starts letter rfl
  have kept : Line.trimEnd (letter :: rest) = letter :: Line.trimEnd rest := by
    have alone := @Line.reverse_dropWhile_append Text.isWhitespace [letter]
      (fun last found => by
        obtain rfl := Option.some.inj found
        exact isWhitespace_of_isEdge plain) rest
    exact alone
  rw [kept]
  refine ⟨List.cons_ne_nil _ _, fun first found => ?_⟩
  obtain rfl := Option.some.inj found
  exact plain

theorem trimEnd_append_fresh (lead : Line) {text : Line} (fresh : Fresh text) :
    Line.trimEnd (lead ++ text) = lead ++ Line.trimEnd text := by
  have filled := fresh.trimEnd.filled
  have turned : (text.reverse.dropWhile Text.isWhitespace) ≠ [] := by
    intro empty
    rw [Line.trimEnd, empty] at filled
    exact filled rfl
  rw [Line.trimEnd, List.reverse_append, List.dropWhile_append, if_neg (by simpa using turned),
    List.reverse_append, List.reverse_reverse, Line.trimEnd]

theorem isOpen_of_blank {lead : Line} (blank : IsBlank lead) : IsOpen lead := by
  intro letter last
  rw [← List.nil_append lead, trimEnd_append_blank [] blank] at last
  cases last

/-- An opening bracket ends the text before it. -/
theorem trimEnd_opening {text : Line} (opening : IsOpening text) :
    IsBlank text ∨ ∃ front, ∀ lead, Line.trimEnd (lead ++ text) = lead ++ front ++ ['('] := by
  induction text using List.reverseRecOn with
  | nil => exact .inl fun letter member => absurd member List.not_mem_nil
  | append_singleton front letter ih =>
      have earlier : IsOpening front := fun other member =>
        opening other (List.mem_append_left _ member)
      rcases opening letter (List.mem_append_right _ List.mem_cons_self) with white | rfl
      · have blank : IsBlank [letter] := fun other member =>
          List.mem_singleton.mp member ▸ white
        rcases ih earlier with before | ⟨start, ends⟩
        · refine .inl fun other member => ?_
          rcases List.mem_append.mp member with older | last
          · exact before other older
          · exact blank other last
        · refine .inr ⟨start, fun lead => ?_⟩
          rw [← List.append_assoc, trimEnd_append_blank _ blank, ends]
      · refine .inr ⟨front, fun lead => ?_⟩
        rw [← List.append_assoc, trimEnd_append_of_last (by decide)]

theorem isOpen_append {lead opening : Line} {letter : Char} (isOpening : IsOpening opening)
    (sign : letter ∈ ['<', '>', '=', '&', '(']) : IsOpen (lead ++ [letter] ++ opening) := by
  have plain : Text.isWhitespace letter = false := by
    simp only [List.mem_cons, List.not_mem_nil, or_false] at sign
    rcases sign with rfl | rfl | rfl | rfl | rfl <;> decide
  intro last found
  rcases trimEnd_opening isOpening with white | ⟨front, ends⟩
  · rw [trimEnd_append_blank _ white, trimEnd_append_of_last plain, List.getLast?_concat,
      Option.mem_some] at found
    exact found ▸ sign
  · rw [ends, List.getLast?_concat, Option.mem_some] at found
    exact found ▸ by decide

theorem isOpen_of_opening {opening : Line} (isOpening : IsOpening opening) : IsOpen opening := by
  rcases trimEnd_opening isOpening with white | ⟨front, ends⟩
  · exact isOpen_of_blank white
  · intro last found
    rw [← List.nil_append opening, ends, List.getLast?_concat, Option.mem_some] at found
    exact found ▸ by decide

/-- Such an end belongs to no literal and to no operand. -/
theorem IsOpen.last {lead : Line} (isOpen : IsOpen lead) : ∀ letter ∈ lead.getLast?,
    letter.isAlphanum = false ∧ letter ≠ ')' ∧ letter ≠ '-' := by
  intro letter last
  by_cases white : Text.isWhitespace letter = true
  · refine ⟨?_, ?_, ?_⟩
    · by_contra plain
      have other := isWhitespace_of_isEdge (isEdge_of_isAlphanum (Bool.not_eq_false _ ▸ plain))
      rw [white] at other
      cases other
    · rintro rfl
      exact absurd white (by decide)
    · rintro rfl
      exact absurd white (by decide)
  · have kept : Line.trimEnd lead = lead := by
      apply Line.reverse_dropWhile_of_last
      intro other found
      obtain rfl := Option.some.inj (last.symm.trans found)
      exact Bool.not_eq_true _ ▸ white
    have sign := isOpen letter (kept.symm ▸ last)
    simp only [List.mem_cons, List.not_mem_nil, or_false] at sign
    rcases sign with rfl | rfl | rfl | rfl | rfl <;> exact ⟨by decide, by decide, by decide⟩

theorem isDigit_eq_false {letter : Char} (plain : letter.isAlphanum = false) :
    letter.isDigit = false := by
  rw [Char.isAlphanum, Bool.or_eq_false_iff] at plain
  exact plain.2

theorem literalParts_append_open {lead : Line} (isOpen : IsOpen lead) (text : Line) :
    literalParts (lead ++ text) = (lead ++ (literalParts text).1, (literalParts text).2) := by
  have last := isOpen.last
  have front := @Line.reverse_dropWhile_append Char.isDigit lead
    (fun letter found => isDigit_eq_false (last letter found).1) text
  have whole := lead_append_digits (lead ++ text)
  have own := lead_append_digits text
  rw [front, List.append_assoc] at whole
  have digits := List.append_cancel_left ((List.append_cancel_left whole).trans own.symm)
  rw [literalParts, literalParts, front, digits]
  generalize (text.reverse.dropWhile Char.isDigit).reverse = start
  rcases List.eq_nil_or_concat' start with rfl | ⟨start, letter, rfl⟩
  · rw [List.append_nil, if_neg, if_neg]
    · rw [List.append_nil]
    · rintro ⟨found, -⟩
      cases found
    · rintro ⟨found, -⟩
      exact (last '-' found).2.2 rfl
  · rw [← List.append_assoc, List.getLast?_concat, List.getLast?_concat, List.dropLast_concat,
      List.dropLast_concat]
    have same : (lead ++ start).getLast?.all (fun letter => !letter.isAlphanum && letter != ')') =
        start.getLast?.all fun letter => !letter.isAlphanum && letter != ')' := by
      rcases List.eq_nil_or_concat' start with rfl | ⟨start, other, rfl⟩
      · rw [List.append_nil]
        cases found : lead.getLast? with
        | none => rfl
        | some letter =>
            obtain ⟨plain, bracket, -⟩ := last letter found
            simp [plain, bracket]
      · rw [← List.append_assoc, List.getLast?_concat, List.getLast?_concat]
    rw [same]
    split_ifs with glued
    · rfl
    · rw [List.append_assoc]

theorem literalBefore_append_open {lead text : Line} (isOpen : IsOpen lead) (fresh : Fresh text) :
    literalBefore (lead ++ text) = literalBefore text := by
  have alone : standsAlone (lead ++ (literalParts (Line.trimEnd text)).1) =
      standsAlone (literalParts (Line.trimEnd text)).1 := by
    have whole := literalParts_append (Line.trimEnd text)
    generalize (literalParts (Line.trimEnd text)).1 = start at whole ⊢
    cases start with
    | nil =>
        rw [List.append_nil, standsAlone, standsAlone]
        cases found : (Line.trimEnd lead).getLast? with
        | none => rfl
        | some letter =>
            have sign := isOpen letter found
            simp only [List.mem_cons, List.not_mem_nil, or_false] at sign
            rcases sign with rfl | rfl | rfl | rfl | rfl <;> rfl
    | cons letter rest =>
        have begun : Fresh (letter :: rest) := by
          refine ⟨List.cons_ne_nil _ _, fun first found => fresh.trimEnd.starts first ?_⟩
          rw [← whole]
          exact found
        rw [standsAlone, trimEnd_append_fresh lead begun,
          List.getLast?_append_of_ne_nil _ begun.trimEnd.filled, standsAlone]
  rw [literalBefore, trimEnd_append_fresh lead fresh, literalParts_append_open isOpen, literalBefore]
  dsimp only
  rw [alone]

/-- The white space behind a literal is passed over. -/
theorem literalBefore_append_blank (text : Line) {blank : Line} (white : IsBlank blank) :
    literalBefore (text ++ blank) = literalBefore text := by
  rw [literalBefore, trimEnd_append_blank text white, literalBefore]

variable {mark : Mark} {literal : Int}

/-- An operator next to a result does not reach past the operand before it. -/
theorem before_append_open (isMark : IsMark mark) {lead text : Line} (isOpen : IsOpen lead)
    (fresh : Fresh text) : mark.before (lead ++ text) = mark.before text := by
  apply Option.ext
  intro literal
  rw [before_eq_some_iff, before_eq_some_iff,
    trimEnd_append_fresh lead fresh]
  have begun := fresh.trimEnd
  have later {front : Line} (same : Line.trimEnd text = front ++ mark.operator) : Fresh front := by
    cases front with
    | nil =>
        obtain ⟨letter, rest, split⟩ := List.exists_cons_of_ne_nil begun.filled
        have plain := begun.starts letter (by rw [split]; rfl)
        have inside : letter ∈ mark.operator := by
          rw [List.nil_append] at same
          rw [← same, split]
          exact List.mem_cons_self
        have edge := isMark.edge inside
        rw [plain] at edge
        cases edge
    | cons letter rest =>
        refine ⟨List.cons_ne_nil _ _, fun first found => begun.starts first ?_⟩
        rw [same]
        exact found
  constructor
  · rintro ⟨front, same, read⟩
    rcases List.append_eq_append_iff.mp same with ⟨more, own, rest⟩ | ⟨more, own, rest⟩
    · refine ⟨more, rest, ?_⟩
      rwa [own, literalBefore_append_open isOpen (later rest)] at read
    · obtain ⟨letter, others, split⟩ := List.exists_cons_of_ne_nil begun.filled
      have plain := begun.starts letter (by rw [split]; rfl)
      have inside : letter ∈ mark.operator := by
        rw [rest, split]
        exact List.mem_append_right more List.mem_cons_self
      have edge := isMark.edge inside
      rw [plain] at edge
      cases edge
  · rintro ⟨front, same, read⟩
    refine ⟨lead ++ front, by rw [same, List.append_assoc], ?_⟩
    rwa [literalBefore_append_open isOpen (later same)]

theorem before_bracket (isMark : IsMark mark) {text front : Line}
    (ends : Line.trimEnd text = front ++ ['(']) : mark.before text = none := by
  apply Option.eq_none_iff_forall_not_mem.mpr
  intro literal read
  obtain ⟨lead, same, -⟩ := before_eq_some_iff.mp read
  have turned := congrArg List.getLast? (ends.symm.trans same)
  rcases isMark.cases with rfl | rfl | rfl | rfl | rfl <;>
    simp at turned

/-- Nothing is read behind white space and opening brackets alone. -/
theorem before_opening (isMark : IsMark mark) {text : Line} (opening : IsOpening text) :
    mark.before text = none := by
  rcases trimEnd_opening opening with blank | ⟨front, ends⟩
  · apply Option.eq_none_iff_forall_not_mem.mpr
    intro literal read
    obtain ⟨lead, same, -⟩ := before_eq_some_iff.mp read
    rw [← List.nil_append text, trimEnd_append_blank [] blank] at same
    have empty := (List.append_eq_nil_iff.mp same.symm).2
    rcases isMark.cases with rfl | rfl | rfl | rfl | rfl <;> cases empty
  · have ends := ends []
    rw [List.nil_append, List.nil_append] at ends
    exact before_bracket isMark ends

/-- Nothing is read across a connective. -/
theorem before_connective (isMark : IsMark mark) (lead : Line) {sign opening : Line}
    (connective : sign = bothSign ∨ sign = equivalenceSign) (isOpening : IsOpening opening) :
    mark.before (lead ++ sign ++ opening) = none := by
  rcases trimEnd_opening isOpening with blank | ⟨front, ends⟩
  swap
  · exact before_bracket isMark (ends (lead ++ sign))
  apply Option.eq_none_iff_forall_not_mem.mpr
  intro literal read
  obtain ⟨before, same, taken⟩ := before_eq_some_iff.mp read
  rw [trimEnd_append_blank _ blank] at same
  rcases connective with rfl | rfl
  · have plain : Line.trimEnd (lead ++ bothSign) = lead ++ ['&'] ++ ['&'] := by
      rw [← @trimEnd_append_of_last _ '&' (by decide), List.append_assoc]
      rfl
    rw [plain] at same
    have turned := congrArg List.getLast? same
    rcases isMark.cases with rfl | rfl | rfl | rfl | rfl <;> simp at turned
  · -- the last letter of the arrow is an operator, and an equality sign stands before it
    have plain : Line.trimEnd (lead ++ equivalenceSign) = lead ++ ['<', '=', '='] ++ ['>'] := by
      rw [← @trimEnd_append_of_last _ '>' (by decide), List.append_assoc]
      rfl
    rw [plain] at same
    have turned := congrArg List.reverse same
    rcases isMark.cases with rfl | rfl | rfl | rfl | rfl <;>
      simp only [List.reverse_append, List.reverse_cons, List.reverse_nil, List.nil_append,
        List.cons_append, List.cons.injEq] at turned
    · exact absurd turned.1 (by decide)
    · exact absurd turned.1 (by decide)
    · exact absurd turned.1 (by decide)
    · have front : before = lead ++ ['<', '='] ++ ['='] := by
        have whole := congrArg List.reverse turned.2
        simpa using whole.symm
      rw [front, literalBefore, trimEnd_append_of_last (by decide)] at taken
      have parts : literalParts (lead ++ ['<', '='] ++ ['=']) = (lead ++ ['<', '='] ++ ['='], []) := by
        rw [literalParts, List.reverse_append, List.reverse_singleton, List.singleton_append,
          List.dropWhile_cons_of_neg (by decide), List.takeWhile_cons_of_neg (by decide),
          ← List.singleton_append, ← List.reverse_singleton, ← List.reverse_append, List.reverse_reverse,
          if_neg]
        · rfl
        · rintro ⟨last, -⟩
          rw [List.getLast?_concat] at last
          cases last
      rw [parts] at taken
      split_ifs at taken
      cases taken
    · exact absurd turned.1 (by decide)

theorem trimEnd_relation (lead : Line) (relation : Relation) {blank : Line}
    (white : IsBlank blank) :
    Line.trimEnd (lead ++ relation.text ++ blank) = lead ++ relation.text := by
  rw [trimEnd_append_blank _ white]
  apply Line.reverse_dropWhile_of_last
  intro letter last
  rw [List.getLast?_append_of_ne_nil _ (by cases relation <;> exact List.cons_ne_nil _ _)] at last
  cases relation <;> (obtain rfl := Option.some.inj last; decide)

theorem before_relation (isMark : IsMark mark) {lead blank : Line} (relation : Relation)
    (white : IsBlank blank)
    (read : mark.before (lead ++ relation.text ++ blank) = some literal) :
    relation.text = mark.operator ∧ literalBefore lead = some literal := by
  obtain ⟨front, same, read⟩ := before_eq_some_iff.mp read
  rw [trimEnd_relation lead relation white] at same
  have turned := congrArg List.reverse same
  have agree : relation.text = mark.operator ∧ lead = front := by
    rcases isMark.cases with rfl | rfl | rfl | rfl | rfl <;> cases relation <;>
      simp [Relation.text] at turned ⊢
    all_goals exact turned
  exact ⟨agree.1, agree.2 ▸ read⟩

theorem before_of_relation {lead blank : Line} {relation : Relation} (white : IsBlank blank)
    (same : relation.text = mark.operator) (taken : literalBefore lead = some literal) :
    mark.before (lead ++ relation.text ++ blank) = some literal :=
  before_eq_some_iff.mpr ⟨lead, same ▸ trimEnd_relation lead relation white, taken⟩

end Lead

section Trail

variable {mark : Mark} {literal : Int} {trail : Line}

theorem Settled.exists_plain {text : Line} (settled : Settled text) :
    ∃ letter ∈ text, isEdge letter = false :=
  ⟨text.getLast settled.filled, List.getLast_mem _,
    settled.stops _ (List.getLast?_eq_some_getLast settled.filled)⟩

theorem trimStart_append_settled {text : Line} (settled : Settled text) (trail : Line) :
    Line.trimStart (text ++ trail) = Line.trimStart text ++ trail ∧
      Settled (Line.trimStart text) := by
  obtain ⟨front, split, white⟩ := Line.append_trimStart text
  have filled : Line.trimStart text ≠ [] := by
    intro empty
    rw [empty, List.append_nil] at split
    obtain ⟨letter, member, edge⟩ := settled.exists_plain
    have plain := isWhitespace_of_isEdge edge
    rw [split] at member
    rw [white letter member] at plain
    cases plain
  refine ⟨?_, filled, fun letter last => settled.stops letter ?_⟩
  · conv_lhs => rw [split, List.append_assoc, Line.trimStart_append white]
    apply Line.trimStart_of_head
    intro letter first
    rw [List.head?_append_of_ne_nil _ filled] at first
    exact Line.head_trimStart first
  · rw [split, List.getLast?_append_of_ne_nil _ filled]
    exact last

theorem takeWhile_append_stopped {test : Char → Bool}
    (stopped : ∀ letter ∈ trail.head?, test letter = false) (text : Line) :
    (text ++ trail).takeWhile test = text.takeWhile test := by
  rw [List.takeWhile_append]
  split_ifs with all
  · have none : trail.takeWhile test = [] := by
      cases trail with
      | nil => rfl
      | cons letter rest => exact List.takeWhile_cons_of_neg (by simp [stopped letter rfl])
    rw [none, List.append_nil]
    exact ((List.takeWhile_prefix test).eq_of_length all).symm
  · rfl

/-- What follows a text takes no part in the literal at its start. -/
theorem literalAfter_append_settled {text : Line} (settled : Settled text)
    (stopped : ∀ letter ∈ trail.head?, letter.isDigit = false) :
    literalAfter (text ++ trail) = literalAfter text := by
  obtain ⟨same, inner⟩ := trimStart_append_settled settled trail
  rw [literalAfter, same, literalAfter]
  congr 1
  obtain ⟨letter, rest, split⟩ := List.exists_cons_of_ne_nil inner.filled
  rw [split, List.cons_append]
  by_cases minus : letter = '-'
  · subst minus
    exact congrArg (List.cons '-') (takeWhile_append_stopped stopped rest)
  · have plain (tail : Line) :
        leadingDigits (letter :: tail) = (letter :: tail).takeWhile Char.isDigit := by
      rw [leadingDigits.eq_def]
      split
      · rename_i head
        exact absurd (List.cons.inj head).1 minus
      · rfl
    rw [plain, plain, ← List.cons_append]
    exact takeWhile_append_stopped stopped (letter :: rest)

theorem behind_append_settled (isMark : IsMark mark) {text : Line} (settled : Settled text)
    (stopped : ∀ letter ∈ trail.head?, letter.isDigit = false) :
    mark.behind (text ++ trail) = mark.behind text := by
  apply Option.ext
  intro literal
  obtain ⟨same, inner⟩ := trimStart_append_settled settled trail
  rw [behind_eq_some_iff, behind_eq_some_iff, same]
  have later {rest : Line} (split : Line.trimStart text = mark.operator ++ rest) :
      Settled rest := by
    rcases List.eq_nil_or_concat' rest with rfl | ⟨front, letter, rfl⟩
    · obtain ⟨letter, member, plain⟩ := inner.exists_plain
      rw [split, List.append_nil] at member
      rw [isMark.edge member] at plain
      cases plain
    · refine ⟨by simp, fun last found => inner.stops last ?_⟩
      rwa [split, List.getLast?_append_of_ne_nil _ (by simp)]
  constructor
  · rintro ⟨rest, split, free, read⟩
    rcases List.append_eq_append_iff.mp split with ⟨more, own, tail⟩ | ⟨more, own, tail⟩
    · obtain ⟨letter, member, plain⟩ := inner.exists_plain
      rw [isMark.edge (own ▸ List.mem_append_left more member)] at plain
      cases plain
    · have ends := later own
      refine ⟨more, own, fun letter first => free letter ?_, ?_⟩
      · rwa [tail, List.head?_append_of_ne_nil _ ends.filled]
      · rwa [tail, literalAfter_append_settled ends stopped] at read
  · rintro ⟨rest, split, free, read⟩
    have ends := later split
    refine ⟨rest ++ trail, by rw [split, List.append_assoc], fun letter first => free letter ?_, ?_⟩
    · rwa [List.head?_append_of_ne_nil _ ends.filled] at first
    · rwa [literalAfter_append_settled ends stopped]

/-- A closing bracket starts the text behind it. -/
theorem trimStart_closing {text : Line} (closing : IsClosing text) :
    IsBlank text ∨ ∃ rest, ∀ trail, Line.trimStart (text ++ trail) = ')' :: (rest ++ trail) := by
  induction text with
  | nil => exact .inl fun letter member => absurd member List.not_mem_nil
  | cons letter text ih =>
      rcases closing letter List.mem_cons_self with white | rfl
      · rcases ih fun other member => closing other (List.mem_cons_of_mem _ member) with
          blank | ⟨rest, starts⟩
        · exact .inl (List.forall_mem_cons.mpr ⟨white, blank⟩)
        · refine .inr ⟨rest, fun trail => ?_⟩
          rw [← starts trail, List.cons_append, Line.trimStart,
            List.dropWhile_cons_of_pos white, Line.trimStart]
      · exact .inr ⟨text, fun trail => List.dropWhile_cons_of_neg (by decide)⟩

theorem behind_plain (isMark : IsMark mark) {text rest : Line} {letter : Char}
    (plain : isEdge letter = false) (starts : Line.trimStart text = letter :: rest) :
    mark.behind text = none := by
  apply Option.eq_none_iff_forall_not_mem.mpr
  intro literal read
  obtain ⟨tail, same, -⟩ := behind_eq_some_iff.mp read
  rw [starts] at same
  obtain ⟨head, others, split⟩ : ∃ head others, mark.operator = head :: others := by
    rcases isMark.cases with rfl | rfl | rfl | rfl | rfl <;> exact ⟨_, _, rfl⟩
  have inside : head ∈ mark.operator := split ▸ List.mem_cons_self
  have edge := isMark.edge inside
  rw [split, List.cons_append] at same
  obtain ⟨rfl, -⟩ := List.cons.inj same
  rw [plain] at edge
  cases edge

/-- Nothing is read in front of white space and closing brackets alone. -/
theorem behind_closing (isMark : IsMark mark) {text : Line} (closing : IsClosing text) :
    mark.behind text = none := by
  rcases trimStart_closing closing with blank | ⟨rest, starts⟩
  · apply Option.eq_none_iff_forall_not_mem.mpr
    intro literal read
    obtain ⟨tail, same, -⟩ := behind_eq_some_iff.mp read
    have empty : Line.trimStart text = [] := by
      rw [← List.append_nil text, Line.trimStart_append blank]
      rfl
    rw [empty] at same
    have none := (List.append_eq_nil_iff.mp same.symm).1
    rcases isMark.cases with rfl | rfl | rfl | rfl | rfl <;> cases none
  · have starts := starts []
    rw [List.append_nil, List.append_nil] at starts
    exact behind_plain isMark (by decide) starts

theorem behind_connective (isMark : IsMark mark) {closing sign : Line} (rest : Line)
    (connective : sign = bothSign ∨ sign = equivalenceSign) (isClosing : IsClosing closing) :
    mark.behind (closing ++ (sign ++ rest)) = none := by
  rcases trimStart_closing isClosing with blank | ⟨front, starts⟩
  swap
  · exact behind_plain isMark (by decide) (starts (sign ++ rest))
  have same : Line.trimStart (closing ++ (sign ++ rest)) = sign ++ rest := by
    rw [Line.trimStart_append blank]
    apply Line.trimStart_of_head
    intro letter first
    rcases connective with rfl | rfl <;>
      (obtain rfl := Option.some.inj first; decide)
  rcases connective with rfl | rfl
  · exact @behind_plain _ isMark _ _ '&' (by decide) same
  · -- the arrow starts with an operator, and an equality sign stands behind it
    apply Option.eq_none_iff_forall_not_mem.mpr
    intro literal read
    obtain ⟨tail, split, free, taken⟩ := behind_eq_some_iff.mp read
    rw [same] at split
    rcases isMark.cases with rfl | rfl | rfl | rfl | rfl <;>
      simp only [equivalenceSign, List.cons_append, List.nil_append, List.cons.injEq] at split
    · obtain ⟨-, -, rfl⟩ := split
      cases taken
    · obtain ⟨-, rfl⟩ := split
      exact free '=' rfl List.mem_cons_self
    · exact absurd split.1 (by decide)
    · exact absurd split.1 (by decide)
    · exact absurd split.1 (by decide)

theorem trimStart_relation {blank : Line} (white : IsBlank blank) (relation : Relation)
    (rest : Line) :
    Line.trimStart (blank ++ (relation.text ++ rest)) = relation.text ++ rest := by
  rw [Line.trimStart_append white]
  apply Line.trimStart_of_head
  intro letter first
  cases relation <;> (obtain rfl := Option.some.inj first; decide)

theorem behind_relation (isMark : IsMark mark) {blank rest : Line} (relation : Relation)
    (white : IsBlank blank) (plain : ∀ letter ∈ rest.head?, letter ∉ ['<', '>', '='])
    (read : mark.behind (blank ++ (relation.text ++ rest)) = some literal) :
    relation.text = mark.operator ∧ literalAfter rest = some literal := by
  obtain ⟨tail, same, free, taken⟩ := behind_eq_some_iff.mp read
  rw [trimStart_relation white] at same
  have agree : relation.text = mark.operator ∧ rest = tail := by
    rcases isMark.cases with rfl | rfl | rfl | rfl | rfl <;> cases relation <;>
      simp [Relation.text] at same ⊢
    · exact same
    · exact plain '=' (by rw [same]; rfl) (by decide)
    · exact free '=' (by rw [← same]; rfl) List.mem_cons_self
    · exact same
    · exact same
    · exact plain '=' (by rw [same]; rfl) (by decide)
    · exact free '=' (by rw [← same]; rfl) List.mem_cons_self
    · exact same
    · exact same
  exact ⟨agree.1, agree.2 ▸ taken⟩

theorem behind_of_relation (isMark : IsMark mark) {blank rest : Line} {relation : Relation}
    (white : IsBlank blank) (plain : ∀ letter ∈ rest.head?, letter ∉ ['<', '>', '='])
    (same : relation.text = mark.operator) (taken : literalAfter rest = some literal) :
    mark.behind (blank ++ (relation.text ++ rest)) = some literal := by
  refine behind_eq_some_iff.mpr ⟨rest, ?_, fun letter first blocked => plain letter first ?_, taken⟩
  · rw [trimStart_relation white, same]
  · rcases isMark.cases with rfl | rfl | rfl | rfl | rfl
    · cases blocked
    · rw [List.mem_singleton.mp blocked]
      decide
    · cases blocked
    · rw [List.mem_singleton.mp blocked]
      decide
    · rw [List.mem_singleton.mp blocked]
      decide

end Trail

end FramaCMcp.ResultRange
