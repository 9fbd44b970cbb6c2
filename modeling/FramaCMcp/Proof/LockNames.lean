/-
This file shows which lock arguments share a name.
-/

import FramaCMcp.Construction.Tokens
import FramaCMcp.Foundation.Brackets
import Mathlib.Data.List.DropRight
import Mathlib.Logic.Relation

namespace FramaCMcp.Concurrency

open Brackets Relation

/-- White space does not tell two texts apart. -/
def bare (text : Line) : Line := text.filter fun c => !Text.isWhitespace c

/-- A recognizer says of a group and the text behind it whether the group is a cast. -/
abbrev Casts := Line → Line → Bool

/-- One address operator, one dereference or one cast is removed. -/
inductive Strips (casts : Casts) : Line → Line → Prop where
  | address (rest : Line) : Strips casts ('&' :: rest) rest
  | dereference (rest : Line) : Strips casts ('*' :: rest) rest
  | cast {text inner tail : Line} (group : Encloses '(' ')' text inner tail)
      (operand : tail ≠ []) (type : casts inner tail = true) : Strips casts text tail

/-- Nothing more can be removed. -/
def Stripped (casts : Casts) (text : Line) : Prop := ∀ rest, ¬ Strips casts text rest

/-- Two arguments leave one text behind when everything is removed. -/
def SameLvalue (casts : Casts) (first second : Line) : Prop :=
  ∃ last, Stripped casts last ∧ ReflTransGen (Strips casts) (bare first) last ∧
    ReflTransGen (Strips casts) (bare second) last

/-- These are the groups that are dropped in front of the name, each with the text behind it. -/
def leadGroups : Nat → Line → List (Line × Line)
  | 0, _ => []
  | fuel + 1, text =>
      if Line.startsWith text "(" then
        match Line.matching text 0 with
        | none => []
        | some closing =>
            if text.length ≤ closing + 1 then []
            else (bare (Line.slice text 1 closing), bare (text.drop (closing + 1))) ::
              leadGroups fuel (Line.trim (text.drop (closing + 1)))
      else []

def isOperator (c : Char) : Bool := ['&', '*', ' '].contains c

/-- These operators stand between the groups and the name. -/
def leadOperators (arg : Line) : Line :=
  bare ((dropCasts arg.length (Line.trim arg)).takeWhile isOperator)

/-- The groups are written one after another. -/
def joined (groups : List (Line × Line)) : Line :=
  groups.flatMap fun group => '(' :: (group.1 ++ [')'])

def isCast (casts : Casts) (group : Line × Line) : Bool := casts group.1 group.2

/-- These groups stand from the first one on that is no cast. -/
def keptGroups (casts : Casts) (fuel : Nat) (text : Line) : List (Line × Line) :=
  (leadGroups fuel text).dropWhile (isCast casts)

/-- This is what is dropped from the first group on that is no cast, with the operators behind it. -/
def operandLead (casts : Casts) (arg : Line) : Line :=
  if keptGroups casts arg.length (Line.trim arg) = [] then []
  else joined (keptGroups casts arg.length (Line.trim arg)) ++ leadOperators arg

section Strips

variable {casts : Casts} {text first second last : Line}

theorem Strips.length_lt (strips : Strips casts first second) : second.length < first.length := by
  cases strips with
  | address => exact Nat.lt_succ_self _
  | dereference => exact Nat.lt_succ_self _
  | cast group =>
      obtain ⟨-, rfl⟩ := group
      simp only [List.length_cons, List.length_append]
      omega

theorem strips_length_le (path : ReflTransGen (Strips casts) first last) :
    last.length ≤ first.length := by
  induction path with
  | refl => exact le_rfl
  | tail _ strips ih => exact strips.length_lt.le.trans ih

theorem strips_rightUnique : Relator.RightUnique (Strips casts) := by
  intro text left right one two
  cases one with
  | address =>
      cases two with
      | address => rfl
      | cast group => cases group.2
  | dereference =>
      cases two with
      | dereference => rfl
      | cast group => cases group.2
  | cast group =>
      cases two with
      | address => cases group.2
      | dereference => cases group.2
      | cast other => exact (group.unique (by decide) other).2

theorem exists_stripped (text : Line) :
    ∃ last, Stripped casts last ∧ ReflTransGen (Strips casts) text last := by
  induction size : text.length using Nat.strong_induction_on generalizing text with
  | _ size ih =>
      subst size
      by_cases done : Stripped casts text
      · exact ⟨text, done, .refl⟩
      · unfold Stripped at done
        push Not at done
        obtain ⟨rest, strips⟩ := done
        obtain ⟨last, stripped, path⟩ := ih rest.length strips.length_lt rest rfl
        exact ⟨last, stripped, .head strips path⟩

/-- A stripped text has no further step. -/
theorem eq_of_stripped (stripped : Stripped casts first)
    (path : ReflTransGen (Strips casts) first last) : last = first := by
  rcases path.cases_head with same | ⟨next, strips, -⟩
  · exact same.symm
  · exact absurd strips (stripped next)

theorem stripped_unique {text : Line} (left : ReflTransGen (Strips casts) text first)
    (right : ReflTransGen (Strips casts) text second) (firstStripped : Stripped casts first)
    (secondStripped : Stripped casts second) : first = second := by
  rcases ReflTransGen.total_of_right_unique strips_rightUnique left right with path | path
  · exact (eq_of_stripped firstStripped path).symm
  · exact eq_of_stripped secondStripped path

/-- A stripped text on the way decides the whole way. -/
theorem sameLvalue_iff {firstLast secondLast left right : Line}
    (leftPath : ReflTransGen (Strips casts) (bare left) firstLast)
    (rightPath : ReflTransGen (Strips casts) (bare right) secondLast)
    (leftStripped : Stripped casts firstLast) (rightStripped : Stripped casts secondLast) :
    SameLvalue casts left right ↔ firstLast = secondLast := by
  constructor
  · rintro ⟨last, stripped, one, two⟩
    exact (stripped_unique leftPath one leftStripped stripped).trans
      (stripped_unique two rightPath stripped rightStripped)
  · rintro rfl
    exact ⟨firstLast, leftStripped, leftPath, rightPath⟩

/-- Operators are removed one after another. -/
theorem strips_operators (operators rest : Line) (all : ∀ c ∈ operators, c = '&' ∨ c = '*') :
    ReflTransGen (Strips casts) (operators ++ rest) rest := by
  induction operators with
  | nil => exact .refl
  | cons c others ih =>
      have later := ih fun other member => all other (List.mem_cons_of_mem _ member)
      rcases all c List.mem_cons_self with rfl | rfl
      · exact .head (.address _) later
      · exact .head (.dereference _) later

end Strips

section Groups

variable {text inner tail : Line}

theorem bare_append (left right : Line) : bare (left ++ right) = bare left ++ bare right :=
  List.filter_append ..

theorem bare_of_whitespace (blank : ∀ c ∈ text, Text.isWhitespace c = true) : bare text = [] :=
  List.filter_eq_nil_iff.mpr fun c member => by rw [blank c member]; decide

theorem bare_trimStart (text : Line) : bare (Line.trimStart text) = bare text := by
  conv_rhs => rw [← List.takeWhile_append_dropWhile (p := Text.isWhitespace) (l := text)]
  rw [bare_append, bare_of_whitespace fun c => List.mem_takeWhile_imp, List.nil_append]
  rfl

theorem bare_reverse (text : Line) : bare text.reverse = (bare text).reverse :=
  List.filter_reverse ..

theorem bare_trim (text : Line) : bare (Line.trim text) = bare text := by
  have ends (line : Line) : bare (Line.trimEnd line) = bare line :=
    calc
      bare (Line.trimEnd line) = (bare (Line.trimStart line.reverse)).reverse := bare_reverse _
      _ = bare line := by rw [bare_trimStart, bare_reverse, List.reverse_reverse]
  exact (ends _).trans (bare_trimStart text)

def EndsInText (text : Line) : Prop := ∀ c, text.getLast? = some c → Text.isWhitespace c = false

theorem endsInText_trim (text : Line) : EndsInText (Line.trim text) := by
  intro c last
  have first := List.head?_dropWhile_not Text.isWhitespace (Line.trimStart text).reverse
  unfold Line.trim Line.trimEnd at last
  rw [List.getLast?_reverse] at last
  rw [last] at first
  exact first

theorem bare_ne_nil (ends : EndsInText text) (nonempty : text ≠ []) : bare text ≠ [] := by
  intro empty
  have last := List.getLast?_eq_some_getLast nonempty
  have kept := List.filter_eq_nil_iff.mp empty (text.getLast nonempty) (List.getLast_mem nonempty)
  rw [ends _ last] at kept
  exact kept rfl

theorem Balanced.bare (balanced : Balanced '(' ')' inner) :
    Balanced '(' ')' (Concurrency.bare inner) := by
  induction balanced with
  | empty => exact .empty
  | @plain c rest opens closes _ ih =>
      unfold Concurrency.bare
      rw [List.filter_cons]
      split_ifs
      · exact .plain opens closes ih
      · exact ih
  | @group first rest _ _ inside outside =>
      have parts : Concurrency.bare ('(' :: (first ++ ')' :: rest)) =
          '(' :: (Concurrency.bare first ++ ')' :: Concurrency.bare rest) := by
        rw [← List.singleton_append, bare_append, bare_append, ← List.singleton_append (l := rest),
          bare_append]
        rfl
      rw [parts]
      exact .group inside outside

/-- A group stays a group without white space. -/
theorem bare_encloses (group : Encloses '(' ')' text inner tail) :
    Encloses '(' ')' (bare text) (bare inner) (bare tail) := by
  obtain ⟨balanced, rfl⟩ := group
  refine ⟨Balanced.bare balanced, ?_⟩
  rw [← List.singleton_append, bare_append, bare_append, ← List.singleton_append (l := tail),
    bare_append]
  rfl

/-- Either nothing is dropped or a group with text behind it. -/
theorem leadGroups_cases (fuel : Nat) (text : Line) :
    (dropCasts fuel text = text ∧ leadGroups fuel text = []) ∨
      ∃ less inner tail, fuel = less + 1 ∧ Encloses '(' ')' text inner tail ∧ tail ≠ [] ∧
        dropCasts fuel text = dropCasts less (Line.trim tail) ∧
        leadGroups fuel text = (bare inner, bare tail) :: leadGroups less (Line.trim tail) := by
  cases fuel with
  | zero => exact .inl ⟨rfl, rfl⟩
  | succ less =>
      rw [dropCasts, leadGroups]
      by_cases opens : Line.startsWith text "(" = true
      · cases found : Line.matching text 0 with
        | none => exact .inl (by simp only [if_pos opens, and_self])
        | some closing =>
            by_cases short : text.length ≤ closing + 1
            · exact .inl (by simp only [if_pos opens, if_pos short, and_self])
            · obtain ⟨rest, rfl⟩ : ∃ rest, text = '(' :: rest := by
                obtain ⟨rest, same⟩ := List.isPrefixOf_iff_prefix.mp opens
                exact ⟨rest, same.symm⟩
              obtain ⟨inner, tail, group, rfl⟩ :=
                (closingFrom_eq_some_iff (by decide) 0 closing rest).mp found
              obtain ⟨balanced, same⟩ := group
              obtain rfl := (List.cons.inj same).2
              have behind : ('(' :: (inner ++ ')' :: tail)).drop (0 + inner.length + 1 + 1) =
                  tail := by
                rw [List.drop_succ_cons, List.drop_append, List.drop_eq_nil_of_le (by omega)]
                simp
              have within : Line.slice ('(' :: (inner ++ ')' :: tail)) 1
                  (0 + inner.length + 1) = inner := by
                rw [Line.slice, List.take_succ_cons, List.drop_succ_cons, List.drop_zero]
                simp
              refine .inr ⟨less, inner, tail, rfl, ⟨balanced, rfl⟩, ?_, ?_, ?_⟩
              · rintro rfl
                simp at short
              · simp only [if_pos opens, if_neg short, behind]
              · simp only [if_pos opens, if_neg short, behind, within]
      · exact .inl (by simp only [if_neg opens, and_self])

theorem EndsInText.behind (group : Encloses '(' ')' text inner tail)
    (ends : EndsInText text) : EndsInText tail := by
  obtain ⟨-, rfl⟩ := group
  intro c last
  apply ends c
  rw [List.getLast?_cons, List.getLast?_append, List.getLast?_cons, last]
  simp

/-- Without white space, a text is its groups and what stays of it. -/
theorem bare_eq_groups (fuel : Nat) (text : Line) :
    bare text = joined (leadGroups fuel text) ++ bare (dropCasts fuel text) := by
  induction fuel generalizing text with
  | zero => rfl
  | succ fuel ih =>
      rcases leadGroups_cases (fuel + 1) text with
        ⟨same, none⟩ | ⟨less, inner, tail, count, group, -, dropped, groups⟩
      · rw [same, none]
        rfl
      · obtain rfl := Nat.succ.inj count
        rw [dropped, groups, joined, List.flatMap_cons, List.append_assoc, ← joined, ← ih,
          bare_trim, (bare_encloses group).2]
        simp

variable {casts : Casts}

theorem stripped_of_group (group : Encloses '(' ')' text inner tail)
    (operand : casts inner tail = false) : Stripped casts text := by
  intro rest strips
  cases strips with
  | address => cases group.2
  | dereference => cases group.2
  | cast other _ type =>
      obtain ⟨rfl, rfl⟩ := group.unique (by decide) other
      rw [operand] at type
      cases type

/-- The casts in front are removed, and a group that is no cast ends the removing. -/
theorem strips_leadGroups (fuel : Nat) (text : Line) (ends : EndsInText text) :
    ReflTransGen (Strips casts) (bare text)
        (joined (keptGroups casts fuel text) ++ bare (dropCasts fuel text)) ∧
      (keptGroups casts fuel text ≠ [] →
        Stripped casts (joined (keptGroups casts fuel text) ++ bare (dropCasts fuel text))) := by
  induction fuel generalizing text with
  | zero => exact ⟨.refl, fun kept => absurd rfl kept⟩
  | succ fuel ih =>
      rcases leadGroups_cases (fuel + 1) text with
        ⟨same, none⟩ | ⟨less, inner, tail, count, group, nonempty, dropped, groups⟩
      · unfold keptGroups
        rw [same, none]
        exact ⟨.refl, fun kept => absurd rfl kept⟩
      · obtain rfl := Nat.succ.inj count
        by_cases type : isCast casts (bare inner, bare tail) = true
        · have kept : keptGroups casts (fuel + 1) text = keptGroups casts fuel (Line.trim tail) := by
            rw [keptGroups, groups, List.dropWhile_cons_of_pos type]
            rfl
          obtain ⟨path, stops⟩ := ih (Line.trim tail) (endsInText_trim tail)
          rw [bare_trim] at path
          rw [dropped, kept]
          have operand := bare_ne_nil (EndsInText.behind group ends) nonempty
          exact ⟨.head (.cast (bare_encloses group) operand type) path, stops⟩
        · have kept : keptGroups casts (fuel + 1) text = leadGroups (fuel + 1) text := by
            rw [keptGroups, groups, List.dropWhile_cons_of_neg type]
          rw [kept, ← bare_eq_groups]
          exact ⟨.refl, fun _ => stripped_of_group (bare_encloses group)
            (Bool.eq_false_iff.mpr type)⟩

end Groups

section Names

variable {casts : Casts}

theorem lockExpression_toList (arg : Line) : (lockExpression arg).toList =
    bare ((dropCasts arg.length (Line.trim arg)).dropWhile isOperator) := by
  unfold lockExpression
  rw [String.toList_ofList]
  rfl

/-- What stays behind the groups is the operators and the name. -/
theorem bare_dropCasts (arg : Line) : bare (dropCasts arg.length (Line.trim arg)) =
    leadOperators arg ++ (lockExpression arg).toList := by
  rw [lockExpression_toList, leadOperators, ← bare_append, List.takeWhile_append_dropWhile]

theorem mem_leadOperators {arg : Line} {c : Char} (member : c ∈ leadOperators arg) :
    c = '&' ∨ c = '*' := by
  obtain ⟨inside, visible⟩ := List.mem_filter.mp member
  have operator := List.mem_takeWhile_imp inside
  have one : c = '&' ∨ c = '*' ∨ c = ' ' := by simpa [isOperator] using operator
  rcases one with rfl | rfl | rfl
  · exact .inl rfl
  · exact .inr rfl
  · exact absurd visible (by decide)

/-- An argument leads to its name, with what is dropped from the first operand on before it. -/
theorem strips_lockExpression (arg : Line) :
    ReflTransGen (Strips casts) (bare arg) (operandLead casts arg ++ (lockExpression arg).toList) ∧
      (operandLead casts arg ≠ [] →
        Stripped casts (operandLead casts arg ++ (lockExpression arg).toList)) := by
  obtain ⟨path, stops⟩ :=
    @strips_leadGroups casts arg.length (Line.trim arg) (endsInText_trim arg)
  rw [bare_trim, bare_dropCasts, ← List.append_assoc] at path
  rw [bare_dropCasts, ← List.append_assoc] at stops
  unfold operandLead
  split_ifs with none
  · rw [none] at path
    exact ⟨path.trans (strips_operators _ _ fun c => mem_leadOperators),
      fun nonempty => absurd rfl nonempty⟩
  · exact ⟨path, fun _ => stops none⟩

/-- A text with something before it leads to no less than the text. -/
theorem operandLead_ne_of_empty {name last : Line} {lead : Line} (nonempty : lead ≠ [])
    (path : ReflTransGen (Strips casts) name last) : last ≠ lead ++ name := by
  rintro rfl
  have shorter := strips_length_le path
  rw [List.length_append] at shorter
  exact nonempty (List.eq_nil_of_length_eq_zero (by omega))

/-- Two arguments of one name are one lvalue where the same text is dropped from both. -/
theorem sameLvalue_iff_operandLead (casts : Casts) (first second : Line)
    (sameName : lockExpression first = lockExpression second) :
    SameLvalue casts first second ↔ operandLead casts first = operandLead casts second := by
  obtain ⟨leftPath, leftStops⟩ := @strips_lockExpression casts first
  obtain ⟨rightPath, rightStops⟩ := @strips_lockExpression casts second
  rw [← sameName] at rightPath rightStops
  obtain ⟨last, stripped, rest⟩ := @exists_stripped casts (lockExpression first).toList
  by_cases left : operandLead casts first = [] <;> by_cases right : operandLead casts second = []
  · rw [left] at leftPath
    rw [right] at rightPath
    rw [left, right]
    exact iff_of_true ⟨last, stripped, leftPath.trans rest, rightPath.trans rest⟩ rfl
  · rw [left] at leftPath ⊢
    rw [sameLvalue_iff (leftPath.trans rest) rightPath stripped (rightStops right)]
    exact iff_of_false (operandLead_ne_of_empty right rest) (Ne.symm right)
  · rw [right] at rightPath ⊢
    rw [sameLvalue_iff leftPath (rightPath.trans rest) (leftStops left) stripped]
    exact iff_of_false (operandLead_ne_of_empty left rest).symm left
  · rw [sameLvalue_iff leftPath rightPath (leftStops left) (rightStops right)]
    exact List.append_left_inj _

/-- A pointer type in brackets before the start of an operand is a cast. -/
def pointerCasts : Casts := fun inner tail =>
  Line.endsWith inner "*" && tail.head?.any fun c => isHead c || ['(', '&', '*'].contains c

/-- A cast and an address operator in front do not change the lvalue. -/
theorem sameLvalue_cast :
    SameLvalue pointerCasts "(pthread_mutex_t *)&m".toList "& m".toList :=
  (sameLvalue_iff_operandLead pointerCasts _ _ (by decide)).mpr (by decide)

/-- Members of two pointers in brackets share one name. -/
theorem not_sameLvalue_of_lockExpression : ¬ ∃ casts : Casts,
    casts ['p'] "->m".toList = false ∧ casts ['q'] "->m".toList = false ∧
    ∀ first second, lockExpression first = lockExpression second →
      SameLvalue casts first second := by
  rintro ⟨casts, left, right, always⟩
  have letter {c : Char} (opens : c ≠ '(') (closes : c ≠ ')') : Balanced '(' ')' [c] :=
    .plain opens closes .empty
  have leftStripped : Stripped casts "(p)->m".toList :=
    stripped_of_group ⟨letter (by decide) (by decide), rfl⟩ left
  have rightStripped : Stripped casts "(q)->m".toList :=
    stripped_of_group ⟨letter (by decide) (by decide), rfl⟩ right
  have same := always "(p)->m".toList "(q)->m".toList (by decide)
  exact absurd ((sameLvalue_iff .refl .refl leftStripped rightStripped).mp same) (by decide)

end Names

end FramaCMcp.Concurrency
