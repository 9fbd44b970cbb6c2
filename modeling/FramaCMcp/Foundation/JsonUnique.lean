/-
This file shows that the compact text of a JSON value determines the value.
-/

import Mathlib.Data.List.Basic
import FramaCMcp.Foundation.Json

namespace Json

def isNumberLetter (letter : Char) : Bool :=
  letter.isDigit || letter == '-' || letter == '+' || letter == '.' || letter == 'e'

/-- A float is written with a point or an exponent. -/
def isFloatText (text : String) : Bool :=
  text.toList.all isNumberLetter && text.toList.any fun letter => letter == '.' || letter == 'e'

mutual

/-- The floats of the value are written as floats. -/
def isSpelled : Json → Bool
  | .float text => isFloatText text
  | .arr items => itemsSpelled items
  | .obj fields => fieldsSpelled fields
  | _ => true

def itemsSpelled : List Json → Bool
  | [] => true
  | item :: rest => isSpelled item && itemsSpelled rest

def fieldsSpelled : List (String × Json) → Bool
  | [] => true
  | (_, value) :: rest => isSpelled value && fieldsSpelled rest

end

/-- No number goes on here. -/
def Ends (rest : List Char) : Prop := ∀ letter ∈ rest.head?, isNumberLetter letter = false

/-- The first letter tells the kinds of values apart. -/
inductive Kind where
  | null | bool | number | text | array | object
  deriving DecidableEq

def kind : Json → Kind
  | .null => .null
  | .bool _ => .bool
  | .num _ => .number
  | .float _ => .number
  | .str _ => .text
  | .arr _ => .array
  | .obj _ => .object

def kindOfLetter (letter : Char) : Option Kind :=
  if letter = 'n' then some .null
  else if letter = 't' ∨ letter = 'f' then some .bool
  else if letter = '\"' then some .text
  else if letter = '[' then some .array
  else if letter = '\x7b' then some .object
  else if isNumberLetter letter then some .number
  else none

theorem numberLetter_of_digit {letter : Char} (digit : letter.isDigit = true) :
    isNumberLetter letter = true := by simp [isNumberLetter, digit]

theorem nat_repr_inj {left right : Nat} (same : left.repr = right.repr) : left = right := by
  have texts := congrArg String.toList same
  rw [Nat.toList_repr, Nat.toList_repr] at texts
  have values := congrArg (Nat.ofDigitChars 10 · 0) texts
  simpa only [Nat.ofDigitChars_ten_toDigits] using values

theorem digits_of_nat (number : Nat) : ∀ letter ∈ number.repr.toList, letter.isDigit = true := by
  intro letter member
  rw [Nat.toList_repr] at member
  exact Nat.isDigit_of_mem_toDigits (by decide) (by decide) member

theorem toList_negSucc (number : Nat) :
    (toString (Int.negSucc number)).toList = '-' :: (number + 1).repr.toList := by
  show ("-" ++ (number + 1).repr).toList = _
  simp

theorem repr_inj {left right : Int} (same : (toString left).toList = (toString right).toList) :
    left = right := by
  have apart (number other : Nat) :
      (toString (Int.ofNat number)).toList ≠ (toString (Int.negSucc other)).toList := by
    intro same
    have sign : '-' ∈ number.repr.toList := by
      rw [show number.repr.toList = _ from same, toList_negSucc]
      exact List.mem_cons_self
    exact absurd (digits_of_nat number '-' sign) (by decide)
  cases left with
  | ofNat number =>
      cases right with
      | ofNat other => exact congrArg Int.ofNat (nat_repr_inj (String.toList_injective same))
      | negSucc other => exact absurd same (apart number other)
  | negSucc number =>
      cases right with
      | ofNat other => exact absurd same.symm (apart other number)
      | negSucc other =>
          rw [toList_negSucc, toList_negSucc, List.cons.injEq] at same
          have next := nat_repr_inj (String.toList_injective same.2)
          rw [Nat.succ.inj next]

/-- An integer is written with digits after at most one sign. -/
theorem mem_toString {value : Int} {letter : Char} (member : letter ∈ (toString value).toList) :
    letter.isDigit = true ∨ letter = '-' := by
  cases value with
  | ofNat number => exact .inl (digits_of_nat number letter member)
  | negSucc number =>
      rw [toList_negSucc, List.mem_cons] at member
      rcases member with rfl | digit
      · exact .inr rfl
      · exact .inl (digits_of_nat _ letter digit)

theorem toString_ne_nil (value : Int) : (toString value).toList ≠ [] := by
  cases value with
  | ofNat number =>
      show number.repr.toList ≠ []
      rw [Nat.toList_repr]
      exact Nat.toDigits_ne_nil
  | negSucc number =>
      rw [toList_negSucc]
      exact List.cons_ne_nil _ _

/-- These are the letters of a number. -/
structure IsNumber (text : List Char) : Prop where
  nonempty : text ≠ []
  letters : ∀ letter ∈ text, isNumberLetter letter = true

theorem isNumber_num (value : Int) : IsNumber (letters (.num value)) where
  nonempty := toString_ne_nil value
  letters := by
    intro letter member
    rcases mem_toString member with digit | rfl
    · exact numberLetter_of_digit digit
    · rfl

theorem isNumber_float {text : String} (spelled : isFloatText text = true) :
    IsNumber (letters (.float text)) := by
  obtain ⟨all, some⟩ := Bool.and_eq_true_iff.mp spelled
  obtain ⟨letter, member, -⟩ := List.any_eq_true.mp some
  exact ⟨List.ne_nil_of_mem member, List.all_eq_true.mp all⟩

/-- A number ends where no letter of a number follows. -/
theorem IsNumber.append_inj {left right first second : List Char} (number : IsNumber left)
    (other : IsNumber right) (ends : Ends first) (stops : Ends second)
    (same : left ++ first = right ++ second) : left = right ∧ first = second := by
  have taken {text rest : List Char} (number : IsNumber text) (ends : Ends rest) :
      (text ++ rest).takeWhile isNumberLetter = text := by
    rw [List.takeWhile_append_of_pos number.letters]
    cases rest with
    | nil => simp
    | cons head tail =>
        have stop := ends head rfl
        simp [stop]
  have equal : left = right := by rw [← taken number ends, same, taken other stops]
  exact ⟨equal, List.append_cancel_left (equal ▸ same)⟩

theorem num_ne_float {value : Int} {text : String} (spelled : isFloatText text = true) :
    letters (.num value) ≠ letters (.float text) := by
  intro same
  obtain ⟨-, some⟩ := Bool.and_eq_true_iff.mp spelled
  obtain ⟨letter, member, mark⟩ := List.any_eq_true.mp some
  have inside : letter ∈ (toString value).toList := by
    rw [show (toString value).toList = text.toList from same]
    exact member
  rcases mem_toString inside with digit | rfl
  · rcases Bool.or_eq_true_iff.mp mark with point | exponent
    · rw [beq_iff_eq.mp point] at digit
      cases digit
    · rw [beq_iff_eq.mp exponent] at digit
      cases digit
  · cases mark

theorem kindOfLetter_number {letter : Char} (number : isNumberLetter letter = true) :
    kindOfLetter letter = some .number := by
  unfold kindOfLetter
  split_ifs with null bool text array object
  · subst null
    cases number
  · rcases bool with rfl | rfl <;> cases number
  · subst text
    cases number
  · subst array
    cases number
  · subst object
    cases number
  · rfl

/-- The first letter of a value tells its kind. -/
theorem exists_lead {value : Json} (spelled : value.isSpelled = true) :
    ∃ letter rest, letters value = letter :: rest ∧ kindOfLetter letter = some value.kind := by
  have number {text : List Char} (digits : IsNumber text) :
      ∃ letter rest, text = letter :: rest ∧ kindOfLetter letter = some .number := by
    obtain ⟨letter, rest, rfl⟩ := List.exists_cons_of_ne_nil digits.nonempty
    exact ⟨letter, rest, rfl, kindOfLetter_number (digits.letters letter (List.mem_cons_self ..))⟩
  cases value with
  | null => exact ⟨_, _, rfl, rfl⟩
  | bool flag => cases flag <;> exact ⟨_, _, rfl, rfl⟩
  | num value => exact number (isNumber_num value)
  | float text => exact number (isNumber_float spelled)
  | str text => exact ⟨_, _, rfl, rfl⟩
  | arr items => exact ⟨_, _, rfl, rfl⟩
  | obj fields => exact ⟨_, _, rfl, rfl⟩

variable {first second : List Char}

theorem kind_eq {left right : Json} (spelled : left.isSpelled = true)
    (other : right.isSpelled = true) (same : letters left ++ first = letters right ++ second) :
    left.kind = right.kind := by
  obtain ⟨letter, rest, written, own⟩ := exists_lead spelled
  obtain ⟨head, tail, text, lead⟩ := exists_lead other
  rw [written, text, List.cons_append, List.cons_append, List.cons.injEq] at same
  rw [same.1, lead] at own
  exact (Option.some.inj own).symm

def digitValue (letter : Char) : Nat :=
  if letter.toNat < 58 then letter.toNat - 48 else letter.toNat - 87

/-- The letter after the backslash tells which letter is meant. -/
def unescapeRest : List Char → Option (Char × List Char)
  | 'u' :: '0' :: '0' :: high :: low :: rest =>
      some (Char.ofNat (16 * digitValue high + digitValue low), rest)
  | 'n' :: rest => some ('\n', rest)
  | 'r' :: rest => some ('\r', rest)
  | 't' :: rest => some ('\t', rest)
  | 'b' :: rest => some (Char.ofNat 8, rest)
  | 'f' :: rest => some (Char.ofNat 12, rest)
  | letter :: rest => some (letter, rest)
  | [] => none

/-- This reader undoes the escape of one letter. -/
def unescape : List Char → Option (Char × List Char)
  | [] => none
  | letter :: rest => if letter = '\\' then unescapeRest rest else some (letter, rest)

theorem digitValue_hexDigit {digit : Nat} (small : digit < 16) :
    digitValue (hexDigit digit) = digit := by
  revert digit
  decide

theorem unescape_escapeLetter (letter : Char) (rest : List Char) :
    unescape (escapeLetter letter ++ rest) = some (letter, rest) := by
  unfold escapeLetter
  split_ifs with mark backslash line carriage tab back form control
  · rw [mark]
    rfl
  · rw [backslash]
    rfl
  · rw [line]
    rfl
  · rw [carriage]
    rfl
  · rw [tab]
    rfl
  · rw [← Char.ofNat_toNat letter, back]
    rfl
  · rw [← Char.ofNat_toNat letter, form]
    rfl
  · have high : digitValue (hexDigit (letter.toNat / 16)) = letter.toNat / 16 :=
      digitValue_hexDigit (by omega)
    have low : digitValue (hexDigit (letter.toNat % 16)) = letter.toNat % 16 :=
      digitValue_hexDigit (Nat.mod_lt _ (by decide))
    show some (Char.ofNat (16 * digitValue (hexDigit (letter.toNat / 16)) +
      digitValue (hexDigit (letter.toNat % 16))), rest) = _
    rw [high, low, Nat.div_add_mod, Char.ofNat_toNat]
  · show (if letter = '\\' then unescapeRest rest else some (letter, rest)) = _
    rw [if_neg backslash]

theorem escapeLetter_append_inj {left right : Char}
    (same : escapeLetter left ++ first = escapeLetter right ++ second) :
    left = right ∧ first = second := by
  have read := congrArg unescape same
  rw [unescape_escapeLetter, unescape_escapeLetter, Option.some.injEq] at read
  exact Prod.ext_iff.mp read

/-- No escaped letter starts with the mark that ends a text. -/
theorem escapeLetter_ne (letter : Char) (first second : List Char) :
    '\"' :: first ≠ escapeLetter letter ++ second := by
  unfold escapeLetter
  split_ifs with mark
  all_goals
    intro same
    have heads := (List.cons.inj same).1
  case neg => exact mark heads.symm
  all_goals exact absurd heads (by decide)

theorem escaped_append_inj {left right first second : List Char}
    (same : left.flatMap escapeLetter ++ '\"' :: first =
      right.flatMap escapeLetter ++ '\"' :: second) : left = right ∧ first = second := by
  induction left generalizing right with
  | nil =>
      cases right with
      | nil => exact ⟨rfl, (List.cons.inj same).2⟩
      | cons letter rest =>
          rw [List.flatMap_cons, List.append_assoc] at same
          exact absurd same (escapeLetter_ne letter _ _)
  | cons letter rest ih =>
      cases right with
      | nil =>
          rw [List.flatMap_cons, List.append_assoc] at same
          exact absurd same.symm (escapeLetter_ne letter _ _)
      | cons other others =>
          rw [List.flatMap_cons, List.flatMap_cons, List.append_assoc, List.append_assoc] at same
          obtain ⟨rfl, later⟩ := escapeLetter_append_inj same
          obtain ⟨rfl, tails⟩ := ih later
          exact ⟨rfl, tails⟩

theorem quote_append_inj {left right : String} (same : quote left ++ first = quote right ++ second) :
    left = right ∧ first = second := by
  simp only [quote, List.append_assoc, List.singleton_append] at same
  obtain ⟨texts, rests⟩ := escaped_append_inj (List.cons.inj same).2
  exact ⟨String.toList_injective texts, rests⟩

theorem ends_of_kind {letter : Char} {rest : List Char} (stop : isNumberLetter letter = false) :
    Ends (letter :: rest) := by
  intro head found
  rw [← Option.some.inj found]
  exact stop

theorem ends_moreItems (items : List Json) (rest : List Char) :
    Ends (moreItemLetters items ++ ']' :: rest) := by
  cases items <;> exact ends_of_kind (by decide)

theorem ends_moreFields (fields : List (String × Json)) (rest : List Char) :
    Ends (moreFieldLetters fields ++ '\x7d' :: rest) := by
  cases fields <;> exact ends_of_kind (by decide)

/-- A value does not start like the end of a list. -/
theorem letters_ne {value : Json} (spelled : value.isSpelled = true) {letter : Char}
    (stop : kindOfLetter letter = none) (first second : List Char) :
    letter :: first ≠ letters value ++ second := by
  intro same
  obtain ⟨head, rest, written, own⟩ := exists_lead spelled
  rw [written, List.cons_append, List.cons.injEq] at same
  rw [← same.1, stop] at own
  cases own

/-- Two numbers with one text are one value. -/
theorem number_append_inj {left right : Json} (number : left.kind = .number)
    (other : right.kind = .number) (spelled : left.isSpelled = true)
    (written : right.isSpelled = true) (ends : Ends first) (stops : Ends second)
    (same : letters left ++ first = letters right ++ second) : left = right ∧ first = second := by
  have digits {value : Json} (number : value.kind = .number) (spelled : value.isSpelled = true) :
      IsNumber (letters value) := by
    cases value with
    | num value => exact isNumber_num value
    | float text => exact isNumber_float spelled
    | _ => cases number
  obtain ⟨texts, rests⟩ :=
    (digits number spelled).append_inj (digits other written) ends stops same
  refine ⟨?_, rests⟩
  cases left with
  | num value =>
      cases right with
      | num next => rw [repr_inj texts]
      | float text => exact absurd texts (num_ne_float written)
      | _ => cases other
  | float text =>
      cases right with
      | num next => exact absurd texts.symm (num_ne_float spelled)
      | float next => rw [String.toList_injective texts]
      | _ => cases other
  | _ => cases number

/-- Equal texts of two lists stay equal behind a comma. -/
theorem moreItems_of_items {left right : List Json} {first second : List Char}
    (spelled : itemsSpelled left = true) (other : itemsSpelled right = true)
    (same : itemLetters left ++ ']' :: first = itemLetters right ++ ']' :: second) :
    moreItemLetters left ++ ']' :: first = moreItemLetters right ++ ']' :: second := by
  cases left with
  | nil =>
      cases right with
      | nil => exact same
      | cons item rest =>
          rw [itemLetters, itemLetters, List.append_assoc] at same
          exact absurd same (letters_ne (Bool.and_eq_true_iff.mp other).1 (by decide) _ _)
  | cons item rest =>
      cases right with
      | nil =>
          rw [itemLetters, itemLetters, List.append_assoc] at same
          exact absurd same.symm (letters_ne (Bool.and_eq_true_iff.mp spelled).1 (by decide) _ _)
      | cons next others => exact congrArg (List.cons ',') same

theorem moreFields_of_fields {left right : List (String × Json)}
    (same : fieldLetters left ++ '\x7d' :: first = fieldLetters right ++ '\x7d' :: second) :
    moreFieldLetters left ++ '\x7d' :: first = moreFieldLetters right ++ '\x7d' :: second := by
  cases left with
  | nil =>
      cases right with
      | nil => exact same
      | cons entry rest => exact absurd (List.cons.inj same).1 (by decide)
  | cons entry rest =>
      cases right with
      | nil => exact absurd (List.cons.inj same).1 (by decide)
      | cons pair others => exact congrArg (List.cons ',') same

mutual

/-- The text of a value determines the value and where its text ends. -/
theorem letters_append_inj (left right : Json) {first second : List Char}
    (spelled : left.isSpelled = true) (other : right.isSpelled = true) (ends : Ends first)
    (stops : Ends second) (same : letters left ++ first = letters right ++ second) :
    left = right ∧ first = second := by
  have kinds := kind_eq spelled other same
  cases left with
  | null =>
      cases right with
      | null => exact ⟨rfl, List.append_cancel_left same⟩
      | _ => cases kinds
  | bool flag =>
      cases right with
      | bool mark =>
          cases flag <;> cases mark
          · exact ⟨rfl, List.append_cancel_left same⟩
          · cases (List.cons.inj same).1
          · cases (List.cons.inj same).1
          · exact ⟨rfl, List.append_cancel_left same⟩
      | _ => cases kinds
  | num value => exact number_append_inj rfl kinds.symm spelled other ends stops same
  | float text => exact number_append_inj rfl kinds.symm spelled other ends stops same
  | str text =>
      cases right with
      | str next =>
          obtain ⟨rfl, rests⟩ := quote_append_inj same
          exact ⟨rfl, rests⟩
      | _ => cases kinds
  | arr items =>
      cases right with
      | arr others =>
          simp only [letters, List.append_assoc, List.singleton_append] at same
          obtain ⟨rfl, rests⟩ := moreItems_append_inj items others spelled other
            (moreItems_of_items spelled other (List.cons.inj same).2)
          exact ⟨rfl, rests⟩
      | _ => cases kinds
  | obj fields =>
      cases right with
      | obj others =>
          simp only [letters, List.append_assoc, List.singleton_append] at same
          obtain ⟨rfl, rests⟩ := moreFields_append_inj fields others spelled other
            (moreFields_of_fields (List.cons.inj same).2)
          exact ⟨rfl, rests⟩
      | _ => cases kinds
termination_by structural left

theorem moreItems_append_inj (left right : List Json) {first second : List Char}
    (spelled : itemsSpelled left = true) (other : itemsSpelled right = true)
    (same : moreItemLetters left ++ ']' :: first = moreItemLetters right ++ ']' :: second) :
    left = right ∧ first = second := by
  cases left with
  | nil =>
      cases right with
      | nil => exact ⟨rfl, (List.cons.inj same).2⟩
      | cons item rest => exact absurd (List.cons.inj same).1 (by decide)
  | cons item rest =>
      cases right with
      | nil => exact absurd (List.cons.inj same).1 (by decide)
      | cons next others =>
          obtain ⟨head, tail⟩ := Bool.and_eq_true_iff.mp spelled
          obtain ⟨lead, later⟩ := Bool.and_eq_true_iff.mp other
          simp only [moreItemLetters, List.append_assoc, List.singleton_append] at same
          obtain ⟨rfl, rests⟩ := letters_append_inj item next head lead (ends_moreItems _ _)
            (ends_moreItems _ _) (List.cons.inj same).2
          obtain ⟨rfl, tails⟩ := moreItems_append_inj rest others tail later rests
          exact ⟨rfl, tails⟩
termination_by structural left

theorem moreFields_append_inj (left right : List (String × Json)) {first second : List Char}
    (spelled : fieldsSpelled left = true) (other : fieldsSpelled right = true)
    (same : moreFieldLetters left ++ '\x7d' :: first =
      moreFieldLetters right ++ '\x7d' :: second) : left = right ∧ first = second := by
  cases left with
  | nil =>
      cases right with
      | nil => exact ⟨rfl, (List.cons.inj same).2⟩
      | cons entry rest => exact absurd (List.cons.inj same).1 (by decide)
  | cons entry rest =>
      rcases entry with ⟨key, value⟩
      cases right with
      | nil => exact absurd (List.cons.inj same).1 (by decide)
      | cons pair others =>
          rcases pair with ⟨name, found⟩
          obtain ⟨head, tail⟩ := Bool.and_eq_true_iff.mp spelled
          obtain ⟨lead, later⟩ := Bool.and_eq_true_iff.mp other
          simp only [moreFieldLetters, List.append_assoc, List.singleton_append] at same
          obtain ⟨rfl, named⟩ := quote_append_inj (List.cons.inj same).2
          obtain ⟨rfl, rests⟩ := letters_append_inj value found head lead (ends_moreFields _ _)
            (ends_moreFields _ _) (List.cons.inj named).2
          obtain ⟨rfl, tails⟩ := moreFields_append_inj rest others tail later rests
          exact ⟨rfl, tails⟩
termination_by structural left

end

/-- Two values with one text are equal. -/
theorem render_inj {left right : Json} (spelled : left.isSpelled = true)
    (other : right.isSpelled = true) (same : left.render = right.render) : left = right := by
  have written : letters left ++ [] = letters right ++ [] := by
    rw [List.append_nil, List.append_nil, String.ofList_injective same]
  exact (letters_append_inj left right spelled other (by simp [Ends]) (by simp [Ends]) written).1

end Json
