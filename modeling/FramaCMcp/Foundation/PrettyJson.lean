/-
This file gives the indented text of a JSON value and how its size depends on one number.
-/

import Mathlib.Order.Monotone.Basic
import FramaCMcp.Foundation.JsonUnique

namespace Json

/-- Two blanks stand for each level. -/
def newLine (level : Nat) : List Char := '\n' :: List.replicate (2 * level) ' '

mutual

def prettyLetters (level : Nat) : Json → List Char
  | .arr [] => ['[', ']']
  | .arr (item :: rest) =>
      ['['] ++ prettyItems (level + 1) (item :: rest) ++ newLine level ++ [']']
  | .obj [] => ['\x7b', '\x7d']
  | .obj (field :: rest) =>
      ['\x7b'] ++ prettyFields (level + 1) (field :: rest) ++ newLine level ++ ['\x7d']
  | plain => letters plain

def prettyItems (level : Nat) : List Json → List Char
  | [] => []
  | item :: rest => newLine level ++ prettyLetters level item ++ prettyMoreItems level rest

def prettyMoreItems (level : Nat) : List Json → List Char
  | [] => []
  | item :: rest => [','] ++ newLine level ++ prettyLetters level item ++ prettyMoreItems level rest

def prettyFields (level : Nat) : List (String × Json) → List Char
  | [] => []
  | (key, value) :: rest =>
      newLine level ++ quote key ++ [':', ' '] ++ prettyLetters level value ++
        prettyMoreFields level rest

def prettyMoreFields (level : Nat) : List (String × Json) → List Char
  | [] => []
  | (key, value) :: rest =>
      [','] ++ newLine level ++ quote key ++ [':', ' '] ++ prettyLetters level value ++
        prettyMoreFields level rest

end

/-- This is the number of bytes of an encoded text. -/
def utf8Size (letters : List Char) : Nat := (letters.map Char.utf8Size).sum

def prettySize (level : Nat) (value : Json) : Nat := utf8Size (prettyLetters level value)

theorem utf8Size_append (first second : List Char) :
    utf8Size (first ++ second) = utf8Size first + utf8Size second := by
  rw [utf8Size, List.map_append, List.sum_append]
  rfl

section Insert

variable {key : String} {old : Json}

theorem size_prettyFields_insertField (level : Nat) (new : Json)
    (fields : List (String × Json)) (found : fields.lookup key = some old) :
    utf8Size (prettyFields level (insertField key new fields)) + prettySize level old =
      utf8Size (prettyFields level fields) + prettySize level new := by
  -- The later fields have one comma more in front.
  have comma : ∀ fields, fields ≠ [] →
      prettyMoreFields level fields = [','] ++ prettyFields level fields
    | [], filled => absurd rfl filled
    | _ :: _, _ => by simp only [prettyMoreFields, prettyFields, List.append_assoc]
  induction fields with
  | nil => cases found
  | cons field rest ih =>
      obtain ⟨name, value⟩ := field
      rw [insertField]
      split_ifs with same
      · subst same
        rw [List.lookup_cons_self] at found
        cases found
        simp only [prettyFields, utf8Size_append, prettySize]
        omega
      · have other : (key == name) = false := beq_false_of_ne (Ne.symm same)
        rw [List.lookup_cons, other] at found
        have filled : rest ≠ [] := by
          rintro rfl
          cases found
        have later : insertField key new rest ≠ [] := by
          cases rest with
          | nil => exact absurd rfl filled
          | cons field rest =>
              rw [insertField]
              split_ifs <;> exact List.cons_ne_nil _ _
        have sizes := ih found
        simp only [prettyFields, comma _ filled, comma _ later, utf8Size_append] at sizes ⊢
        omega

theorem prettySize_obj (level : Nat) {fields : List (String × Json)} (some : fields ≠ []) :
    prettySize level (.obj fields) =
      2 + utf8Size (prettyFields (level + 1) fields) + utf8Size (newLine level) := by
  obtain ⟨field, rest, rfl⟩ := List.exists_cons_of_ne_nil some
  rw [prettySize, prettyLetters, utf8Size_append, utf8Size_append, utf8Size_append]
  have opening : utf8Size ['\x7b'] = 1 := by decide
  have closing : utf8Size ['\x7d'] = 1 := by decide
  omega

theorem insertField_ne_nil (key : String) (new : Json) (fields : List (String × Json)) :
    insertField key new fields ≠ [] := by
  cases fields with
  | nil => exact List.cons_ne_nil _ _
  | cons field rest =>
      rw [insertField]
      split_ifs <;> exact List.cons_ne_nil _ _

/-- An update of a value with some field is read back. -/
theorem get_insert_of_get (key : String) {value : Json} {name : String} (new : Json)
    (found : value.get name = some old) : (value.insert key new).get key = some new := by
  cases value with
  | obj fields => exact get_insert_self fields key new
  | _ => cases found

/-- The later of two updates of one field counts. -/
theorem insert_insert (value : Json) (key : String) (first second : Json) :
    (value.insert key first).insert key second = value.insert key second := by
  have twice (fields : List (String × Json)) :
      insertField key second (insertField key first fields) = insertField key second fields := by
    induction fields with
    | nil => simp only [insertField, if_pos]
    | cons field rest ih =>
        obtain ⟨name, inner⟩ := field
        by_cases same : name = key
        · simp only [insertField, if_pos same]
        · simp only [insertField, if_neg same, ih]
  cases value with
  | obj fields => exact congrArg Json.obj (twice fields)
  | _ => rfl

/-- A replaced field changes the size by the sizes of the two values. -/
theorem prettySize_insert (level : Nat) {value : Json} (new : Json)
    (found : value.get key = some old) :
    prettySize level (value.insert key new) + prettySize (level + 1) old =
      prettySize level value + prettySize (level + 1) new := by
  cases value with
  | obj fields =>
      have some : fields ≠ [] := fun empty => by rw [empty] at found; cases found
      rw [insert, prettySize_obj level (insertField_ne_nil key new fields), prettySize_obj level some]
      have sizes := size_prettyFields_insertField (level + 1) new fields found
      omega
  | _ => cases found

end Insert

theorem prettySize_pos_of_get {level : Nat} {value inner : Json} {key : String}
    (found : value.get key = some inner) : 0 < prettySize level value := by
  cases value with
  | obj fields =>
      have some : fields ≠ [] := fun empty => by rw [empty] at found; cases found
      rw [prettySize_obj level some]
      omega
  | _ => cases found

theorem utf8Size_newLine (level : Nat) : utf8Size (newLine level) = 1 + 2 * level := by
  have blank : Char.utf8Size ' ' = 1 := by decide
  have line : Char.utf8Size '\n' = 1 := by decide
  rw [utf8Size, newLine, List.map_cons, List.sum_cons, List.map_replicate,
    List.sum_replicate_nat, blank, line, Nat.mul_one]

theorem prettySize_replicate (level count : Nat) (item : Json) :
    prettySize level (.arr (List.replicate (count + 1) item)) =
      (2 * level + 4 + prettySize (level + 1) item) * (count + 1) + 2 * level + 2 := by
  have own : utf8Size (prettyLetters (level + 1) item) = prettySize (level + 1) item := rfl
  have more : utf8Size (prettyMoreItems (level + 1) (List.replicate count item)) =
      (2 * level + 4 + prettySize (level + 1) item) * count := by
    have comma : utf8Size [','] = 1 := by decide
    induction count with
    | zero => rfl
    | succ count ih =>
        rw [List.replicate_succ, prettyMoreItems, utf8Size_append, utf8Size_append,
          utf8Size_append, ih, utf8Size_newLine, comma, own, Nat.mul_succ (_ + _)]
        omega
  have opening : utf8Size ['['] = 1 := by decide
  have closing : utf8Size [']'] = 1 := by decide
  rw [List.replicate_succ, prettySize, prettyLetters, prettyItems, utf8Size_append,
    utf8Size_append, utf8Size_append, utf8Size_append, utf8Size_append, more, utf8Size_newLine,
    utf8Size_newLine, opening, closing, own, Nat.mul_succ (_ + _)]
  omega

section Number

theorem utf8Size_of_digits {letters : List Char} (digits : ∀ letter ∈ letters, letter.isDigit = true) :
    utf8Size letters = letters.length := by
  induction letters with
  | nil => rfl
  | cons letter rest ih =>
      obtain ⟨here, later⟩ := List.forall_mem_cons.mp digits
      have small : letter.val ≤ 57 := by
        rw [Char.isDigit, Bool.and_eq_true, decide_eq_true_eq, decide_eq_true_eq] at here
        exact here.2
      have single : letter.utf8Size = 1 := by
        have below : letter.val ≤ (127 : UInt32) := UInt32.le_trans small (by decide)
        exact if_pos below
      rw [utf8Size, List.map_cons, List.sum_cons, single, List.length_cons, Nat.add_comm]
      exact congrArg (· + 1) (ih later)

theorem prettySize_num (level count : Nat) : prettySize level (.num count) = count.repr.length := by
  change utf8Size count.repr.toList = _
  rw [utf8Size_of_digits (digits_of_nat count), String.length_toList]

/-- A larger number has no shorter text. -/
theorem length_repr_mono : Monotone fun count : Nat => count.repr.length := by
  intro small large below
  have positive : 0 < large.repr.length := Nat.length_repr_pos
  rw [Nat.length_repr_le_iff positive]
  exact below.trans_lt ((Nat.length_repr_le_iff positive).mp le_rfl)

/-- The text of a large number is shorter than the number. -/
theorem exists_length_repr_le (offset start : Nat) :
    ∃ bound, start ≤ bound ∧ offset + bound.repr.length ≤ bound := by
  have large : offset + start + 1 < 10 ^ (offset + start + 1) := Nat.lt_pow_self (by decide)
  have power : 10 ^ (offset + start + 2) = 10 * 10 ^ (offset + start + 1) := by
    rw [Nat.pow_succ, Nat.mul_comm]
  have digits : (10 ^ (offset + start + 2) - 1).repr.length ≤ offset + start + 2 := by
    rw [Nat.length_repr_le_iff (Nat.succ_pos _)]
    omega
  exact ⟨10 ^ (offset + start + 2) - 1, by omega, by omega⟩

end Number

end Json
