/-
This file gives the JSON values that a server exchanges, their readers and their compact text, the
equality that ignores the order of fields and the digest of a text.
-/

import Mathlib.Algebra.Order.Ring.Int
import Mathlib.Data.List.Basic

/-- This type is one parsed JSON document. An object keeps its fields in insertion order. -/
inductive Json where
  | null
  | bool (value : Bool)
  | num (value : Int)
  | float (text : String)
  | str (text : String)
  | arr (items : List Json)
  | obj (fields : List (String × Json))
  deriving Repr, Inhabited

namespace Json

/-- This reader gives the field of an object, and nothing for any other value. -/
def get : Json → String → Option Json
  | .obj fields, key => fields.lookup key
  | _, _ => none

/-- This reader gives null where the field is absent. -/
def index (value : Json) (key : String) : Json := (value.get key).getD .null

/-- This reader follows a path of object fields. -/
def pointer (value : Json) : List String → Option Json
  | [] => some value
  | key :: rest => (value.get key).bind fun inner => inner.pointer rest

def asStr : Json → Option String
  | .str text => some text
  | _ => none

def asBool : Json → Option Bool
  | .bool value => some value
  | _ => none

/-- A number of the signed 64-bit range is read. -/
def asI64 : Json → Option Int
  | .num value => if -2 ^ 63 ≤ value ∧ value < 2 ^ 63 then some value else none
  | _ => none

/-- Only an integer of the unsigned 64-bit range is read. -/
def asU64 : Json → Option Nat
  | .num value => if 0 ≤ value ∧ value < 2 ^ 64 then some value.toNat else none
  | _ => none

def asArray : Json → Option (List Json)
  | .arr items => some items
  | _ => none

def asObject : Json → Option (List (String × Json))
  | .obj fields => some fields
  | _ => none

def isNull : Json → Bool
  | .null => true
  | _ => false

def isObject : Json → Bool
  | .obj _ => true
  | _ => false

/-- A string comparison is false on every value that is not a string. -/
def isText (value : Json) (text : String) : Bool := value.asStr == some text

/-- A boolean comparison is false on every value that is not a boolean. -/
def isFlag (value : Json) (flag : Bool) : Bool := value.asBool == some flag

/-- A missing optional text is null. -/
def ofText? : Option String → Json
  | some text => .str text
  | none => .null

/-- A missing optional flag is null. -/
def ofFlag? : Option Bool → Json
  | some flag => .bool flag
  | none => .null

/-- An update keeps the place of a present key and appends a new one. -/
def insertField (key : String) (value : Json) : List (String × Json) → List (String × Json)
  | [] => [(key, value)]
  | (name, old) :: rest =>
      if name = key then (name, value) :: rest
      else (name, old) :: insertField key value rest

/-- An update of a value that is not an object changes nothing. -/
def insert (value : Json) (key : String) (inner : Json) : Json :=
  match value with
  | .obj fields => .obj (insertField key inner fields)
  | other => other

/-- This update fills an absent field and keeps a present one. -/
def insertAbsent (value : Json) (key : String) (inner : Json) : Json :=
  if (value.get key).isSome then value else value.insert key inner

@[simp] theorem get_obj (fields : List (String × Json)) (key : String) :
    (Json.obj fields).get key = fields.lookup key := rfl

@[simp] theorem asStr_str (text : String) : (Json.str text).asStr = some text := rfl

/-- The written text determines the optional text. -/
theorem ofText?_injective : Function.Injective ofText? := by
  intro left right same
  cases left <;> cases right <;> simp_all [ofText?]

/-- The written flag determines the optional flag. -/
theorem ofFlag?_injective : Function.Injective ofFlag? := by
  intro left right same
  cases left <;> cases right <;> simp_all [ofFlag?]

@[simp] theorem asStr_ofText? (text : Option String) : (ofText? text).asStr = text := by
  cases text <;> rfl

theorem lookup_insertField_self (key : String) (value : Json) (fields : List (String × Json)) :
    (insertField key value fields).lookup key = some value := by
  induction fields with
  | nil => simp [insertField]
  | cons entry rest ih =>
      rcases entry with ⟨name, old⟩
      by_cases same : name = key
      · simp [insertField, same]
      · have other : (key == name) = false := by simp [Ne.symm same]
        simp [insertField, same, List.lookup_cons, other, ih]

theorem lookup_insertField_of_ne (key name : String) (value : Json)
    (fields : List (String × Json)) (different : name ≠ key) :
    (insertField key value fields).lookup name = fields.lookup name := by
  have other : (name == key) = false := beq_eq_false_iff_ne.mpr different
  induction fields with
  | nil => simp [insertField, List.lookup_cons, other]
  | cons entry rest ih =>
      rcases entry with ⟨head, old⟩
      by_cases same : head = key
      · simp [insertField, same, List.lookup_cons, other]
      · simp [insertField, same, List.lookup_cons, ih]

/-- A new key is appended. -/
theorem insertField_of_absent (key : String) (value : Json) (fields : List (String × Json))
    (absent : ∀ entry ∈ fields, entry.1 ≠ key) :
    insertField key value fields = fields ++ [(key, value)] := by
  induction fields with
  | nil => rfl
  | cons entry rest ih =>
      rcases entry with ⟨name, old⟩
      obtain ⟨different, others⟩ := List.forall_mem_cons.mp absent
      rw [insertField, if_neg different, ih others, List.cons_append]

/-- An update of an object is read back. -/
theorem get_insert_self (fields : List (String × Json)) (key : String) (inner : Json) :
    ((Json.obj fields).insert key inner).get key = some inner :=
  lookup_insertField_self key inner fields

/-- An update keeps every other field. -/
theorem get_insert_of_ne (value : Json) (key name : String) (inner : Json)
    (different : name ≠ key) : (value.insert key inner).get name = value.get name := by
  cases value with
  | obj fields => exact lookup_insertField_of_ne key name inner fields different
  | _ => rfl

end Json

namespace Json

/-- This is the digit of a hexadecimal number in lower case. -/
def hexDigit (digit : Nat) : Char :=
  if digit < 10 then Char.ofNat (48 + digit) else Char.ofNat (87 + digit)

/-- Only the quotation mark, the backslash and the control characters are escaped. -/
def escapeLetter (letter : Char) : List Char :=
  if letter = '\"' then ['\\', '\"']
  else if letter = '\\' then ['\\', '\\']
  else if letter = '\n' then ['\\', 'n']
  else if letter = '\r' then ['\\', 'r']
  else if letter = '\t' then ['\\', 't']
  else if letter.toNat = 8 then ['\\', 'b']
  else if letter.toNat = 12 then ['\\', 'f']
  else if letter.toNat < 32 then
    ['\\', 'u', '0', '0', hexDigit (letter.toNat / 16), hexDigit (letter.toNat % 16)]
  else [letter]

def quote (text : String) : List Char := ['\"'] ++ text.toList.flatMap escapeLetter ++ ['\"']

mutual

def letters : Json → List Char
  | .null => ['n', 'u', 'l', 'l']
  | .bool true => ['t', 'r', 'u', 'e']
  | .bool false => ['f', 'a', 'l', 's', 'e']
  | .num value => (toString value).toList
  | .float text => text.toList
  | .str text => quote text
  | .arr items => ['['] ++ itemLetters items ++ [']']
  | .obj fields => ['\x7b'] ++ fieldLetters fields ++ ['\x7d']

def itemLetters : List Json → List Char
  | [] => []
  | item :: rest => letters item ++ moreItemLetters rest

def moreItemLetters : List Json → List Char
  | [] => []
  | item :: rest => [','] ++ letters item ++ moreItemLetters rest

def fieldLetters : List (String × Json) → List Char
  | [] => []
  | (key, value) :: rest => quote key ++ [':'] ++ letters value ++ moreFieldLetters rest

def moreFieldLetters : List (String × Json) → List Char
  | [] => []
  | (key, value) :: rest => [','] ++ quote key ++ [':'] ++ letters value ++ moreFieldLetters rest

end

/-- This is the text without white space between the tokens. -/
def render (value : Json) : String := String.ofList (letters value)

/-- Two values with different letters have different texts. -/
theorem render_ne (left right : Json) (different : letters left ≠ letters right) :
    left.render ≠ right.render :=
  fun same => different (String.ofList_injective same)

/-- Both zeros are equal as numbers. -/
def sameFloat (left right : String) : Bool :=
  left == right || (left == "0.0" || left == "-0.0") && (right == "0.0" || right == "-0.0")

mutual

/-- Two objects are equal where they hold the same fields in some order. -/
def eqv : Json → Json → Bool
  | .null, .null => true
  | .bool left, .bool right => left == right
  | .num left, .num right => left == right
  | .float left, .float right => sameFloat left right
  | .str left, .str right => left == right
  | .arr left, .arr right => eqvItems left right
  | .obj left, .obj right => left.length == right.length && eqvFields left right
  | _, _ => false

def eqvItems : List Json → List Json → Bool
  | [], [] => true
  | left :: lefts, right :: rights => eqv left right && eqvItems lefts rights
  | _, _ => false

def eqvFields : List (String × Json) → List (String × Json) → Bool
  | [], _ => true
  | (key, value) :: rest, fields =>
      (match fields.lookup key with
        | some found => eqv value found
        | none => false) && eqvFields rest fields

end

/-- Each field of the left object has an equal field on the right. -/
theorem eqvFields_iff (left right : List (String × Json)) :
    eqvFields left right = true ↔
      ∀ entry ∈ left, ∃ found, right.lookup entry.1 = some found ∧ eqv entry.2 found = true := by
  induction left with
  | nil => simp [eqvFields]
  | cons head rest ih =>
      rw [eqvFields, Bool.and_eq_true, ih, List.forall_mem_cons]
      apply and_congr_left
      intro _
      cases right.lookup head.1 <;> simp

/-- Equal objects have equal values under each key. -/
theorem eqv_of_get (left right : List (String × Json)) (key : String) (first second : Json)
    (same : (obj left).eqv (obj right) = true) (leftRead : left.lookup key = some first)
    (rightRead : right.lookup key = some second) : first.eqv second = true := by
  rw [eqv, Bool.and_eq_true, eqvFields_iff] at same
  obtain ⟨before, after, split, -⟩ := List.lookup_eq_some_iff.mp leftRead
  obtain ⟨found, read, equal⟩ := same.2 (key, first) (by simp [split])
  rw [rightRead, Option.some.injEq] at read
  rwa [read]

theorem eqvItems_texts_iff (left right : List String) :
    eqvItems (left.map Json.str) (right.map Json.str) = true ↔ left = right := by
  induction left generalizing right with
  | nil => cases right <;> simp [eqvItems]
  | cons head rest ih =>
      cases right with
      | nil => simp [eqvItems]
      | cons other others => simp [eqvItems, eqv, ih]

theorem eqv_ofText?_iff (left right : Option String) :
    (ofText? left).eqv (ofText? right) = true ↔ left = right := by
  cases left <;> cases right <;> simp [ofText?, eqv]

end Json

/-- This class is the digest in lower case hexadecimal digits. -/
class Sha256 where
  hex : ByteArray → String
  hexLength : ∀ bytes : ByteArray, (hex bytes).length = 64

namespace Sha256

/-- This is the digest of the encoded text. -/
def hexText [Sha256] (text : String) : String := hex text.toUTF8

/-- This is the digest of the compact text of a value. -/
def hexJson [Sha256] (value : Json) : String := hexText value.render

/-- This digest is known for the listed texts only. -/
abbrev ofTable (table : List (String × String))
    (wellFormed : table.all (fun entry => entry.2.length == 64) = true) : Sha256 where
  hex bytes := match table.find? fun entry => decide (entry.1.toUTF8.data = bytes.data) with
    | some entry => entry.2
    | none => String.ofList (List.replicate 64 '0')
  hexLength bytes := by
    cases found : table.find? fun entry => decide (entry.1.toUTF8.data = bytes.data) with
    | none => rfl
    | some entry => simpa using List.all_eq_true.mp wellFormed entry (List.mem_of_find?_eq_some found)

/-- This digest knows no text. -/
abbrev zeros : Sha256 := ofTable [] rfl

/-- The table answers by the text itself. -/
theorem hexText_ofTable (table : List (String × String))
    (wellFormed : table.all (fun entry => entry.2.length == 64) = true) (text : String) :
    @hexText (ofTable table wellFormed) text =
      match table.find? fun entry => decide (entry.1 = text) with
      | some entry => entry.2
      | none => String.ofList (List.replicate 64 '0') := by
  have sameTest : (fun entry : String × String => decide (entry.1.toUTF8.data = text.toUTF8.data)) =
      fun entry => decide (entry.1 = text) := by
    funext entry
    exact decide_eq_decide.mpr (ByteArray.ext_iff.symm.trans String.toByteArray_inj)
  rw [← sameTest]
  rfl

end Sha256
