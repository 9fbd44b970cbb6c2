/-
This file gives hexadecimal numbers as bytes, and framed streams whose buffer always holds the next
frame or a part of it.
-/

import Mathlib.Data.List.Basic
import Mathlib.Data.Nat.Digits.Defs
import Mathlib.Data.Nat.Digits.Lemmas

namespace Hexadecimal

abbrev Byte := UInt8

/-- A digit is read in either case. -/
def toDigit (byte : Byte) : Option Nat :=
  if 48 ≤ byte.toNat ∧ byte.toNat ≤ 57 then some (byte.toNat - 48)
  else if 97 ≤ byte.toNat ∧ byte.toNat ≤ 102 then some (byte.toNat - 87)
  else if 65 ≤ byte.toNat ∧ byte.toNat ≤ 70 then some (byte.toNat - 55)
  else none

/-- A digit is written in lower case. -/
def fromDigit (digit : Nat) : Byte :=
  if digit < 10 then UInt8.ofNat (48 + digit) else UInt8.ofNat (87 + digit)

def IsDigits (bytes : List Byte) : Prop := ∀ byte ∈ bytes, (toDigit byte).isSome = true

instance (bytes : List Byte) : Decidable (IsDigits bytes) :=
  inferInstanceAs (Decidable (∀ byte ∈ bytes, (toDigit byte).isSome = true))

/-- The first digit counts most. -/
def value (bytes : List Byte) : Nat :=
  bytes.foldl (fun total byte => total * 16 + (toDigit byte).getD 0) 0

/-- A total that does not fit in a machine word is refused. -/
def step (total : Nat) (byte : Byte) : Option Nat := do
  let digit ← toDigit byte
  if total * 16 + digit < 2 ^ 64 then some (total * 16 + digit) else none

/-- A leading plus sign is allowed in front of at least one digit. -/
def fromStrRadix (bytes : List Byte) : Option Nat :=
  match bytes with
  | [] => none
  | [43] => none
  | 43 :: digits => digits.foldlM step 0
  | digits => digits.foldlM step 0

/-- The number is filled with zeros up to the width. -/
def format (width number : Nat) : List Byte :=
  List.replicate (width - (Nat.digits 16 number).length) 48 ++
    ((Nat.digits 16 number).map fromDigit).reverse

theorem toDigit_fromDigit (digit : Nat) (bound : digit < 16) :
    toDigit (fromDigit digit) = some digit := by
  interval_cases digit <;> decide

theorem toDigit_lt (byte : Byte) : (toDigit byte).getD 0 < 16 := by
  unfold toDigit
  split_ifs with first second third
  · rw [Option.getD_some]
    omega
  · rw [Option.getD_some]
    omega
  · rw [Option.getD_some]
    omega
  · decide

theorem value_foldl (bytes : List Byte) (total : Nat) :
    bytes.foldl (fun total byte => total * 16 + (toDigit byte).getD 0) total =
      total * 16 ^ bytes.length + value bytes := by
  induction bytes generalizing total with
  | nil => simp [value]
  | cons head rest ih =>
      have first := ih (total * 16 + (toDigit head).getD 0)
      have second := ih (0 * 16 + (toDigit head).getD 0)
      rw [value, List.foldl_cons, List.foldl_cons, first, second, List.length_cons, pow_succ]
      ring

theorem value_cons (head : Byte) (rest : List Byte) :
    value (head :: rest) = (toDigit head).getD 0 * 16 ^ rest.length + value rest := by
  rw [value, List.foldl_cons, value_foldl, zero_mul, zero_add]

theorem value_append (left right : List Byte) :
    value (left ++ right) = value left * 16 ^ right.length + value right := by
  rw [value, List.foldl_append, value_foldl]
  rfl

/-- So many digits stay below the power of sixteen. -/
theorem value_lt (bytes : List Byte) : value bytes < 16 ^ bytes.length := by
  induction bytes with
  | nil => decide
  | cons head rest ih =>
      have digit := toDigit_lt head
      rw [value_cons, List.length_cons, pow_succ]
      have scaled := Nat.mul_le_mul_right (16 ^ rest.length) (Nat.le_of_lt_succ digit)
      omega

/-- Digits that fit in a machine word are read in full, and other bytes are refused. -/
theorem foldlM_step (bytes : List Byte) (total : Nat)
    (fits : total * 16 ^ bytes.length + value bytes < 2 ^ 64) :
    bytes.foldlM step total =
      if IsDigits bytes then some (total * 16 ^ bytes.length + value bytes) else none := by
  induction bytes generalizing total with
  | nil => simp [IsDigits, value]
  | cons head rest ih =>
      rw [List.foldlM_cons]
      cases digit : toDigit head with
      | none =>
          have bad : ¬ IsDigits (head :: rest) := by
            intro all
            have first := all head List.mem_cons_self
            rw [digit] at first
            cases first
          rw [step, digit, if_neg bad]
          rfl
      | some number =>
          have total_eq : total * 16 ^ (head :: rest).length + value (head :: rest) =
              (total * 16 + number) * 16 ^ rest.length + value rest := by
            rw [value_cons, digit, Option.getD_some, List.length_cons, pow_succ]
            ring
          have small : total * 16 + number < 2 ^ 64 := by
            have positive : 0 < 16 ^ rest.length := Nat.pow_pos (by decide)
            have bound := Nat.le_mul_of_pos_right (total * 16 + number) positive
            omega
          have same : IsDigits (head :: rest) ↔ IsDigits rest := by
            simp [IsDigits, digit]
          rw [total_eq] at fits ⊢
          rw [step, digit, Option.bind_eq_bind, Option.bind_some, if_pos small, Option.bind_some,
            ih _ fits, if_congr same rfl rfl]

/-- Fewer than sixteen digits without a sign are read as their value. -/
theorem fromStrRadix_eq (bytes : List Byte) (nonempty : bytes ≠ []) (short : bytes.length ≤ 16)
    (unsigned : bytes.head? ≠ some 43) :
    fromStrRadix bytes = if IsDigits bytes then some (value bytes) else none := by
  have fits : 0 * 16 ^ bytes.length + value bytes < 2 ^ 64 := by
    have bound := value_lt bytes
    have power := Nat.pow_le_pow_right (show 0 < 16 by decide) short
    have word : 16 ^ 16 = 2 ^ 64 := by decide
    omega
  have read := foldlM_step bytes 0 fits
  rw [zero_mul, zero_add] at read
  rw [← read]
  unfold fromStrRadix
  split
  · exact absurd rfl nonempty
  · exact absurd rfl unsigned
  · exact absurd rfl unsigned
  · rfl

/-- The padding adds nothing to the value. -/
theorem value_replicate (count : Nat) : value (List.replicate count 48) = 0 := by
  induction count with
  | zero => rfl
  | succ count ih =>
      rw [List.replicate_succ, value_cons, ih]
      simp [toDigit]

theorem value_format_digits (digits : List Nat) (small : ∀ digit ∈ digits, digit < 16) :
    value (digits.map fromDigit).reverse = Nat.ofDigits 16 digits := by
  induction digits with
  | nil => rfl
  | cons head rest ih =>
      have first := toDigit_fromDigit head (small head List.mem_cons_self)
      rw [List.map_cons, List.reverse_cons, value_append, Nat.ofDigits_cons,
        ih fun digit member => small digit (List.mem_cons_of_mem head member), value_cons, first]
      simp [value]
      ring

theorem value_format (width number : Nat) : value (format width number) = number := by
  rw [format, value_append, value_replicate, zero_mul, zero_add,
    value_format_digits _ fun digit member => Nat.digits_lt_base (by decide) member,
    Nat.ofDigits_digits]

theorem isDigits_format (width number : Nat) : IsDigits (format width number) := by
  intro byte member
  rcases List.mem_append.mp member with padding | digit
  · obtain rfl := List.eq_of_mem_replicate padding
    decide
  · obtain ⟨own, listed, rfl⟩ := List.mem_map.mp (List.mem_reverse.mp digit)
    rw [toDigit_fromDigit own (Nat.digits_lt_base (by decide) listed)]
    rfl

/-- A number below the power of sixteen takes exactly the width. -/
theorem length_format (width number : Nat) (fits : number < 16 ^ width) :
    (format width number).length = width := by
  have bound := (Nat.digits_length_le_iff (show 1 < 16 by decide) number).mpr fits
  rw [format, List.length_append, List.length_replicate, List.length_reverse, List.length_map]
  omega

theorem isDigits_unsigned (bytes : List Byte) (digits : IsDigits bytes) :
    bytes.head? ≠ some 43 := by
  cases bytes with
  | nil => simp
  | cons head rest =>
      intro same
      obtain rfl := Option.some.inj same
      have first := digits 43 List.mem_cons_self
      revert first
      decide

end Hexadecimal

/-- A frame is read back in front of anything, and a proper part of it asks for more. -/
structure Framing (Byte Payload Error : Type) where
  encode : Payload → List Byte
  decode : List Byte → Except Error (Option (Payload × Nat))
  admissible : Payload → Prop
  nothing : decode [] = .ok none
  whole : ∀ payload rest, admissible payload →
    decode (encode payload ++ rest) = .ok (some (payload, (encode payload).length))
  part : ∀ payload before after, admissible payload → encode payload = before ++ after →
    after ≠ [] → decode before = .ok none

namespace Framing

variable {Byte Payload Error : Type} (framing : Framing Byte Payload Error)

/-- A buffer that with the unread bytes makes up the frames holds the first one whole, or it asks
for more while something is unread. -/
theorem decode_stream (payloads : List Payload)
    (admissible : ∀ payload ∈ payloads, framing.admissible payload) (buffer unread : List Byte)
    (stream : buffer ++ unread = payloads.flatMap framing.encode) :
    (∃ payload rest, payloads = payload :: rest ∧
        framing.decode buffer = .ok (some (payload, (framing.encode payload).length)) ∧
        buffer.drop (framing.encode payload).length ++ unread = rest.flatMap framing.encode) ∨
      framing.decode buffer = .ok none ∧ (payloads = [] ∨ unread ≠ []) := by
  cases payloads with
  | nil =>
      have empty : buffer = [] := (List.append_eq_nil_iff.mp stream).1
      rw [empty]
      exact .inr ⟨framing.nothing, .inl rfl⟩
  | cons payload rest =>
      rw [List.flatMap_cons] at stream
      have fits := admissible payload List.mem_cons_self
      rcases List.append_eq_append_iff.mp stream with
        ⟨after, split, remaining⟩ | ⟨before, split, remaining⟩
      · by_cases exact_ : after = []
        · subst exact_
          rw [List.append_nil] at split
          refine .inl ⟨payload, rest, rfl, ?_, ?_⟩
          · rw [← split]
            simpa using framing.whole payload [] fits
          · rw [← split, split, List.drop_length]
            simpa using remaining
        · refine .inr ⟨framing.part payload buffer after fits split exact_, .inr ?_⟩
          rw [remaining]
          simp [exact_]
      · refine .inl ⟨payload, rest, rfl, ?_, ?_⟩
        · rw [split]
          exact framing.whole payload before fits
        · rw [split, List.drop_left, ← remaining]

end Framing
