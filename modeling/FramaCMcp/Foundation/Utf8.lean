/-
This file reads texts from bytes and cuts them at offsets that count bytes.
-/

import FramaCMcp.Foundation.Lines
import Mathlib.Algebra.GroupWithZero.Nat

namespace Utf8

section Decoding

/-- A lead byte says how many bytes its letter has. -/
def width (lead : UInt8) : Nat :=
  if lead < 0x80 then 1
  else if 0xC2 ≤ lead ∧ lead ≤ 0xDF then 2
  else if 0xE0 ≤ lead ∧ lead ≤ 0xEF then 3
  else if 0xF0 ≤ lead ∧ lead ≤ 0xF4 then 4
  else 0

/-- After some lead bytes the second byte has a smaller range. -/
def secondRange (lead : UInt8) : UInt8 × UInt8 :=
  if lead = 0xE0 then (0xA0, 0xBF)
  else if lead = 0xED then (0x80, 0x9F)
  else if lead = 0xF0 then (0x90, 0xBF)
  else if lead = 0xF4 then (0x80, 0x8F)
  else (0x80, 0xBF)

/-- This is the number of the next bytes that continue a letter. -/
def fitting (range : UInt8 × UInt8) : Nat → List UInt8 → Nat
  | 0, _ => 0
  | _ + 1, [] => 0
  | left + 1, byte :: rest =>
      if range.1 ≤ byte ∧ byte ≤ range.2 then 1 + fitting (0x80, 0xBF) left rest else 0

def value (lead : UInt8) (tail : List UInt8) : Nat :=
  tail.foldl (fun value byte => 64 * value + byte.toNat % 64)
    (if tail = [] then lead.toNat else lead.toNat % 2 ^ (6 - tail.length))

/-- A part of a letter that nothing completes becomes one replacement letter. -/
def decodeOne (lead : UInt8) (rest : List UInt8) : Char × Nat :=
  let found := fitting (secondRange lead) (width lead - 1) rest
  if found + 1 = width lead then (Char.ofNat (value lead (rest.take found)), found)
  else (Char.ofNat 0xFFFD, found)

/-- The first number counts the bytes that have been read with an earlier one. -/
def lossyFrom : Nat → List UInt8 → Line
  | _, [] => []
  | used + 1, _ :: rest => lossyFrom used rest
  | 0, lead :: rest => (decodeOne lead rest).1 :: lossyFrom (decodeOne lead rest).2 rest

/-- Each bad part of the bytes is replaced. -/
def lossy (bytes : List UInt8) : Line := lossyFrom 0 bytes

end Decoding

section Ascii

def IsAscii (bytes : List UInt8) : Prop := ∀ byte ∈ bytes, byte.toNat < 128

theorem IsAscii.of_all {bytes : List UInt8}
    (small : bytes.all (fun byte => decide (byte.toNat < 128)) = true) : IsAscii bytes :=
  fun byte member => of_decide_eq_true (List.all_eq_true.mp small byte member)

/-- Each ASCII byte is one letter. -/
def asciiText (bytes : List UInt8) : Line := bytes.map fun byte => Char.ofNat byte.toNat

theorem lossyFrom_eq_lossy_drop (used : Nat) (bytes : List UInt8) :
    lossyFrom used bytes = lossy (bytes.drop used) := by
  induction used generalizing bytes with
  | zero => rfl
  | succ used ih =>
      cases bytes with
      | nil => rfl
      | cons byte rest =>
          rw [lossyFrom, List.drop_succ_cons]
          exact ih rest

theorem lossy_cons (lead : UInt8) (rest : List UInt8) :
    lossy (lead :: rest) =
      (decodeOne lead rest).1 :: lossy (rest.drop (decodeOne lead rest).2) := by
  rw [lossy, lossyFrom, lossyFrom_eq_lossy_drop]

theorem fitting_le (range : UInt8 × UInt8) (left : Nat) (bytes : List UInt8) :
    fitting range left bytes ≤ left ∧ fitting range left bytes ≤ bytes.length := by
  induction left generalizing range bytes with
  | zero => exact ⟨le_rfl, Nat.zero_le _⟩
  | succ left ih =>
      cases bytes with
      | nil => exact ⟨Nat.zero_le _, le_rfl⟩
      | cons byte rest =>
          have later := ih (0x80, 0xBF) rest
          rw [fitting, List.length_cons]
          split_ifs <;> omega

/-- An ASCII byte continues no letter. -/
theorem fitting_append_ascii {range : UInt8 × UInt8} (low : 128 ≤ range.1.toNat) (left : Nat)
    (bytes : List UInt8) {byte : UInt8} (ascii : byte.toNat < 128) (rest : List UInt8) :
    fitting range left (bytes ++ byte :: rest) = fitting range left bytes := by
  induction left generalizing range bytes with
  | zero => rfl
  | succ left ih =>
      cases bytes with
      | nil =>
          rw [List.nil_append, fitting, fitting, if_neg]
          rintro ⟨above, _⟩
          have := UInt8.le_iff_toNat_le.mp above
          omega
      | cons head tail =>
          rw [List.cons_append, fitting, fitting, ih (by decide) tail]

theorem le_secondRange (lead : UInt8) : 128 ≤ (secondRange lead).1.toNat := by
  rw [secondRange]
  split_ifs <;> decide

theorem decodeOne_append_ascii (lead : UInt8) (bytes : List UInt8) {byte : UInt8}
    (ascii : byte.toNat < 128) (rest : List UInt8) :
    decodeOne lead (bytes ++ byte :: rest) = decodeOne lead bytes := by
  have same := fitting_append_ascii (le_secondRange lead) (width lead - 1) bytes ascii rest
  have inside := (fitting_le (secondRange lead) (width lead - 1) bytes).2
  rw [decodeOne, decodeOne, same, List.take_append_of_le_length inside]

theorem decodeOne_le_length (lead : UInt8) (bytes : List UInt8) :
    (decodeOne lead bytes).2 ≤ bytes.length := by
  rw [decodeOne]
  split_ifs <;> exact (fitting_le _ _ _).2

theorem decodeOne_ascii {lead : UInt8} (ascii : lead.toNat < 128) (rest : List UInt8) :
    decodeOne lead rest = (Char.ofNat lead.toNat, 0) := by
  have one : width lead = 1 := by
    rw [width, if_pos (UInt8.lt_iff_toNat_lt.mpr ascii)]
  rw [decodeOne, one]
  rfl

/-- The text before an ASCII byte is read without it. -/
theorem lossy_append_ascii (before : List UInt8) {byte : UInt8} (ascii : byte.toNat < 128)
    (after : List UInt8) :
    lossy (before ++ byte :: after) = lossy before ++ Char.ofNat byte.toNat :: lossy after := by
  induction hsize : before.length using Nat.strong_induction_on generalizing before with
  | _ length ih =>
      cases before with
      | nil => rw [List.nil_append, lossy_cons, decodeOne_ascii ascii]; rfl
      | cons lead rest =>
          have inside := decodeOne_le_length lead rest
          rw [List.cons_append, lossy_cons, lossy_cons, decodeOne_append_ascii lead rest ascii,
            List.drop_append_of_le_length inside, List.cons_append]
          rw [ih _ (by rw [← hsize, List.length_drop, List.length_cons]; omega) _ rfl]

theorem lossy_append_asciiText (before : List UInt8) {needle : List UInt8} (ascii : IsAscii needle)
    (filled : needle ≠ []) (after : List UInt8) :
    lossy (before ++ needle ++ after) = lossy before ++ asciiText needle ++ lossy after := by
  induction needle generalizing before with
  | nil => exact absurd rfl filled
  | cons byte rest ih =>
      have small := ascii byte (List.mem_cons_self ..)
      by_cases last : rest = []
      · subst last
        rw [List.append_assoc, List.singleton_append, lossy_append_ascii before small,
          List.append_assoc]
        rfl
      · have later := ih (before ++ [byte]) (fun other member => ascii other (.tail _ member)) last
        rw [List.append_assoc before, List.singleton_append] at later
        rw [later, lossy_append_ascii before small, asciiText, asciiText, List.map_cons,
          List.append_assoc (lossy before)]
        rfl

/-- The letter of a number below the surrogates or above them has that number. -/
theorem toNat_ofNat {number : Nat} (valid : number.isValidChar) :
    (Char.ofNat number).toNat = number := by
  rw [Char.ofNat, dif_pos valid]
  rfl

theorem width_cases (lead : UInt8) :
    (lead.toNat < 128 ∧ width lead = 1) ∨ width lead = 0 ∨
      (194 ≤ lead.toNat ∧ lead.toNat ≤ 223 ∧ width lead = 2) ∨
      (224 ≤ lead.toNat ∧ lead.toNat ≤ 239 ∧ width lead = 3) ∨
      (240 ≤ lead.toNat ∧ lead.toNat ≤ 244 ∧ width lead = 4) := by
  rw [width]
  simp only [UInt8.lt_iff_toNat_lt, UInt8.le_iff_toNat_le]
  split_ifs <;> simp_all

theorem fitting_full {range : UInt8 × UInt8} {left : Nat} {bytes : List UInt8}
    (full : fitting range (left + 1) bytes = left + 1) :
    ∃ byte rest, bytes = byte :: rest ∧ range.1.toNat ≤ byte.toNat ∧ byte.toNat ≤ range.2.toNat ∧
      fitting (0x80, 0xBF) left rest = left := by
  cases bytes with
  | nil => cases full
  | cons byte rest =>
      rw [fitting] at full
      split_ifs at full with inside
      exact ⟨byte, rest, rfl, UInt8.le_iff_toNat_le.mp inside.1, UInt8.le_iff_toNat_le.mp inside.2,
        by omega⟩

theorem secondRange_bounds (lead : UInt8) :
    (lead.toNat = 224 → (secondRange lead).1.toNat = 160) ∧
      (lead.toNat = 237 → (secondRange lead).2.toNat = 159) ∧
      (lead.toNat = 240 → (secondRange lead).1.toNat = 144) ∧
      (lead.toNat = 244 → (secondRange lead).2.toNat = 143) ∧
      128 ≤ (secondRange lead).1.toNat ∧ (secondRange lead).2.toNat ≤ 191 := by
  rw [secondRange]
  simp only [← UInt8.toNat_inj]
  split_ifs <;> simp_all

/-- A letter of several bytes has a number that one byte does not reach. -/
theorem value_of_full {lead : UInt8} {rest : List UInt8} (long : ¬lead.toNat < 128)
    (full : fitting (secondRange lead) (width lead - 1) rest + 1 = width lead) :
    128 ≤ value lead (rest.take (width lead - 1)) ∧
      (value lead (rest.take (width lead - 1))).isValidChar := by
  obtain ⟨atE0, atED, atF0, atF4, low, high⟩ := secondRange_bounds lead
  obtain ⟨short, _⟩ | none | ⟨from2, to2, two⟩ | ⟨from3, to3, three⟩ | ⟨from4, to4, four⟩ :=
    width_cases lead
  · exact absurd short long
  · rw [none] at full
    omega
  · rw [two] at full ⊢
    obtain ⟨second, tail, rfl, above, below, _⟩ := fitting_full (Nat.succ.inj full)
    simp only [value, List.take_succ_cons, List.take_zero, List.foldl_cons, List.foldl_nil,
      List.length_cons, List.length_nil, reduceCtorEq, if_false, Nat.isValidChar]
    omega
  · rw [three] at full ⊢
    obtain ⟨second, tail, rfl, above, below, more⟩ := fitting_full (Nat.succ.inj full)
    obtain ⟨third, tail, rfl, above3, below3, _⟩ := fitting_full more
    simp only [value, List.take_succ_cons, List.take_zero, List.foldl_cons, List.foldl_nil,
      List.length_cons, List.length_nil, reduceCtorEq, if_false, Nat.isValidChar]
    have above3 : 128 ≤ third.toNat := above3
    have below3 : third.toNat ≤ 191 := below3
    omega
  · rw [four] at full ⊢
    obtain ⟨second, tail, rfl, above, below, more⟩ := fitting_full (Nat.succ.inj full)
    obtain ⟨third, tail, rfl, above3, below3, more⟩ := fitting_full more
    obtain ⟨fourth, tail, rfl, above4, below4, _⟩ := fitting_full more
    simp only [value, List.take_succ_cons, List.take_zero, List.foldl_cons, List.foldl_nil,
      List.length_cons, List.length_nil, reduceCtorEq, if_false, Nat.isValidChar]
    have above3 : 128 ≤ third.toNat := above3
    have below3 : third.toNat ≤ 191 := below3
    have above4 : 128 ≤ fourth.toNat := above4
    have below4 : fourth.toNat ≤ 191 := below4
    omega

/-- Only an ASCII byte is read as an ASCII letter. -/
theorem lead_of_ascii_letter {lead : UInt8} {rest : List UInt8}
    (ascii : (decodeOne lead rest).1.toNat < 128) : lead.toNat < 128 := by
  by_contra long
  rw [decodeOne] at ascii
  split_ifs at ascii with full
  · have found : fitting (secondRange lead) (width lead - 1) rest = width lead - 1 := by omega
    obtain ⟨large, valid⟩ := value_of_full long full
    rw [found, toNat_ofNat valid] at ascii
    omega
  · have large : ¬(Char.ofNat 0xFFFD).toNat < 128 := by decide
    exact large ascii

theorem lossy_eq_cons {bytes : List UInt8} {letter : Char} {text : Line}
    (read : lossy bytes = letter :: text) :
    ∃ lead rest, bytes = lead :: rest ∧ (decodeOne lead rest).1 = letter ∧
      lossy (rest.drop (decodeOne lead rest).2) = text := by
  cases bytes with
  | nil => cases read
  | cons lead rest =>
      rw [lossy_cons] at read
      exact ⟨lead, rest, rfl, (List.cons.inj read).1, (List.cons.inj read).2⟩

theorem starts_of_lossy {needle bytes : List UInt8} (ascii : IsAscii needle) {after : Line}
    (read : lossy bytes = asciiText needle ++ after) : ∃ rest, bytes = needle ++ rest := by
  induction needle generalizing bytes with
  | nil => exact ⟨bytes, rfl⟩
  | cons byte needle ih =>
      have small := ascii byte (List.mem_cons_self ..)
      obtain ⟨lead, rest, rfl, shown, later⟩ := lossy_eq_cons read
      have number : (Char.ofNat byte.toNat).toNat = byte.toNat := toNat_ofNat (.inl (by omega))
      have low : lead.toNat < 128 := lead_of_ascii_letter (by rw [shown, number]; exact small)
      rw [decodeOne_ascii low] at shown later
      have shown : Char.ofNat lead.toNat = Char.ofNat byte.toNat := shown
      have same : lead = byte := by
        apply UInt8.toNat_inj.mp
        rw [← number, ← shown]
        exact (toNat_ofNat (.inl (by omega))).symm
      obtain ⟨tail, rfl⟩ := ih (fun other member => ascii other (.tail _ member)) later
      exact ⟨tail, by rw [same, List.cons_append]⟩

/-- A text shows ASCII letters in a row where its bytes have them. -/
theorem asciiText_isInfix_lossy {needle : List UInt8} (ascii : IsAscii needle)
    (filled : needle ≠ []) (bytes : List UInt8) :
    asciiText needle <:+: lossy bytes ↔ needle <:+: bytes := by
  constructor
  · rintro ⟨before, after, whole⟩
    induction before generalizing bytes with
    | nil =>
        obtain ⟨rest, rfl⟩ := starts_of_lossy ascii whole.symm
        exact ⟨[], rest, rfl⟩
    | cons letter before ih =>
        obtain ⟨lead, rest, rfl, _, later⟩ := lossy_eq_cons whole.symm
        have inside : needle <:+: rest.drop _ := ih _ later.symm
        exact inside.trans ((List.drop_suffix _ _).isInfix.trans (List.suffix_cons _ _).isInfix)
  · rintro ⟨before, after, rfl⟩
    exact ⟨lossy before, lossy after, (lossy_append_asciiText before ascii filled after).symm⟩

end Ascii

section Search

variable {needle text : Line}

/-- These are the parts around the first occurrence. -/
def splitOnce (needle text : Line) : Option (Line × Line) :=
  (Text.findChars needle text).map fun start =>
    (text.take start, text.drop (start + needle.length))

theorem splitOnce_some {before after : Line} (found : splitOnce needle text = some (before, after)) :
    text = before ++ needle ++ after ∧
      ∀ early late, text = early ++ needle ++ late → before.length ≤ early.length := by
  induction text generalizing before after with
  | nil =>
      rw [splitOnce, Text.findChars] at found
      split_ifs at found with empty
      · cases found
        subst empty
        exact ⟨rfl, fun _ _ _ => Nat.zero_le _⟩
      · cases found
  | cons head rest ih =>
      rw [splitOnce, Text.findChars] at found
      split_ifs at found with here
      · cases found
        obtain ⟨tail, whole⟩ := List.isPrefixOf_iff_prefix.mp here
        refine ⟨?_, fun _ _ _ => Nat.zero_le _⟩
        rw [List.take_zero, List.nil_append, Nat.zero_add, ← whole, List.drop_left]
      · obtain ⟨start, later, shape⟩ := Option.map_eq_some_iff.mp found
        obtain ⟨offset, inRest, rfl⟩ := Option.map_eq_some_iff.mp later
        rw [List.take_succ_cons, Nat.succ_add, List.drop_succ_cons] at shape
        obtain ⟨rfl, rfl⟩ := Prod.mk.inj shape
        have split : splitOnce needle rest =
            some (rest.take offset, rest.drop (offset + needle.length)) := by
          rw [splitOnce, inRest, Option.map_some]
        obtain ⟨whole, first⟩ := ih split
        refine ⟨congrArg (head :: ·) whole, fun early late other => ?_⟩
        cases early with
        | nil => exact absurd (List.isPrefixOf_iff_prefix.mpr ⟨late, other.symm⟩) here
        | cons letter early => exact Nat.succ_le_succ (first early late (List.cons.inj other).2)

theorem splitOnce_none (missing : splitOnce needle text = none) (before after : Line) :
    text ≠ before ++ needle ++ after := by
  induction text generalizing before with
  | nil =>
      rw [splitOnce, Text.findChars] at missing
      split_ifs at missing with empty
      · cases missing
      · intro whole
        exact empty (List.append_eq_nil_iff.mp (List.append_eq_nil_iff.mp whole.symm).1).2
  | cons head rest ih =>
      rw [splitOnce, Text.findChars] at missing
      split_ifs at missing with here
      · cases missing
      · rw [Option.map_map, Option.map_eq_none_iff] at missing
        cases before with
        | nil => exact fun whole => here (List.isPrefixOf_iff_prefix.mpr ⟨after, whole.symm⟩)
        | cons letter before =>
            intro whole
            exact ih (by rw [splitOnce, missing, Option.map_none]) before (List.cons.inj whole).2

theorem append_cons_unique {mark : Char} {first second before after : Line}
    (notFirst : mark ∉ first) (notSecond : mark ∉ second)
    (same : first ++ mark :: before = second ++ mark :: after) :
    first = second ∧ before = after := by
  induction first generalizing second with
  | nil =>
      cases second with
      | nil => exact ⟨rfl, (List.cons.inj same).2⟩
      | cons letter second =>
          have shared : mark = letter := (List.cons.inj same).1
          exact absurd (shared ▸ List.mem_cons_self) notSecond
  | cons letter first ih =>
      cases second with
      | nil =>
          have shared : letter = mark := (List.cons.inj same).1
          exact absurd (shared ▸ List.mem_cons_self) notFirst
      | cons other second =>
          obtain ⟨rfl, rest⟩ := List.cons.inj same
          obtain ⟨rfl, rfl⟩ := ih (fun member => notFirst (List.mem_cons_of_mem _ member))
            (fun member => notSecond (List.mem_cons_of_mem _ member)) rest
          exact ⟨rfl, rfl⟩

theorem splitOnce_cons_of_ne {mark letter : Char} (other : letter ≠ mark) (text : Line) :
    splitOnce [mark] (letter :: text) =
      (splitOnce [mark] text).map fun parts => (letter :: parts.1, parts.2) := by
  have apart : ¬ [mark].isPrefixOf (letter :: text) = true := by
    simp [other.symm]
  rw [splitOnce, Text.findChars, if_neg apart, splitOnce, Option.map_map, Option.map_map]
  congr 1

/-- The part before the first mark does not hold the mark. -/
theorem notMem_of_splitOnce {mark : Char} {text before after : Line}
    (found : splitOnce [mark] text = some (before, after)) : mark ∉ before := by
  intro member
  obtain ⟨split, first⟩ := splitOnce_some found
  obtain ⟨early, late, rfl⟩ := List.append_of_mem member
  have short := first early (late ++ [mark] ++ after) (by simp [split])
  rw [List.length_append, List.length_cons] at short
  omega

theorem notMem_of_splitOnce_none {mark : Char} {text : Line}
    (missing : splitOnce [mark] text = none) : mark ∉ text := by
  intro member
  obtain ⟨early, late, split⟩ := List.append_of_mem member
  exact splitOnce_none missing early late (by simp [split])

end Search

section Occurrences

variable {needle : Line}

/-- These are the parts around the occurrences that do not overlap an earlier one. -/
def splits (needle : Line) : Nat → Line → Line → List (Line × Line)
  | 0, _, _ => []
  | fuel + 1, passed, rest =>
      match splitOnce needle rest with
      | none => []
      | some (before, after) =>
          (passed ++ before, after) :: splits needle fuel (passed ++ before ++ needle) after

/-- A needle whose first letter does not come again overlaps no other occurrence of it. -/
theorem splitOnce_before {mark : Char} {word text before after early late : Line}
    (once : mark ∉ word) (found : splitOnce (mark :: word) text = some (before, after))
    (other : text = early ++ (mark :: word) ++ late) :
    (early = before ∧ late = after) ∨ ∃ middle, early = before ++ (mark :: word) ++ middle ∧
      after = middle ++ (mark :: word) ++ late := by
  obtain ⟨whole, first⟩ := splitOnce_some found
  have shorter := first early late other
  have same : before ++ ((mark :: word) ++ after) = early ++ ((mark :: word) ++ late) := by
    rw [← List.append_assoc, ← List.append_assoc, ← whole, other]
  obtain ⟨middle, rfl⟩ : before <+: early :=
    List.prefix_of_prefix_length_le ⟨_, same⟩ ⟨_, rfl⟩ shorter
  rw [List.append_assoc, List.append_cancel_left_eq] at same
  rcases middle with _ | ⟨head, middle⟩
  · rw [List.nil_append, List.append_cancel_left_eq] at same
    exact .inl ⟨List.append_nil _, same.symm⟩
  · obtain ⟨rfl, tails⟩ := List.cons.inj same
    rcases List.append_eq_append_iff.mp tails with ⟨rest, rfl, moved⟩ | ⟨rest, rfl, moved⟩
    · exact .inr ⟨rest, by simp, by rw [moved, List.append_assoc]⟩
    · rcases rest with _ | ⟨letter, rest⟩
      · exact .inr ⟨[], by simp, by simpa using moved.symm⟩
      · obtain ⟨rfl, _⟩ := List.cons.inj moved
        exact absurd (List.mem_append_right _ (List.mem_cons_self ..)) once

theorem mem_splits {mark : Char} {word passed rest early late : Line} (once : mark ∉ word)
    {fuel : Nat} (enough : rest.length < fuel) :
    (early, late) ∈ splits (mark :: word) fuel passed rest ↔
      ∃ lead, early = passed ++ lead ∧ rest = lead ++ (mark :: word) ++ late := by
  induction fuel generalizing passed rest with
  | zero => omega
  | succ fuel ih =>
      rw [splits]
      cases found : splitOnce (mark :: word) rest with
      | none =>
          constructor
          · exact nofun
          · rintro ⟨lead, _, whole⟩
            exact absurd whole (splitOnce_none found lead late)
      | some parts =>
          obtain ⟨before, after⟩ := parts
          have whole := (splitOnce_some found).1
          have shorter : after.length < fuel := by
            have := congrArg List.length whole
            simp only [List.length_append, List.length_cons] at this
            omega
          rw [List.mem_cons, Prod.mk.injEq, ih shorter]
          constructor
          · rintro (⟨rfl, rfl⟩ | ⟨lead, rfl, rfl⟩)
            · exact ⟨before, rfl, whole⟩
            · refine ⟨before ++ (mark :: word) ++ lead, by simp, ?_⟩
              rw [whole]
              simp
          · rintro ⟨lead, rfl, other⟩
            rcases splitOnce_before once found other with ⟨rfl, rfl⟩ | ⟨middle, rfl, moved⟩
            · exact .inl ⟨rfl, rfl⟩
            · exact .inr ⟨middle, by simp, moved⟩

end Occurrences

section Offsets

/-- This is the number of bytes of the encoded text. -/
def size (text : Line) : Nat := (text.map Char.utf8Size).sum

@[simp] theorem size_nil : size [] = 0 := rfl

@[simp] theorem size_cons (letter : Char) (rest : Line) :
    size (letter :: rest) = letter.utf8Size + size rest := by
  rw [size, List.map_cons, List.sum_cons, size]

@[simp] theorem size_append (before after : Line) :
    size (before ++ after) = size before + size after := by
  rw [size, List.map_append, List.sum_append, size, size]

/-- A text is cut only between two letters. -/
def splitAt : Line → Nat → Option (Line × Line)
  | text, 0 => some ([], text)
  | [], _ + 1 => none
  | letter :: rest, offset + 1 =>
      if letter.utf8Size ≤ offset + 1 then
        (splitAt rest (offset + 1 - letter.utf8Size)).map fun parts =>
          (letter :: parts.1, parts.2)
      else none

def takeTo (text : Line) (offset : Nat) : Option Line := (splitAt text offset).map Prod.fst

def dropTo (text : Line) (offset : Nat) : Option Line := (splitAt text offset).map Prod.snd

def slice (text : Line) (start stop : Nat) : Option Line :=
  (takeTo text stop).bind fun lead => dropTo lead start

/-- This is the offset of the first occurrence. -/
def find (needle text : Line) : Option Nat := (splitOnce needle text).map fun parts => size parts.1

theorem splitAt_append (before after : Line) :
    splitAt (before ++ after) (size before) = some (before, after) := by
  induction before with
  | nil => cases after <;> rfl
  | cons letter rest ih =>
      obtain ⟨width, positive⟩ := Nat.exists_eq_succ_of_ne_zero letter.utf8Size_pos.ne'
      have offset : size (letter :: rest) = width + size rest + 1 := by
        rw [size_cons, positive]
        omega
      rw [offset, List.cons_append, splitAt, if_pos (by omega), positive,
        show width + size rest + 1 - width.succ = size rest by omega, ih]
      rfl

theorem takeTo_append (before after : Line) :
    takeTo (before ++ after) (size before) = some before := by
  rw [takeTo, splitAt_append, Option.map_some]

theorem dropTo_append (before after : Line) :
    dropTo (before ++ after) (size before) = some after := by
  rw [dropTo, splitAt_append, Option.map_some]

theorem slice_append (before middle after : Line) :
    slice (before ++ middle ++ after) (size before) (size before + size middle) = some middle := by
  rw [slice, ← size_append, takeTo_append, Option.bind_some, dropTo_append]

end Offsets

end Utf8
