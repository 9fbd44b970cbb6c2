/-
This file relates the counting of brackets on a line to the grammar of balanced text.
-/

import FramaCMcp.Foundation.Lines

namespace Brackets

/-- Each opening bracket of the text has its closing bracket after it. -/
inductive Balanced (opening closing : Char) : Line → Prop where
  | empty : Balanced opening closing []
  | plain {c : Char} {rest : Line} (opens : c ≠ opening) (closes : c ≠ closing)
      (balanced : Balanced opening closing rest) : Balanced opening closing (c :: rest)
  | group {inner rest : Line} (inside : Balanced opening closing inner)
      (balanced : Balanced opening closing rest) :
      Balanced opening closing (opening :: (inner ++ closing :: rest))

def Encloses (opening closing : Char) (text inner tail : Line) : Prop :=
  Balanced opening closing inner ∧ text = opening :: (inner ++ closing :: tail)

/-- No closing bracket belongs to the bracket at the start of the text. -/
def Unclosed (opening closing : Char) (text : Line) : Prop :=
  text.head? = some opening ∧ ∀ inner tail, ¬ Encloses opening closing text inner tail

variable {opening closing : Char}

theorem depthStep_opening (distinct : opening ≠ closing) (depth : Int) :
    Line.depthStep [opening] [closing] depth opening = depth + 1 := by
  have other : [closing].contains opening = false := by simpa using distinct
  unfold Line.depthStep
  rw [other, if_pos (by simp), if_neg Bool.false_ne_true, Int.sub_zero]

theorem depthStep_closing (distinct : opening ≠ closing) (depth : Int) :
    Line.depthStep [opening] [closing] depth closing = depth - 1 := by
  have other : [opening].contains closing = false := by simpa using distinct.symm
  unfold Line.depthStep
  rw [other, if_neg Bool.false_ne_true, if_pos (by simp), Int.add_zero]

theorem depthStep_plain {c : Char} (opens : c ≠ opening) (closes : c ≠ closing) (depth : Int) :
    Line.depthStep [opening] [closing] depth c = depth := by
  have first : [opening].contains c = false := by simpa using opens
  have second : [closing].contains c = false := by simpa using closes
  unfold Line.depthStep
  rw [first, second, if_neg Bool.false_ne_true, Int.add_zero, Int.sub_zero]

theorem closingFrom_cons (depth : Int) (offset : Nat) (c : Char) (rest : Line)
    (positive : Line.depthStep [opening] [closing] depth c ≠ 0) :
    Line.closingFrom [opening] [closing] depth offset (c :: rest) =
      Line.closingFrom [opening] [closing] (Line.depthStep [opening] [closing] depth c)
        (offset + 1) rest := by
  rw [Line.closingFrom, if_neg positive]

/-- The count passes over balanced text. -/
theorem closingFrom_balanced (distinct : opening ≠ closing) {inner : Line}
    (balanced : Balanced opening closing inner) {depth : Int} (positive : 0 < depth)
    (offset : Nat) (tail : Line) :
    Line.closingFrom [opening] [closing] depth offset (inner ++ tail) =
      Line.closingFrom [opening] [closing] depth (offset + inner.length) tail := by
  induction balanced generalizing depth offset tail with
  | empty => rfl
  | @plain c rest opens closes _ ih =>
      have same := depthStep_plain opens closes depth
      rw [List.cons_append, closingFrom_cons _ _ _ _ (by omega), same, ih positive,
        List.length_cons, Nat.add_right_comm, Nat.add_assoc]
  | @group inner rest _ _ inside outside =>
      have up := depthStep_opening distinct depth
      have down := depthStep_closing distinct (depth + 1)
      rw [List.cons_append, closingFrom_cons _ _ _ _ (by omega), up, List.append_assoc,
        inside (by omega), List.cons_append, closingFrom_cons _ _ _ _ (by omega), down,
        Int.add_sub_cancel, outside positive]
      congr 1
      simp only [List.length_cons, List.length_append]
      omega

/-- A count that falls to zero leaves the first closing bracket of its depth behind balanced
text. -/
theorem exists_balanced_of_closingFrom (distinct : opening ≠ closing) {line : Line} {depth : Int}
    (positive : 0 < depth) {offset stop : Nat}
    (found : Line.closingFrom [opening] [closing] depth offset line = some stop) :
    ∃ inner tail, Balanced opening closing inner ∧ line = inner ++ closing :: tail ∧
      (depth = 1 → stop = offset + inner.length) ∧
      (1 < depth → Line.closingFrom [opening] [closing] (depth - 1)
        (offset + inner.length + 1) tail = some stop) := by
  induction size : line.length using Nat.strong_induction_on generalizing line depth offset with
  | _ size ih =>
      cases line with
      | nil => cases found
      | cons c rest =>
          subst size
          by_cases closes : c = closing
          · subst closes
            refine ⟨[], rest, .empty, rfl, fun one => ?_, fun more => ?_⟩
            · rw [Line.closingFrom, depthStep_closing distinct, if_pos (by omega)] at found
              exact (Option.some.inj found).symm
            · rw [closingFrom_cons _ _ _ _ (by rw [depthStep_closing distinct]; omega),
                depthStep_closing distinct] at found
              exact found
          by_cases opens : c = opening
          · subst opens
            -- the group closes first, and what follows it still stands at the first depth
            rw [closingFrom_cons _ _ _ _ (by rw [depthStep_opening distinct]; omega),
              depthStep_opening distinct] at found
            obtain ⟨first, middle, inside, rfl, -, later⟩ :=
              ih rest.length (Nat.lt_succ_self _) (by omega) found rfl
            have next := later (by omega)
            rw [Int.add_sub_cancel] at next
            obtain ⟨second, tail, outside, rfl, last, deeper⟩ :=
              ih middle.length (by simp only [List.length_append, List.length_cons]; omega)
                positive next rfl
            refine ⟨c :: (first ++ closing :: second), tail, .group inside outside, by simp,
              fun one => ?_, fun more => ?_⟩
            · rw [last one]
              simp only [List.length_cons, List.length_append]
              omega
            · have result := deeper more
              have place : offset + (c :: (first ++ closing :: second)).length + 1 =
                  offset + 1 + first.length + 1 + second.length + 1 := by
                simp only [List.length_cons, List.length_append]
                omega
              rw [place]
              exact result
          · have same := depthStep_plain opens closes depth
            rw [closingFrom_cons _ _ _ _ (by omega), same] at found
            obtain ⟨inner, tail, balanced, rfl, last, deeper⟩ :=
              ih rest.length (Nat.lt_succ_self _) positive found rfl
            refine ⟨c :: inner, tail, .plain opens closes balanced, rfl, fun one => ?_,
              fun more => ?_⟩
            · rw [last one, List.length_cons]
              omega
            · have place : offset + (c :: inner).length + 1 = offset + 1 + inner.length + 1 := by
                rw [List.length_cons]
                omega
              rw [place]
              exact deeper more

/-- The count finds exactly the bracket that the grammar gives. -/
theorem closingFrom_eq_some_iff (distinct : opening ≠ closing) (offset stop : Nat) (rest : Line) :
    Line.closingFrom [opening] [closing] 0 offset (opening :: rest) = some stop ↔
      ∃ inner tail, Encloses opening closing (opening :: rest) inner tail ∧
        stop = offset + inner.length + 1 := by
  have up := depthStep_opening distinct 0
  rw [closingFrom_cons _ _ _ _ (by omega), up]
  constructor
  · intro found
    obtain ⟨inner, tail, balanced, rfl, last, -⟩ :=
      exists_balanced_of_closingFrom distinct (by omega) found
    exact ⟨inner, tail, ⟨balanced, rfl⟩, by rw [last rfl]; omega⟩
  · rintro ⟨inner, tail, ⟨balanced, same⟩, rfl⟩
    rw [(List.cons.inj same).2, closingFrom_balanced distinct balanced (by omega),
      Line.closingFrom, depthStep_closing distinct, if_pos (by omega)]
    congr 1
    omega

theorem closingFrom_eq_none_iff (distinct : opening ≠ closing) (offset : Nat) (rest : Line) :
    Line.closingFrom [opening] [closing] 0 offset (opening :: rest) = none ↔
      Unclosed opening closing (opening :: rest) := by
  constructor
  · intro missing
    refine ⟨rfl, fun inner tail encloses => ?_⟩
    have found := (closingFrom_eq_some_iff distinct offset (offset + inner.length + 1) rest).mpr
      ⟨inner, tail, encloses, rfl⟩
    rw [missing] at found
    cases found
  · rintro ⟨-, open_⟩
    cases found : Line.closingFrom [opening] [closing] 0 offset (opening :: rest) with
    | none => rfl
    | some stop =>
        obtain ⟨inner, tail, encloses, -⟩ :=
          (closingFrom_eq_some_iff distinct offset stop rest).mp found
        exact absurd encloses (open_ inner tail)

/-- A text has one group at its start at most. -/
theorem Encloses.unique (distinct : opening ≠ closing) {text first second before after : Line}
    (left : Encloses opening closing text first before)
    (right : Encloses opening closing text second after) : first = second ∧ before = after := by
  obtain ⟨inside, rfl⟩ := left
  have one := (closingFrom_eq_some_iff distinct 0 _ _).mpr ⟨first, before, ⟨inside, rfl⟩, rfl⟩
  have two := (closingFrom_eq_some_iff distinct 0 _ _).mpr ⟨second, after, right, rfl⟩
  have same : first.length = second.length := by
    have := Option.some.inj (one.symm.trans two)
    omega
  obtain ⟨start, rest⟩ := List.append_inj (List.cons.inj right.2).2 same
  exact ⟨start, (List.cons.inj rest).2⟩

end Brackets
