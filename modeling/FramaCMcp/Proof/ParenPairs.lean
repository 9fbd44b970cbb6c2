/-
This file shows that the one pass over a line pairs each opening bracket as the search from that
bracket does.
-/

import FramaCMcp.Construction.Tokens
import FramaCMcp.Foundation.Brackets

namespace FramaCMcp.Concurrency

open Line (closingFrom matching)

/-- The brackets that wait for a closing bracket stand before the offset, each at its own place. -/
structure Waiting (offset : Nat) (unclosed : List Nat) : Prop where
  distinct : unclosed.Nodup
  earlier : ∀ start ∈ unclosed, start < offset

section Stack

variable {offset start : Nat} {unclosed others : List Nat}

theorem Waiting.empty (offset : Nat) : Waiting offset [] :=
  ⟨List.nodup_nil, fun _ member => absurd member List.not_mem_nil⟩

theorem Waiting.next (waiting : Waiting offset unclosed) : Waiting (offset + 1) unclosed :=
  ⟨waiting.distinct, fun start member => Nat.lt_succ_of_lt (waiting.earlier start member)⟩

theorem Waiting.push (waiting : Waiting offset unclosed) :
    Waiting (offset + 1) (offset :: unclosed) where
  distinct := by
    refine List.nodup_cons.mpr ⟨fun member => ?_, waiting.distinct⟩
    exact absurd (waiting.earlier offset member) (Nat.lt_irrefl offset)
  earlier := by
    intro start member
    rcases List.mem_cons.mp member with rfl | older
    · exact Nat.lt_succ_self start
    · exact waiting.next.earlier start older

theorem Waiting.pop (waiting : Waiting offset (start :: others)) : Waiting (offset + 1) others where
  distinct := (List.nodup_cons.mp waiting.distinct).2
  earlier := fun other member => waiting.next.earlier other (List.mem_cons_of_mem start member)

theorem Waiting.ne_of_mem {other : Nat} (waiting : Waiting offset (start :: others))
    (member : other ∈ others) : other ≠ start := by
  rintro rfl
  exact (List.nodup_cons.mp waiting.distinct).1 member

end Stack

section Scan

variable (offset : Nat) (unclosed : List Nat) (rest : Line)

theorem parenPairsFrom_opening :
    parenPairsFrom offset unclosed ('(' :: rest) =
      parenPairsFrom (offset + 1) (offset :: unclosed) rest := rfl

theorem parenPairsFrom_unmatched :
    parenPairsFrom offset [] (')' :: rest) = parenPairsFrom (offset + 1) [] rest := by
  rw [parenPairsFrom, if_neg (by decide), if_pos rfl]

theorem parenPairsFrom_closing (start : Nat) :
    parenPairsFrom offset (start :: unclosed) (')' :: rest) =
      (start, offset) :: parenPairsFrom (offset + 1) unclosed rest := by
  rw [parenPairsFrom, if_neg (by decide), if_pos rfl]

theorem parenPairsFrom_plain {c : Char} (opens : c ≠ '(') (closes : c ≠ ')') :
    parenPairsFrom offset unclosed (c :: rest) = parenPairsFrom (offset + 1) unclosed rest := by
  conv => lhs; unfold parenPairsFrom
  simp only [if_neg opens, if_neg closes]

end Scan

/-- A pair starts at a bracket that was open already or at one that the scan still meets. -/
theorem start_of_mem_parenPairsFrom {offset : Nat} {unclosed : List Nat} {rest : Line}
    {pair : Nat × Nat} (member : pair ∈ parenPairsFrom offset unclosed rest) :
    pair.1 ∈ unclosed ∨ offset ≤ pair.1 := by
  induction rest generalizing offset unclosed with
  | nil => exact absurd member List.not_mem_nil
  | cons c rest ih =>
      by_cases opens : c = '('
      · subst opens
        rcases ih member with held | later
        · rcases List.mem_cons.mp held with here | older
          · exact .inr here.ge
          · exact .inl older
        · exact .inr (Nat.le_of_succ_le later)
      by_cases closes : c = ')'
      · subst closes
        cases unclosed with
        | nil =>
            rw [parenPairsFrom_unmatched] at member
            exact (ih member).imp_right Nat.le_of_succ_le
        | cons start others =>
            rw [parenPairsFrom_closing] at member
            rcases List.mem_cons.mp member with rfl | further
            · exact .inl List.mem_cons_self
            · exact (ih further).imp (List.mem_cons_of_mem start) Nat.le_of_succ_le
      · rw [parenPairsFrom_plain _ _ _ opens closes] at member
        exact (ih member).imp_right Nat.le_of_succ_le

/-- No bracket is paired twice, so the pairs are a map. -/
theorem nodup_starts {offset : Nat} {unclosed : List Nat} (waiting : Waiting offset unclosed)
    (rest : Line) : ((parenPairsFrom offset unclosed rest).map Prod.fst).Nodup := by
  induction rest generalizing offset unclosed with
  | nil => exact List.nodup_nil
  | cons c rest ih =>
      by_cases opens : c = '('
      · subst opens
        exact ih waiting.push
      by_cases closes : c = ')'
      · subst closes
        cases unclosed with
        | nil =>
            rw [parenPairsFrom_unmatched]
            exact ih waiting.next
        | cons start others =>
            rw [parenPairsFrom_closing, List.map_cons]
            dsimp only
            refine List.nodup_cons.mpr ⟨fun again => ?_, ih waiting.pop⟩
            obtain ⟨pair, member, rfl⟩ := List.mem_map.mp again
            have older := waiting.earlier pair.1 List.mem_cons_self
            rcases start_of_mem_parenPairsFrom member with held | later
            · exact waiting.ne_of_mem held rfl
            · omega
      · rw [parenPairsFrom_plain _ _ _ opens closes]
        exact ih waiting.next

/-- The search goes one level deeper at an opening bracket. -/
theorem closingFrom_step (depth : Nat) (offset : Nat) (rest : Line) :
    closingFrom ['('] [')'] depth offset ('(' :: rest) =
      closingFrom ['('] [')'] (depth + 1 : Nat) (offset + 1) rest := by
  have up := @Brackets.depthStep_opening '(' ')' (by decide) depth
  rw [Brackets.closingFrom_cons _ _ _ _ (by omega), up, Nat.cast_succ]

/-- The height of the stack above a waiting bracket is the depth that the search from it has
reached. -/
theorem lookup_waiting {rest : Line} {offset start place : Nat} {unclosed : List Nat}
    (waiting : Waiting offset unclosed) (held : unclosed[place]? = some start) :
    (parenPairsFrom offset unclosed rest).lookup start =
      closingFrom ['('] [')'] (place + 1 : Nat) offset rest := by
  induction rest generalizing offset unclosed place with
  | nil => rfl
  | cons c rest ih =>
      by_cases opens : c = '('
      · subst opens
        rw [parenPairsFrom_opening, closingFrom_step]
        exact ih waiting.push (by rwa [List.getElem?_cons_succ])
      by_cases closes : c = ')'
      · subst closes
        have down := @Brackets.depthStep_closing '(' ')' (by decide) (place + 1 : Nat)
        cases unclosed with
        | nil => cases held
        | cons top others =>
            rw [parenPairsFrom_closing, List.lookup_cons]
            cases place with
            | zero =>
                -- the bracket on top of the stack is closed here
                obtain rfl : top = start := Option.some.inj held
                rw [closingFrom, if_pos (by rw [down]; rfl), BEq.rfl]
            | succ below =>
                rw [List.getElem?_cons_succ] at held
                have other := waiting.ne_of_mem (List.mem_of_getElem? held)
                have height : ((below + 1 + 1 : Nat) : Int) - 1 = (below + 1 : Nat) := by omega
                rw [height] at down
                rw [beq_eq_false_iff_ne.mpr other, Brackets.closingFrom_cons _ _ _ _ (by omega),
                  down]
                exact ih waiting.pop held
      · have same := Brackets.depthStep_plain opens closes (place + 1 : Nat)
        rw [parenPairsFrom_plain _ _ _ opens closes,
          Brackets.closingFrom_cons _ _ _ _ (by omega), same]
        exact ih waiting.next held

/-- What stands open before a bracket does not change the bracket that it is paired with. -/
theorem lookup_opening {rest : Line} {offset place : Nat} {unclosed : List Nat}
    (waiting : Waiting offset unclosed) (opens : rest[place]? = some '(') :
    (parenPairsFrom offset unclosed rest).lookup (offset + place) =
      closingFrom ['('] [')'] 0 (offset + place) (rest.drop place) := by
  induction rest generalizing offset unclosed place with
  | nil => cases opens
  | cons c rest ih =>
      cases place with
      | zero =>
          obtain rfl : c = '(' := Option.some.inj opens
          rw [parenPairsFrom_opening, List.drop_zero]
          exact (lookup_waiting waiting.push rfl).trans (closingFrom_step 0 offset rest).symm
      | succ before =>
          rw [List.getElem?_cons_succ] at opens
          rw [List.drop_succ_cons, Nat.add_succ, ← Nat.succ_add]
          by_cases first : c = '('
          · subst first
            rw [parenPairsFrom_opening]
            exact ih waiting.push opens
          by_cases closes : c = ')'
          · subst closes
            cases unclosed with
            | nil =>
                rw [parenPairsFrom_unmatched]
                exact ih waiting.next opens
            | cons start others =>
                have older := waiting.earlier start List.mem_cons_self
                have other : offset.succ + before ≠ start := by omega
                rw [parenPairsFrom_closing, List.lookup_cons, beq_eq_false_iff_ne.mpr other]
                exact ih waiting.pop opens
          · rw [parenPairsFrom_plain _ _ _ first closes]
            exact ih waiting.next opens

/-- The pass over the line gives each opening bracket the closing bracket that the search from it
finds, and none where the search finds none. -/
theorem parenPairs_lookup {text : Line} {opening : Nat} (opens : text[opening]? = some '(') :
    ((parenPairs text).map Prod.fst).Nodup ∧
      (parenPairs text).lookup opening = matching text opening := by
  have found := lookup_opening (Waiting.empty 0) opens
  rw [Nat.zero_add] at found
  exact ⟨nodup_starts (Waiting.empty 0) text, found⟩

/-- The line has a closing bracket too many before the pair and an opening one too many after. -/
theorem parenPairs_lookup_unbalanced :
    "f) (a(b) (".toList[3]? = some '(' ∧ "f) (a(b) (".toList[5]? = some '(' ∧
      (parenPairs "f) (a(b) (".toList).lookup 3 = matching "f) (a(b) (".toList 3 ∧
      (parenPairs "f) (a(b) (".toList).lookup 5 = matching "f) (a(b) (".toList 5 :=
  ⟨rfl, rfl, (parenPairs_lookup rfl).2, (parenPairs_lookup rfl).2⟩

end FramaCMcp.Concurrency
