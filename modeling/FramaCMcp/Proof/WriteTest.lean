/-
This file shows on which lines the write test ends.
-/

import FramaCMcp.Construction.Actions
import FramaCMcp.Foundation.Brackets
import Mathlib.Data.List.DropRight

namespace FramaCMcp.Concurrency

open Brackets Fixpoint Relation

/-- This is what follows a field selector. -/
def afterSelector (rest : Line) : Line :=
  Line.trimStart
    ((Line.trimStart (rest.dropWhile fun c => ['.', '-', '>'].contains c)).dropWhile isTail)

/-- A complete subscript or a field selector leads from the first text to the second. -/
inductive Follows : Line → Line → Prop where
  | subscript {rest inner tail : Line} (whole : Encloses '[' ']' rest inner tail) :
      Follows rest (Line.trimStart tail)
  | selector {rest : Line}
      (selects : (Line.startsWith rest "." || Line.startsWith rest "->") = true) :
      Follows rest (afterSelector rest)

section Suffixes

variable {rest inner tail : Line}

theorem startsWith_bracket : Line.startsWith rest "[" = true ↔ rest.head? = some '[' := by
  cases rest with
  | nil => exact iff_of_false (by decide) (by decide)
  | cons c rest =>
      rw [Line.startsWith, List.isPrefixOf_iff_prefix, List.head?_cons, Option.some.injEq]
      exact ⟨fun lead => (List.cons_prefix_cons.mp lead).1.symm,
        fun same => List.cons_prefix_cons.mpr ⟨same.symm, List.nil_prefix⟩⟩

theorem trimStart_length_le (line : Line) : (Line.trimStart line).length ≤ line.length :=
  (List.dropWhile_sublist _).length_le

theorem drop_takeWhile (test : Char → Bool) (line : Line) :
    line.drop (line.takeWhile test).length = line.dropWhile test := by
  induction line with
  | nil => rfl
  | cons c rest ih =>
      by_cases first : test c = true
      · rw [List.takeWhile_cons_of_pos first, List.dropWhile_cons_of_pos first, List.length_cons,
          List.drop_succ_cons, ih]
      · rw [List.takeWhile_cons_of_neg first, List.dropWhile_cons_of_neg first]
        rfl

theorem stepSuffix_subscript (whole : Encloses '[' ']' rest inner tail) :
    stepSuffix rest = Line.trimStart tail := by
  obtain ⟨balanced, rfl⟩ := whole
  have found := (closingFrom_eq_some_iff (by decide) 0 (inner.length + 1)
    (inner ++ ']' :: tail)).mpr ⟨inner, tail, ⟨balanced, rfl⟩, by omega⟩
  have behind : ('[' :: (inner ++ ']' :: tail)).drop (inner.length + 1 + 1) = tail := by
    rw [List.drop_succ_cons, List.drop_append, List.drop_eq_nil_of_le (by omega)]
    simp
  unfold stepSuffix matchingBracket
  rw [List.head?_cons, if_pos rfl, found]
  simp only
  rw [behind]

theorem matchingBracket_unclosed (unclosed : Unclosed '[' ']' rest) :
    matchingBracket rest = none := by
  cases rest with
  | nil => rfl
  | cons c rest =>
      obtain rfl := Option.some.inj unclosed.1
      unfold matchingBracket
      rw [if_pos unclosed.1]
      exact (closingFrom_eq_none_iff (by decide) 0 rest).mpr unclosed

theorem stepSuffix_unmatched (missing : matchingBracket rest = none) :
    stepSuffix rest = afterSelector rest := by
  have trimmed (line : Line) : Line.trimStart (Line.trimStart line) = Line.trimStart line := by
    exact List.dropWhile_idempotent _ line
  unfold stepSuffix afterSelector
  rw [missing]
  simp only
  split_ifs with unnamed
  · rw [← drop_takeWhile isTail, unnamed, List.length_nil, List.drop_zero, trimmed]
  · rw [drop_takeWhile]

theorem stepSuffix_unclosed (unclosed : Unclosed '[' ']' rest) : stepSuffix rest = rest := by
  rw [stepSuffix_unmatched (matchingBracket_unclosed unclosed)]
  obtain ⟨opens, -⟩ := unclosed
  cases rest with
  | nil => cases opens
  | cons c rest =>
      obtain rfl := Option.some.inj opens
      rfl

/-- A selector consumes its own first character. -/
theorem afterSelector_length_lt
    (selects : (Line.startsWith rest "." || Line.startsWith rest "->") = true) :
    (afterSelector rest).length < rest.length := by
  have shorter (line : Line) :
      (Line.trimStart ((Line.trimStart line).dropWhile isTail)).length ≤ line.length :=
    ((List.dropWhile_sublist _).trans
      ((List.dropWhile_sublist _).trans (List.dropWhile_sublist _))).length_le
  cases rest with
  | nil => cases selects
  | cons c rest =>
      have mark : ['.', '-', '>'].contains c = true := by
        rcases Bool.or_eq_true_iff.mp selects with dot | arrow
        · rw [← (List.cons_prefix_cons.mp (List.isPrefixOf_iff_prefix.mp dot)).1]
          rfl
        · rw [← (List.cons_prefix_cons.mp (List.isPrefixOf_iff_prefix.mp arrow)).1]
          rfl
      unfold afterSelector
      rw [List.dropWhile_cons_of_pos mark, List.length_cons]
      exact Nat.lt_succ_of_le ((shorter _).trans (List.dropWhile_sublist _).length_le)

/-- A bracket that its line closes is consumed with what it encloses. -/
theorem subscript_length_lt (whole : Encloses '[' ']' rest inner tail) :
    (Line.trimStart tail).length < rest.length := by
  obtain ⟨-, rfl⟩ := whole
  have less := trimStart_length_le tail
  simp only [List.length_cons, List.length_append]
  omega

theorem selector_unmatched
    (selects : (Line.startsWith rest "." || Line.startsWith rest "->") = true) :
    matchingBracket rest = none := by
  unfold matchingBracket
  rw [if_neg]
  intro bracket
  cases rest with
  | nil => cases bracket
  | cons c rest =>
      obtain rfl := Option.some.inj bracket
      cases selects

/-- The loop goes on at a bracket with its closing bracket, at one without and at a selector. -/
theorem opensSuffix_iff : opensSuffix rest = true ↔
    (∃ inner tail, Encloses '[' ']' rest inner tail) ∨ Unclosed '[' ']' rest ∨
      (Line.startsWith rest "." || Line.startsWith rest "->") = true := by
  unfold opensSuffix
  rw [Bool.or_assoc, Bool.or_eq_true_iff, startsWith_bracket, ← or_assoc]
  refine or_congr_left ⟨fun opens => ?_, ?_⟩
  · by_cases whole : ∃ inner tail, Encloses '[' ']' rest inner tail
    · exact .inl whole
    · exact .inr ⟨opens, fun inner tail encloses => whole ⟨inner, tail, encloses⟩⟩
  · rintro (⟨inner, tail, -, rfl⟩ | ⟨opens, -⟩)
    · rfl
    · exact opens

/-- A round follows a complete suffix or stays at an unclosed bracket. -/
theorem round_iff {later : Line} : Round opensSuffix stepSuffix rest later ↔
    Follows rest later ∨ (Unclosed '[' ']' rest ∧ later = rest) := by
  constructor
  · rintro ⟨opens, rfl⟩
    rcases opensSuffix_iff.mp opens with ⟨inner, tail, whole⟩ | unclosed | selects
    · rw [stepSuffix_subscript whole]
      exact .inl (.subscript whole)
    · exact .inr ⟨unclosed, stepSuffix_unclosed unclosed⟩
    · rw [stepSuffix_unmatched (selector_unmatched selects)]
      exact .inl (.selector selects)
  · rintro (follows | ⟨unclosed, rfl⟩)
    · cases follows with
      | subscript whole =>
          exact ⟨opensSuffix_iff.mpr (.inl ⟨_, _, whole⟩), stepSuffix_subscript whole⟩
      | selector selects =>
          exact ⟨opensSuffix_iff.mpr (.inr (.inr selects)),
            stepSuffix_unmatched (selector_unmatched selects)⟩
    · exact ⟨opensSuffix_iff.mpr (.inr (.inl unclosed)), stepSuffix_unclosed unclosed⟩

theorem Follows.length_lt {later : Line} (follows : Follows rest later) :
    later.length < rest.length := by
  cases follows with
  | subscript whole => exact subscript_length_lt whole
  | selector selects => exact afterSelector_length_lt selects

/-- A round keeps exactly the texts that start with an unclosed bracket. -/
theorem round_self_iff : Round opensSuffix stepSuffix rest rest ↔ Unclosed '[' ']' rest := by
  rw [round_iff]
  constructor
  · rintro (follows | ⟨unclosed, -⟩)
    · exact absurd follows.length_lt (Nat.lt_irrefl _)
    · exact unclosed
  · exact fun unclosed => .inr ⟨unclosed, rfl⟩

/-- The rounds that stay do not matter for what the loop leads to. -/
theorem rounds_iff {later : Line} :
    ReflTransGen (Round opensSuffix stepSuffix) rest later ↔ ReflTransGen Follows rest later := by
  constructor
  · intro rounds
    induction rounds with
    | refl => exact .refl
    | tail _ round ih =>
        rcases round_iff.mp round with follows | ⟨-, rfl⟩
        · exact ih.tail follows
        · exact ih
  · intro path
    exact ReflTransGen.mono (fun _ _ follows => round_iff.mpr (.inl follows)) _ _ path

theorem stepSuffix_shorter (opens : opensSuffix rest = true) :
    stepSuffix rest = rest ∨ (stepSuffix rest).length < rest.length := by
  rcases round_iff.mp ⟨opens, rfl⟩ with follows | ⟨-, same⟩
  · exact .inr follows.length_lt
  · exact .inl same

/-- The loop ends where no unclosed bracket follows through complete suffixes. -/
theorem suffixLoop_ends_iff (rest : Line) :
    (∃ last, Ends (fun rounds => whileLoop opensSuffix stepSuffix rounds rest) last) ↔
      ∀ later, ReflTransGen Follows rest later → ¬ Unclosed '[' ']' later := by
  rw [whileLoop_ends_iff List.length (fun _ => stepSuffix_shorter)]
  simp only [rounds_iff, round_self_iff]

end Suffixes

/-- The write test ends where an operator stands before the identifier or no unclosed bracket
follows it, and one round of its loop consumes text except at such a bracket. -/
theorem isWrittenWithin_ends_iff (line : Line) (start stop : Nat) :
    (∀ rest, opensSuffix rest = true →
      ((stepSuffix rest).length < rest.length ↔ ¬ Unclosed '[' ']' rest)) ∧
    ((∃ written, Ends (fun rounds => isWrittenWithin rounds line start stop) written) ↔
      (steppedBefore line start = true ∨
        ∀ later, ReflTransGen Follows (Line.trimStart (line.drop stop)) later →
          ¬ Unclosed '[' ']' later)) := by
  refine ⟨fun rest opens => ⟨fun shorter unclosed => ?_, fun closed => ?_⟩, ?_⟩
  · rw [stepSuffix_unclosed unclosed] at shorter
    exact Nat.lt_irrefl _ shorter
  · rcases stepSuffix_shorter opens with same | shorter
    · exact absurd (round_self_iff.mp ⟨opens, same⟩) closed
    · exact shorter
  · unfold isWrittenWithin
    by_cases before : steppedBefore line start = true
    · simp only [if_pos before]
      exact iff_of_true ⟨true, Ends.pure true⟩ (.inl before)
    · simp only [if_neg before]
      rw [or_iff_right before, ← suffixLoop_ends_iff]
      constructor
      · rintro ⟨written, enough, found⟩
        obtain ⟨last, ended, -⟩ := Option.map_eq_some_iff.mp (found enough le_rfl)
        exact ⟨last, whileLoop_ends ended⟩
      · rintro ⟨last, enough, found⟩
        exact ⟨writtenBy last, enough, fun rounds more => by
          simp only [found rounds more, Option.map_some]⟩

/-- The test of a name whose subscript goes on in the next line never ends. -/
theorem not_isWrittenWithin_ends : ¬ ∀ line : Line, ∀ token ∈ identifiers line, ∃ written,
    Ends (fun rounds => isWrittenWithin rounds line token.start
      (token.start + token.name.length)) written := by
  intro always
  obtain ⟨written, enough, found⟩ := always "x = table[".toList ⟨4, "table"⟩ (by decide)
  have stuck : whileLoop opensSuffix stepSuffix enough ['['] = none :=
    whileLoop_stuck .refl ⟨rfl, by decide⟩ enough
  have ended : (whileLoop opensSuffix stepSuffix enough ['[']).map writtenBy = some written :=
    found enough le_rfl
  rw [stuck] at ended
  cases ended

end FramaCMcp.Concurrency
