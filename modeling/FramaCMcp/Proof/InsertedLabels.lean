/-
This file shows that no inserted clause is recognised under the label that was drawn for it.
-/

import FramaCMcp.Construction.Injection
import FramaCMcp.Foundation.Lexemes

namespace FramaCMcp.Annotations

inductive ClauseKind where
  | requires | ensures | assigns | terminates | decreases | exits
  | completeBehaviors | disjointBehaviors
  | loopInvariant | loopAssigns | loopVariant | assertion
  deriving DecidableEq, Repr

def ClauseKind.keyword : ClauseKind → String
  | .requires => "requires"
  | .ensures => "ensures"
  | .assigns => "assigns"
  | .terminates => "terminates"
  | .decreases => "decreases"
  | .exits => "exits"
  | .completeBehaviors => "complete behaviors"
  | .disjointBehaviors => "disjoint behaviors"
  | .loopInvariant => "loop invariant"
  | .loopAssigns => "loop assigns"
  | .loopVariant => "loop variant"
  | .assertion => "assert"

/-- An inserted clause is printed with its label between the keyword and the predicate. -/
def printedClause (clause : ClauseKind) (label predicate : String) : String :=
  clause.keyword ++ " " ++ label ++ ": " ++ predicate

/-- The clause that was inserted under the drawn label has the compared text of the planned one. -/
def Recognised (clause : ClauseKind) (kind : String) (userLabel : Option String)
    (planned predicate : String) (drawn : RandomHex) : Prop :=
  normalizeForComparison
      (printedClause clause (fullLabel (generateHashLabel kind drawn) userLabel) predicate) =
    normalizeForComparison planned

section Leads

/-- A text of this kind has no mark that the comparison looks for. -/
structure QuietLead (lead : List Char) : Prop where
  filled : lead ≠ []
  started : ∀ letter ∈ lead.head?, Text.isWhitespace letter = false
  stopped : ∀ letter ∈ lead.getLast?, Text.isWhitespace letter = false
  quiet : ∀ letter ∈ lead, letter ≠ ',' ∧ letter ≠ ';'

theorem labelMatchLength_of_ne {letter : Char} (other : letter ≠ ',') (previous : Option Char)
    (rest : List Char) : labelMatchLength previous (letter :: rest) = 0 := by
  rw [labelMatchLength]
  rintro rest same
  exact other (List.cons.inj same).1

/-- A quiet text in front is compared as it stands. -/
theorem toList_normalizeForComparison_append {lead : List Char} (quiet : QuietLead lead)
    (rest : List Char) :
    ∃ tail, (normalizeForComparison (String.ofList (lead ++ rest))).toList = lead ++ tail := by
  have kept := Replacement.erase_append (fun letter member =>
    labelMatchLength_of_ne (quiet.quiet letter member).1) rest
  have before : ∀ letter ∈ lead, (letter != ';') = true := fun letter member =>
    bne_iff_ne.mpr (quiet.quiet letter member).2
  rw [normalizeForComparison, trim, String.toList_ofList, String.toList_ofList,
    String.toList_ofList, kept, List.takeWhile_append_of_pos before,
    Line.trim_append quiet.filled quiet.started quiet.stopped]
  exact ⟨_, rfl⟩

theorem isWordChar_of_isLowerHex {letter : Char} (hex : WpClass.isLowerHex letter = true) :
    Lexeme.isWordChar letter = true := by
  simp only [WpClass.isLowerHex, Bool.or_eq_true, Bool.and_eq_true, decide_eq_true_eq] at hex
  rw [Lexeme.isWordChar, Bool.or_eq_true]
  rcases hex with digit | ⟨low, high⟩
  · exact .inl (by rw [Char.isAlphanum, digit, Bool.or_true])
  · have bound : letter.toNat ≤ 102 := high
    exact .inl (Text.isAlphanum_iff.mpr (.inl (.inr ⟨low, bound.trans (by decide)⟩)))

theorem quietLead_append_digits {front : List Char} (drawn : RandomHex)
    (filled : front ≠ []) (started : ∀ letter ∈ front.head?, Text.isWhitespace letter = false)
    (quiet : ∀ letter ∈ front, letter ≠ ',' ∧ letter ≠ ';') :
    QuietLead (front ++ drawn.digits) := by
  have word : ∀ letter ∈ drawn.digits, Lexeme.isWordChar letter = true := fun letter member =>
    isWordChar_of_isLowerHex (List.all_eq_true.mp drawn.hex letter member)
  have some : drawn.digits ≠ [] := by
    intro none
    have eight := drawn.eight
    rw [none] at eight
    cases eight
  refine ⟨List.append_ne_nil_of_left_ne_nil filled _, ?_, ?_, ?_⟩
  · intro letter first
    refine started letter ?_
    rwa [List.head?_append_of_ne_nil _ filled] at first
  · intro letter last
    rw [List.getLast?_append_of_ne_nil _ some] at last
    by_contra space
    have none := Lexeme.not_isWordChar_of_isWhitespace (Bool.not_eq_false _ ▸ space)
    rw [word letter (List.mem_of_getLast? last)] at none
    cases none
  · intro letter member
    rcases List.mem_append.mp member with member | member
    · exact quiet letter member
    · have black := word letter member
      constructor <;> rintro rfl <;> cases black

end Leads

section LabelledLeads

variable (clause : ClauseKind) (kind : String)

/-- This is the text in front of a printed clause. -/
def labelledLead (drawn : RandomHex) : String :=
  clause.keyword ++ " " ++ generateHashLabel kind drawn

theorem toList_labelledLead (drawn : RandomHex) :
    (labelledLead clause kind drawn).toList =
      (clause.keyword ++ " " ++ labelPrefixOf kind ++ "_").toList ++ drawn.digits := by
  simp only [labelledLead, generateHashLabel, String.toList_append, String.toList_ofList,
    List.append_assoc]

/-- The label decides how the printed clause starts. -/
theorem printedClause_eq (drawn : RandomHex) (userLabel : Option String) (predicate : String) :
    ∃ rest, printedClause clause (fullLabel (generateHashLabel kind drawn) userLabel) predicate =
      labelledLead clause kind drawn ++ rest := by
  cases userLabel with
  | none => exact ⟨": " ++ predicate, by simp only [printedClause, fullLabel, labelledLead, String.append_assoc]⟩
  | some userLabel =>
      exact ⟨"_" ++ userLabel ++ ": " ++ predicate, by
        simp only [printedClause, fullLabel, labelledLead, String.append_assoc]⟩

def isQuiet (text : String) : Bool := text.toList.all fun letter => letter != ',' && letter != ';'

theorem ne_of_isQuiet {text : String} (quiet : isQuiet text = true) :
    ∀ letter ∈ text.toList, letter ≠ ',' ∧ letter ≠ ';' := by
  intro letter member
  have apart := List.all_eq_true.mp quiet letter member
  rwa [Bool.and_eq_true, bne_iff_ne, bne_iff_ne] at apart

theorem quiet_labelPrefixOf (kind : String) : isQuiet (labelPrefixOf kind) = true := by
  unfold labelPrefixOf
  split <;> decide

theorem quietLead_labelledLead (drawn : RandomHex) :
    QuietLead (labelledLead clause kind drawn).toList := by
  obtain ⟨⟨filled, started⟩, quiet⟩ : (clause.keyword.toList ≠ [] ∧
      ∀ letter ∈ clause.keyword.toList.head?, Text.isWhitespace letter = false) ∧
      isQuiet clause.keyword = true := by
    cases clause <;> refine ⟨⟨by decide, ?_⟩, by decide⟩ <;> rintro _ ⟨⟩ <;> decide
  have leads := quiet_labelPrefixOf kind
  rw [toList_labelledLead]
  simp only [String.toList_append, List.append_assoc]
  rw [← List.append_assoc, ← List.append_assoc, ← List.append_assoc]
  refine quietLead_append_digits drawn ?_ ?_ ?_
  · exact List.append_ne_nil_of_right_ne_nil _ (by decide)
  · intro letter first
    rw [List.append_assoc, List.append_assoc, List.head?_append_of_ne_nil _ filled] at first
    exact started letter first
  · intro letter member
    simp only [List.mem_append] at member
    rcases member with ((member | member) | member) | member
    · exact ne_of_isQuiet quiet letter member
    · obtain rfl := List.mem_singleton.mp member
      decide
    · exact ne_of_isQuiet leads letter member
    · obtain rfl := List.mem_singleton.mp member
      decide

/-- Only a text that carries the drawn label already is compared as equal. -/
theorem lead_of_recognised {userLabel : Option String} {planned predicate : String}
    {drawn : RandomHex} (recognised : Recognised clause kind userLabel planned predicate drawn) :
    (labelledLead clause kind drawn).toList <+: (normalizeForComparison planned).toList := by
  obtain ⟨rest, printed⟩ := printedClause_eq clause kind drawn userLabel predicate
  obtain ⟨tail, same⟩ := toList_normalizeForComparison_append
    (quietLead_labelledLead clause kind drawn) rest.toList
  rw [Recognised, printed] at recognised
  rw [← String.toList_append, String.ofList_toList, recognised] at same
  exact ⟨tail, same.symm⟩

/-- At most one draw is recognised. -/
theorem recognised_unique {userLabel : Option String} {planned predicate : String}
    {first second : RandomHex}
    (one : Recognised clause kind userLabel planned predicate first)
    (other : Recognised clause kind userLabel planned predicate second) :
    first.digits = second.digits := by
  have leads := List.prefix_of_prefix_length_le (lead_of_recognised clause kind one)
    (lead_of_recognised clause kind other) (by
      simp only [toList_labelledLead, List.length_append, first.eight, second.eight, le_refl])
  rw [toList_labelledLead, toList_labelledLead, List.prefix_append_right_inj] at leads
  exact leads.eq_of_length (by rw [first.eight, second.eight])

/-- No clause is recognised under every label that is drawn for it, and a draw under which it is
recognised stands in the planned text already. -/
theorem not_always_recognised (userLabel : Option String) (planned predicate : String) :
    (¬ ∀ drawn, Recognised clause kind userLabel planned predicate drawn) ∧
    ∀ drawn, Recognised clause kind userLabel planned predicate drawn →
      (labelledLead clause kind drawn).toList <+: (normalizeForComparison planned).toList := by
  refine ⟨fun always => ?_, fun drawn => lead_of_recognised clause kind⟩
  have same := recognised_unique clause kind
    (always ⟨List.replicate 8 '0', by decide, by decide⟩)
    (always ⟨List.replicate 8 '1', by decide, by decide⟩)
  exact absurd same (by decide)

end LabelledLeads

/-- A labelled precondition is planned a second time. -/
theorem not_recognised : ¬ ∀ (clause : ClauseKind) (kind : String) (userLabel : Option String)
    (predicate : String) (drawn : RandomHex),
    Recognised clause kind userLabel (clause.keyword ++ " " ++ predicate ++ ";") predicate drawn := by
  intro always
  have same := always .requires "spec" (some "Req0") "x > 0"
    ⟨"0123abcd".toList, by decide, by decide⟩
  rw [Recognised] at same
  exact absurd same (by decide)

end FramaCMcp.Annotations
