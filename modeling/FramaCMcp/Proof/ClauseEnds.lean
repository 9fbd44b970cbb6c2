/-
This file shows which texts are wrapped into a clause with one semicolon and one keyword.
-/

import Mathlib.Data.List.Infix
import FramaCMcp.Construction.Clauses

namespace FramaCMcp.Annotations

/-- A text ends in blanks and semicolons. -/
def isEnd (letter : Char) : Bool := Text.isWhitespace letter || letter == ';'

/-- The letters come from the last one on. A blank closes a group of semicolons. -/
def groupsFrom (inside : Bool) : List Char → Nat
  | [] => 0
  | letter :: rest =>
      if letter = ';' then (if inside then 0 else 1) + groupsFrom true rest
      else if Text.isWhitespace letter then groupsFrom false rest
      else 0

def semicolonGroups (text : String) : Nat := groupsFrom false text.toList.reverse

theorem not_isWhitespace_semicolon : Text.isWhitespace ';' = false := by decide

section Groups

variable {inside : Bool} {letters blanks : List Char}

theorem groupsFrom_dropWhile_isWhitespace :
    groupsFrom false (letters.dropWhile Text.isWhitespace) = groupsFrom false letters := by
  induction letters with
  | nil => rfl
  | cons letter rest ih =>
      rw [List.dropWhile_cons]
      split_ifs with blank
      · have other : letter ≠ ';' := fun same => by
          rw [same, not_isWhitespace_semicolon] at blank
          cases blank
        rw [ih, groupsFrom, if_neg other, if_pos blank]
      · rfl

theorem groupsFrom_dropWhile_semicolon :
    groupsFrom true (letters.dropWhile [';'].contains) = groupsFrom true letters := by
  induction letters with
  | nil => rfl
  | cons letter rest ih =>
      rw [List.dropWhile_cons]
      split_ifs with semicolon
      · have same : letter = ';' := by simpa using semicolon
        rw [ih, groupsFrom, if_pos same, if_pos rfl, Nat.zero_add]
      · rfl

theorem groupsFrom_of_head (first : letters.head? ≠ some ';') :
    groupsFrom true letters = groupsFrom false letters := by
  cases letters with
  | nil => rfl
  | cons letter rest =>
      have other : letter ≠ ';' := fun same => first (congrArg some same)
      rw [groupsFrom, groupsFrom, if_neg other, if_neg other]

theorem groupsFrom_append_blanks (blank : ∀ letter ∈ blanks, Text.isWhitespace letter = true) :
    groupsFrom inside (letters ++ blanks) = groupsFrom inside letters := by
  induction letters generalizing inside with
  | nil =>
      induction blanks generalizing inside with
      | nil => rfl
      | cons letter rest ih =>
          obtain ⟨first, others⟩ := List.forall_mem_cons.mp blank
          have other : letter ≠ ';' := fun same => by
            rw [same, not_isWhitespace_semicolon] at first
            cases first
          have later : groupsFrom false ([] ++ rest) = groupsFrom false [] := ih others
          rw [List.nil_append] at later ⊢
          rw [groupsFrom, groupsFrom, if_neg other, if_pos first, later]
          rfl
  | cons letter rest ih =>
      rw [List.cons_append, groupsFrom, groupsFrom, ih, ih]

/-- Another letter hides what stands before it in the text. -/
theorem groupsFrom_append_cons {letter : Char} (other : isEnd letter = false)
    (rest : List Char) : groupsFrom inside (letters ++ letter :: rest) = groupsFrom inside letters := by
  obtain ⟨blank, semicolon⟩ := Bool.or_eq_false_iff.mp other
  induction letters generalizing inside with
  | nil =>
      rw [List.nil_append, groupsFrom, groupsFrom, if_neg (by simpa using semicolon),
        if_neg (by simp [blank])]
  | cons first later ih => rw [List.cons_append, groupsFrom, groupsFrom, ih, ih]

end Groups

/-- One round takes the blanks and one group of semicolons off. -/
def cut (letters : List Char) : List Char :=
  ((letters.dropWhile Text.isWhitespace).dropWhile [';'].contains).dropWhile Text.isWhitespace

theorem groupsFrom_cut (letters : List Char) :
    groupsFrom false (cut letters) = groupsFrom false letters - 1 := by
  rw [cut, groupsFrom_dropWhile_isWhitespace, ← @groupsFrom_dropWhile_isWhitespace letters]
  have apart (letter : Char) (first : (letters.dropWhile Text.isWhitespace).head? = some letter) :=
    Line.head_dropWhile first
  generalize letters.dropWhile Text.isWhitespace = trimmed at apart
  have stops : (trimmed.dropWhile [';'].contains).head? ≠ some ';' := fun same => by
    have inside := Line.head_dropWhile same
    simp at inside
  rw [← groupsFrom_of_head stops, groupsFrom_dropWhile_semicolon]
  cases trimmed with
  | nil => rfl
  | cons letter rest =>
      have black : Text.isWhitespace letter = false := apart letter rfl
      by_cases semicolon : letter = ';'
      · simp [groupsFrom, semicolon]
      · simp [groupsFrom, semicolon, black]

theorem cut_head (letters : List Char) :
    (∀ letter ∈ (cut letters).head?, isEnd letter = false) ↔ groupsFrom false (cut letters) = 0 := by
  have apart (letter : Char) (first : (cut letters).head? = some letter) :=
    Line.head_dropWhile first
  generalize cut letters = rest at apart
  cases rest with
  | nil => simp [groupsFrom]
  | cons letter rest =>
      have black : Text.isWhitespace letter = false := apart letter rfl
      by_cases semicolon : letter = ';'
      · simp [groupsFrom, isEnd, semicolon]
      · simp [groupsFrom, isEnd, semicolon, black]

theorem dropWhile_isEnd_cut (letters : List Char) :
    (cut letters).dropWhile isEnd = letters.dropWhile isEnd := by
  have skip {test : Char → Bool} (weaker : ∀ letter, test letter = true → isEnd letter = true)
      (letters : List Char) : (letters.dropWhile test).dropWhile isEnd = letters.dropWhile isEnd := by
    induction letters with
    | nil => rfl
    | cons letter rest ih =>
        by_cases holds : test letter = true
        · rw [List.dropWhile_cons_of_pos holds, ih, List.dropWhile_cons_of_pos (weaker letter holds)]
        · rw [List.dropWhile_cons_of_neg holds]
  have blank (letter : Char) (holds : Text.isWhitespace letter = true) : isEnd letter = true := by
    rw [isEnd, holds, Bool.true_or]
  have semicolon (letter : Char) (holds : [';'].contains letter = true) : isEnd letter = true := by
    have same : letter = ';' := by simpa using holds
    rw [isEnd, same]
    rfl
  rw [cut, skip blank, skip semicolon, skip blank]

/-- No blank stands in front. -/
def Started (letters : List Char) : Prop := ∀ letter ∈ letters.head?, Text.isWhitespace letter = false

theorem started_trimStart (letters : List Char) : Started (Line.trimStart letters) :=
  fun _ first => Line.head_dropWhile first

theorem Started.of_lead {first second : List Char} (started : Started second)
    (lead : first <+: second) : Started first := by
  obtain ⟨rest, rfl⟩ := lead
  cases first with
  | nil => exact fun _ none => by cases none
  | cons letter others => exact started

theorem Started.trimStart {letters : List Char} (started : Started letters) :
    Line.trimStart letters = letters := Line.trimStart_of_head started

theorem reverse_dropWhile_lead (test : Char → Bool) (letters : List Char) :
    (letters.dropWhile test).reverse <+: letters.reverse :=
  List.reverse_prefix.mpr (List.dropWhile_suffix test)

/-- A text loses the blanks of its ends and one group of semicolons. -/
def round (text : String) : String := trim (trimEndMatches [';'] (trim text))

theorem toList_round (text : String) :
    (round text).toList =
      (cut (Line.trimStart text.toList).reverse).reverse := by
  have started := started_trimStart text.toList
  have inner : (trimEndMatches [';'] (trim text)).toList =
      (((Line.trimStart text.toList).reverse.dropWhile Text.isWhitespace).dropWhile
        [';'].contains).reverse := by
    rw [trimEndMatches, trim, String.toList_ofList, String.toList_ofList, Line.trim, Line.trimEnd,
      List.reverse_reverse]
  have kept := (reverse_dropWhile_lead [';'].contains _).trans
    (reverse_dropWhile_lead Text.isWhitespace (Line.trimStart text.toList).reverse)
  rw [List.reverse_reverse] at kept
  rw [round, trim, inner, String.toList_ofList, Line.trim, (started.of_lead kept).trimStart, Line.trimEnd,
    List.reverse_reverse, cut]

theorem groupsFrom_trimStart (letters : List Char) :
    groupsFrom false (Line.trimStart letters).reverse = groupsFrom false letters.reverse := by
  have split := List.takeWhile_append_dropWhile (p := Text.isWhitespace) (l := letters)
  rw [← Line.trimStart] at split
  have whole := congrArg List.reverse split
  rw [List.reverse_append] at whole
  have blank : ∀ letter ∈ (letters.takeWhile Text.isWhitespace).reverse,
      Text.isWhitespace letter = true := fun letter member =>
    List.all_eq_true.mp List.all_takeWhile letter (List.mem_reverse.mp member)
  rw [← whole, groupsFrom_append_blanks blank]

/-- Neither a semicolon nor a blank ends the text. -/
def Clean (body : String) : Prop := ∀ letter ∈ body.toList.getLast?, isEnd letter = false

theorem clean_reverse_cut {body : String} {letters : List Char}
    (same : body.toList = (cut letters).reverse) :
    Clean body ↔ groupsFrom false letters ≤ 1 := by
  rw [Clean, same, List.getLast?_reverse, cut_head, groupsFrom_cut]
  omega

/-- The text ends in one semicolon, and nothing of its ends is left before it. -/
def EndsOnce (lead text : String) : Prop := ∃ body, text = lead ++ body ++ ";" ∧ Clean body

theorem append_cancel {lead body tail other : String} :
    lead ++ body ++ tail = lead ++ other ++ tail ↔ body = other := by
  simp [← String.toList_inj]

theorem endsOnce_iff {lead body : String} : EndsOnce lead (lead ++ body ++ ";") ↔ Clean body :=
  ⟨fun ⟨_, same, clean⟩ => append_cancel.mp same ▸ clean, fun clean => ⟨body, rfl, clean⟩⟩

section Normalize

theorem normalizeAcsl_eq (text : String) :
    normalizeAcsl text = "" ++ round text ++ ";" := by
  rw [String.empty_append]
  rfl

theorem clean_normalized (text : String) :
    Clean (round text) ↔ semicolonGroups text ≤ 1 := by
  rw [clean_reverse_cut (toList_round text), groupsFrom_trimStart, semicolonGroups]

theorem Started.append_semicolon {body : String} (started : Started body.toList) :
    Started (body ++ ";").toList := by
  rw [String.toList_append]
  cases letters : body.toList with
  | nil => exact fun letter first => by cases first; decide
  | cons letter rest =>
      rw [letters] at started
      exact started

/-- A clean text that starts with a letter loses only the semicolon that was added. -/
theorem round_append_semicolon {body : String} (started : Started body.toList) (clean : Clean body) :
    round (body ++ ";") = body := by
  refine String.toList_inj.mp ?_
  rw [toList_round, started.append_semicolon.trimStart, String.toList_append, List.reverse_append]
  have black : ∀ letter ∈ body.toList.reverse.head?, isEnd letter = false := by
    rw [List.head?_reverse]
    exact clean
  have last : (";".toList.reverse ++ body.toList.reverse) = ';' :: body.toList.reverse := rfl
  rw [last, cut, List.dropWhile_cons_of_neg (by decide), List.dropWhile_cons_of_pos (by decide)]
  cases letters : body.toList.reverse with
  | nil =>
      rw [List.reverse_eq_nil_iff.mp letters]
      rfl
  | cons letter rest =>
      obtain ⟨blank, semicolon⟩ := Bool.or_eq_false_iff.mp (black letter (by rw [letters]; rfl))
      have other : ¬ [';'].contains letter = true := by simpa using semicolon
      rw [List.dropWhile_cons_of_neg other, List.dropWhile_cons_of_neg (by simp [blank]), ← letters,
        List.reverse_reverse]

theorem started_round (text : String) :
    Started (round text).toList := by
  rw [toList_round]
  refine (started_trimStart text.toList).of_lead ?_
  have suffix : cut (Line.trimStart text.toList).reverse <:+ (Line.trimStart text.toList).reverse :=
    (List.dropWhile_suffix _).trans ((List.dropWhile_suffix _).trans (List.dropWhile_suffix _))
  simpa using List.reverse_prefix.mpr suffix

end Normalize

section Keywords

/-- This is the text without the blanks and semicolons of its end. -/
def strip (letters : List Char) : List Char := (letters.reverse.dropWhile isEnd).reverse

/-- This is the text without its ends. -/
def content (text : String) : List Char := strip (Line.trimStart text.toList)

/-- The keyword stands alone or before white space. -/
def led (keyword letters : List Char) : Bool :=
  keyword.isPrefixOf letters && (letters.drop keyword.length).head?.all Text.isWhitespace

/-- A keyword has letters, and neither a blank nor a semicolon stands at its ends. -/
structure ClauseKeyword where
  text : String
  named : text.toList ≠ []
  started : Started text.toList
  closed : Clean text

theorem strip_lead (letters : List Char) : strip letters <+: letters := by
  have kept := reverse_dropWhile_lead isEnd letters.reverse
  rwa [List.reverse_reverse] at kept

/-- What is taken off are blanks and semicolons. -/
theorem exists_ends (letters : List Char) :
    ∃ ends, letters = strip letters ++ ends ∧ ∀ letter ∈ ends, isEnd letter = true := by
  have split := List.takeWhile_append_dropWhile (p := isEnd) (l := letters.reverse)
  refine ⟨(letters.reverse.takeWhile isEnd).reverse, ?_, fun letter member =>
    List.all_eq_true.mp List.all_takeWhile letter (List.mem_reverse.mp member)⟩
  rw [strip, ← List.reverse_append, split, List.reverse_reverse]

theorem strip_append (first second : List Char) :
    strip (first ++ second) = if strip second = [] then strip first else first ++ strip second := by
  rw [strip, strip, strip, List.reverse_append, List.dropWhile_append]
  by_cases empty : (second.reverse.dropWhile isEnd).isEmpty = true
  · rw [if_pos empty, if_pos (List.reverse_eq_nil_iff.mpr (List.isEmpty_iff.mp empty))]
  · rw [if_neg empty, if_neg fun same => empty (List.isEmpty_iff.mpr (List.reverse_eq_nil_iff.mp same)),
      List.reverse_append, List.reverse_reverse]

theorem strip_of_clean {letters : List Char} (clean : ∀ letter ∈ letters.getLast?, isEnd letter = false) :
    strip letters = letters := Line.reverse_dropWhile_of_last clean

theorem strip_trimStart (letters : List Char) :
    strip (Line.trimStart letters) = Line.trimStart (strip letters) := by
  induction letters with
  | nil => rfl
  | cons letter rest ih =>
      have split : strip (letter :: rest) = if strip rest = [] then strip [letter] else
          letter :: strip rest := strip_append [letter] rest
      by_cases blank : Text.isWhitespace letter = true
      · have ends : strip [letter] = [] := by
          have holds : isEnd letter = true := by rw [isEnd, blank, Bool.true_or]
          simp [strip, holds]
        have skipped : Line.trimStart (letter :: rest) = Line.trimStart rest :=
          List.dropWhile_cons_of_pos blank
        rw [skipped, ih, split, ends]
        split_ifs with empty
        · rw [empty]
        · exact (List.dropWhile_cons_of_pos blank).symm
      · have started : Started (letter :: rest) := fun first same => by
          cases same
          exact Bool.eq_false_of_not_eq_true blank
        rw [started.trimStart, (started.of_lead (strip_lead _)).trimStart]

variable (keyword : ClauseKeyword)

theorem led_append {keyword : List Char} {rest : List Char} :
    led keyword (keyword ++ rest) = rest.head?.all Text.isWhitespace := by
  rw [led, List.isPrefixOf_iff_prefix.mpr (List.prefix_append keyword rest), List.drop_left,
    Bool.true_and]

theorem exists_of_led {keyword letters : List Char} (holds : led keyword letters = true) :
    ∃ rest, letters = keyword ++ rest ∧ rest.head?.all Text.isWhitespace = true := by
  obtain ⟨starts, apart⟩ := Bool.and_eq_true_iff.mp holds
  obtain ⟨rest, rfl⟩ := List.isPrefixOf_iff_prefix.mp starts
  rw [List.drop_left] at apart
  exact ⟨rest, rfl, apart⟩

theorem strip_keyword_append (rest : List Char) :
    strip (keyword.text.toList ++ rest) = keyword.text.toList ++ strip rest := by
  rw [strip_append, strip_of_clean keyword.closed]
  split_ifs with empty
  · rw [empty, List.append_nil]
  · rfl

theorem groupsFrom_keyword_append (rest : List Char) :
    groupsFrom false (keyword.text.toList ++ rest).reverse = groupsFrom false rest.reverse := by
  have clean := keyword.closed
  rw [Clean, ← List.head?_reverse] at clean
  rw [List.reverse_append]
  cases backwards : keyword.text.toList.reverse with
  | nil => rw [List.append_nil]
  | cons letter others =>
      rw [backwards] at clean
      exact groupsFrom_append_cons (clean letter rfl) others

end Keywords

section Wrapping

/-- No blank stands at an end of the text. -/
structure Trimmed (letters : List Char) : Prop where
  started : Started letters
  stopped : ∀ letter ∈ letters.getLast?, Text.isWhitespace letter = false

theorem Trimmed.trim {letters : List Char} (trimmed : Trimmed letters) :
    Line.trim letters = letters := Line.trim_eq_self trimmed.started trimmed.stopped

theorem getLast?_append_of_ne_nil {first second : List Char} (filled : second ≠ []) :
    (first ++ second).getLast? = second.getLast? := by
  rw [List.getLast?_append, List.getLast?_eq_some_getLast filled, Option.some_or]

theorem trimStart_suffix (letters : List Char) : Line.trimStart letters <:+ letters :=
  List.dropWhile_suffix _

theorem getLast?_of_suffix {short long : List Char} (tail : short <:+ long) (filled : short ≠ []) :
    short.getLast? = long.getLast? := by
  obtain ⟨front, rfl⟩ := tail
  exact (getLast?_append_of_ne_nil filled).symm

theorem Trimmed.trimStart_drop {front rest : List Char} (trimmed : Trimmed (front ++ rest)) :
    Trimmed (Line.trimStart rest) := by
  refine ⟨started_trimStart rest, ?_⟩
  intro letter last
  have filled : Line.trimStart rest ≠ [] := fun empty => by
    rw [empty] at last
    cases last
  have tail : Line.trimStart rest <:+ front ++ rest :=
    (trimStart_suffix rest).trans (List.suffix_append front rest)
  exact trimmed.stopped letter (getLast?_of_suffix tail filled ▸ last)

theorem trimmed_round (text : String) :
    Trimmed (round text).toList := by
  refine ⟨started_round text, ?_⟩
  rw [toList_round, List.getLast?_reverse]
  exact fun _ first => Line.head_dropWhile first

variable (keyword : ClauseKeyword)

def behind (keyword letters : List Char) : List Char :=
  if led keyword letters then Line.trimStart (letters.drop keyword.length) else letters

theorem toList_stripLeadingKeyword {body keyword : String} (trimmed : Trimmed body.toList) :
    (stripLeadingKeyword body keyword).toList = behind keyword.toList body.toList := by
  have whole : (trim body).toList = body.toList := by
    rw [trim, String.toList_ofList, trimmed.trim]
  have rewritten : (Text.startsWith (trim body) keyword &&
      ((trim body).toList.drop keyword.length).head?.all Text.isWhitespace) =
        led keyword.toList body.toList := by
    rw [Text.startsWith, whole, led, String.length_toList]
  rw [stripLeadingKeyword, behind]
  simp only [rewritten]
  by_cases leads : led keyword.toList body.toList = true
  · rw [if_pos leads, if_pos leads, trim, String.toList_ofList, String.toList_ofList, whole]
    obtain ⟨rest, same, -⟩ := exists_of_led leads
    rw [← String.length_toList, same, List.drop_left]
    have stopped := (same ▸ trimmed).trimStart_drop.stopped
    rw [Line.trim, Line.trimEnd, Line.reverse_dropWhile_of_last stopped]
  · rw [if_neg leads, if_neg leads, whole]

theorem trimmed_behind {keyword letters : List Char} (trimmed : Trimmed letters) :
    Trimmed (behind keyword letters) := by
  rw [behind]
  split_ifs with leads
  · obtain ⟨rest, rfl, -⟩ := exists_of_led leads
    rw [List.drop_left]
    exact trimmed.trimStart_drop
  · exact trimmed

theorem trimmed_stripLeadingKeyword (keyword text : String) :
    Trimmed (stripLeadingKeyword (round text) keyword).toList := by
  rw [toList_stripLeadingKeyword (trimmed_round text)]
  exact trimmed_behind (trimmed_round text)

theorem clauseBody_eq_round (keyword text : String) :
    clauseBody keyword text = round (stripLeadingKeyword (round text) keyword) := by
  have whole : trim (stripLeadingKeyword (round text) keyword) =
      stripLeadingKeyword (round text) keyword := by
    rw [trim, (trimmed_stripLeadingKeyword keyword text).trim, String.ofList_toList]
  rw [round, whole]
  rfl

/-- Two rounds and the keyword are taken off. -/
theorem toList_clauseBody (keyword text : String) :
    (clauseBody keyword text).toList = (cut (behind keyword.toList
      (cut (Line.trimStart text.toList).reverse).reverse).reverse).reverse := by
  rw [clauseBody_eq_round, toList_round,
    (trimmed_stripLeadingKeyword keyword text).started.trimStart,
    toList_stripLeadingKeyword (trimmed_round text), toList_round]

theorem groupsFrom_behind (letters : List Char) :
    groupsFrom false (behind keyword.text.toList letters).reverse =
      groupsFrom false letters.reverse := by
  rw [behind]
  split_ifs with leads
  · obtain ⟨rest, rfl, -⟩ := exists_of_led leads
    rw [List.drop_left, groupsFrom_trimStart, groupsFrom_keyword_append]
  · rfl

theorem clean_clauseBody (text : String) :
    Clean (clauseBody keyword.text text) ↔ semicolonGroups text ≤ 2 := by
  rw [clean_reverse_cut (toList_clauseBody keyword.text text), groupsFrom_behind,
    List.reverse_reverse, groupsFrom_cut, groupsFrom_trimStart, semicolonGroups]
  omega

theorem reverse_cut_of_groups {letters : List Char} (few : groupsFrom false letters.reverse ≤ 1) :
    (cut letters.reverse).reverse = strip letters := by
  have clean := (cut_head letters.reverse).mpr (by rw [groupsFrom_cut]; omega)
  have kept := dropWhile_isEnd_cut letters.reverse
  rw [strip, ← kept]
  cases rest : cut letters.reverse with
  | nil => rfl
  | cons letter others =>
      rw [rest] at clean
      have apart : isEnd letter = false := clean letter rfl
      rw [List.dropWhile_cons_of_neg (by simp [apart])]

theorem strip_reverse_cut (letters : List Char) :
    strip (cut letters.reverse).reverse = strip letters := by
  rw [strip, List.reverse_reverse, dropWhile_isEnd_cut, strip]

/-- The keyword stands again behind the keyword. -/
def RepeatsKeyword (keyword text : String) : Prop :=
  led keyword.toList (content text) = true ∧
    led keyword.toList (Line.trimStart ((content text).drop keyword.toList.length)) = true

/-- A semicolon stands right behind the keyword, and a second group of semicolons ends the text. -/
def ClosesKeyword (keyword text : String) : Prop :=
  content text = keyword.toList ∧ semicolonGroups text = 2 ∧
    ((Line.trimStart text.toList).drop keyword.toList.length).head? = some ';'

theorem led_clauseBody {text : String} (few : semicolonGroups text ≤ 2) :
    led keyword.text.toList (clauseBody keyword.text text).toList = true ↔
      RepeatsKeyword keyword.text text ∨ ClosesKeyword keyword.text text := by
  have body := toList_clauseBody keyword.text text
  have groups : groupsFrom false (cut (Line.trimStart text.toList).reverse) =
      semicolonGroups text - 1 := by
    rw [groupsFrom_cut, groupsFrom_trimStart, semicolonGroups]
  have shape : content text = strip (cut (Line.trimStart text.toList).reverse).reverse :=
    (strip_reverse_cut _).symm
  have lead : (cut (Line.trimStart text.toList).reverse).reverse <+: Line.trimStart text.toList := by
    have suffix : cut (Line.trimStart text.toList).reverse <:+ (Line.trimStart text.toList).reverse :=
      (List.dropWhile_suffix _).trans ((List.dropWhile_suffix _).trans (List.dropWhile_suffix _))
    simpa using List.reverse_prefix.mpr suffix
  rw [← List.reverse_reverse (cut (Line.trimStart text.toList).reverse)] at groups
  have ended := (cut_head (Line.trimStart text.toList).reverse)
  rw [← List.reverse_reverse (cut (Line.trimStart text.toList).reverse), List.head?_reverse] at ended
  rw [RepeatsKeyword, ClosesKeyword, shape]
  generalize Line.trimStart text.toList = whole at body groups shape lead ended ⊢
  generalize (cut whole.reverse).reverse = round at body groups shape lead ended ⊢
  rw [reverse_cut_of_groups (by rw [groupsFrom_behind, groups]; omega)] at body
  rw [body, behind]
  split_ifs with leads
  · obtain ⟨rest, rfl, apart⟩ := exists_of_led leads
    rw [List.drop_left, strip_trimStart, strip_keyword_append, List.drop_left]
    have first : led keyword.text.toList (keyword.text.toList ++ strip rest) = true := by
      rw [led_append]
      obtain ⟨ends, split⟩ := strip_lead rest
      cases kept : strip rest with
      | nil => rfl
      | cons letter others =>
          rw [kept] at split
          rw [← split] at apart
          exact apart
    have open_ : ¬ (keyword.text.toList ++ strip rest = keyword.text.toList ∧
        semicolonGroups text = 2 ∧ (whole.drop keyword.text.toList.length).head? = some ';') := by
      rintro ⟨-, two, semicolon⟩
      obtain ⟨ends, rfl⟩ := lead
      rw [List.append_assoc, List.drop_left] at semicolon
      cases rest with
      | nil =>
          rw [groupsFrom_keyword_append, two] at groups
          cases groups
      | cons letter others =>
          cases semicolon
          cases apart
    simp only [first, true_and, open_, or_false]
  · constructor
    · intro holds
      right
      obtain ⟨ends, split, all⟩ := exists_ends round
      obtain ⟨more, same, apart⟩ := exists_of_led holds
      have alone : more = [] := by
        cases more with
        | nil => rfl
        | cons letter others =>
            rw [same] at split
            rw [split, List.append_assoc, led_append] at leads
            exact absurd apart leads
      rw [alone, List.append_nil] at same
      rw [same] at split
      cases ends with
      | nil =>
          rw [split, led_append] at leads
          exact absurd rfl leads
      | cons letter others =>
          rw [split, led_append] at leads
          have semicolon : letter = ';' := by
            have either : isEnd letter = true := all letter List.mem_cons_self
            rcases Bool.or_eq_true_iff.mp either with blank | semicolon
            · exact absurd blank leads
            · exact beq_iff_eq.mp semicolon
          refine ⟨same, ?_, ?_⟩
          · by_contra fewer
            have none : groupsFrom false round.reverse = 0 := by rw [groups]; omega
            have kept := strip_of_clean (ended.mpr none)
            rw [same, split] at kept
            simp at kept
          · obtain ⟨after, rfl⟩ := lead
            rw [split, List.append_assoc, List.drop_left, semicolon]
            rfl
    · rintro (⟨holds, -⟩ | ⟨same, -⟩)
      · exact holds
      · have alone : led keyword.text.toList (keyword.text.toList ++ []) = true := led_append
        rw [List.append_nil] at alone
        rw [same]
        exact alone

end Wrapping

section Again

theorem groups_round (text : String) :
    semicolonGroups (round text) = semicolonGroups text - 1 := by
  rw [semicolonGroups, toList_round, List.reverse_reverse, groupsFrom_cut,
    groupsFrom_trimStart, semicolonGroups]

theorem groups_clauseBody (keyword : ClauseKeyword) (text : String) :
    semicolonGroups (clauseBody keyword.text text) = semicolonGroups text - 2 := by
  rw [semicolonGroups, toList_clauseBody, List.reverse_reverse, groupsFrom_cut, groupsFrom_behind,
    List.reverse_reverse, groupsFrom_cut, groupsFrom_trimStart, semicolonGroups]
  omega

/-- A text that does not end in a blank is clean where it ends in no semicolon. -/
theorem clean_iff_groups {body : String}
    (stopped : ∀ letter ∈ body.toList.getLast?, Text.isWhitespace letter = false) :
    Clean body ↔ semicolonGroups body = 0 := by
  rw [← List.head?_reverse] at stopped
  rw [Clean, ← List.head?_reverse, semicolonGroups]
  cases letters : body.toList.reverse with
  | nil => simp [groupsFrom]
  | cons letter rest =>
      rw [letters] at stopped
      have black : Text.isWhitespace letter = false := stopped letter rfl
      by_cases semicolon : letter = ';'
      · simp [groupsFrom, isEnd, semicolon]
      · simp [groupsFrom, isEnd, semicolon, black]

/-- One more semicolon opens no group behind another semicolon. -/
theorem groups_append_semicolon {body : String}
    (stopped : ∀ letter ∈ body.toList.getLast?, Text.isWhitespace letter = false) :
    semicolonGroups (body ++ ";") = max 1 (semicolonGroups body) := by
  rw [← List.head?_reverse] at stopped
  have spelled : (body ++ ";").toList.reverse = ';' :: body.toList.reverse := by
    rw [String.toList_append, List.reverse_append]
    rfl
  rw [semicolonGroups, semicolonGroups, spelled, groupsFrom, if_pos rfl]
  cases letters : body.toList.reverse with
  | nil => rfl
  | cons letter rest =>
      rw [letters] at stopped
      have black : Text.isWhitespace letter = false := stopped letter rfl
      by_cases semicolon : letter = ';'
      · simp [groupsFrom, semicolon]
      · simp [groupsFrom, semicolon, black]

theorem normalizeAcsl_again (text : String) :
    normalizeAcsl (normalizeAcsl text) = normalizeAcsl text ↔ semicolonGroups text ≤ 1 := by
  have stopped := (trimmed_round text).stopped
  have groups := groups_round (round text ++ ";")
  rw [groups_append_semicolon stopped] at groups
  rw [← clean_normalized]
  constructor
  · intro same
    have kept : round (round text ++ ";") = round text := (String.append_left_inj ";").mp same
    rw [kept] at groups
    exact (clean_iff_groups stopped).mpr (by omega)
  · intro clean
    exact congrArg (· ++ ";") (round_append_semicolon (trimmed_round text).started clean)

theorem trimmed_clauseBody (keyword text : String) : Trimmed (clauseBody keyword text).toList := by
  rw [clauseBody_eq_round]
  exact trimmed_round _

variable (keyword : ClauseKeyword)

/-- The keyword and one blank stand before the body. -/
def worded (keyword body : String) : String := keyword ++ " " ++ body

theorem toList_worded (body : String) :
    (worded keyword.text body).toList = keyword.text.toList ++ ' ' :: body.toList := by
  rw [worded, String.toList_append, String.toList_append, List.append_assoc]
  rfl

theorem groups_worded (body : String) :
    semicolonGroups (worded keyword.text body) = semicolonGroups body := by
  have blank : ∀ letter ∈ [' '], Text.isWhitespace letter = true := by simp [Text.isWhitespace]
  rw [semicolonGroups, toList_worded, groupsFrom_keyword_append, List.reverse_cons,
    groupsFrom_append_blanks blank, semicolonGroups]

theorem clauseBody_again {body : String} (trimmed : Trimmed body.toList) (clean : Clean body) :
    clauseBody keyword.text (worded keyword.text body ++ ";") = body := by
  have started : Started (worded keyword.text body).toList := by
    rw [toList_worded]
    cases letters : keyword.text.toList with
    | nil => exact absurd letters keyword.named
    | cons letter rest =>
        have first := keyword.started
        rw [letters] at first
        exact first
  have inner : behind keyword.text.toList (round (worded keyword.text body ++ ";")).toList =
      body.toList := by
    cases filled : body.toList with
    | nil =>
        have keywordOnly : (round (worded keyword.text body ++ ";")).toList = keyword.text.toList := by
          have black : ∀ letter ∈ keyword.text.toList.getLast?, Text.isWhitespace letter = false :=
            fun letter last => (Bool.or_eq_false_iff.mp (keyword.closed letter last)).1
          rw [toList_round, started.append_semicolon.trimStart, String.toList_append, toList_worded, filled,
            List.reverse_append, List.reverse_append]
          show (cut (';' :: ' ' :: keyword.text.toList.reverse)).reverse = _
          rw [cut, List.dropWhile_cons_of_neg (by decide), List.dropWhile_cons_of_pos (by decide),
            List.dropWhile_cons_of_neg (by decide), List.dropWhile_cons_of_pos (by decide)]
          exact Line.reverse_dropWhile_of_last black
        have leads : led keyword.text.toList (keyword.text.toList ++ []) = true := led_append
        rw [List.append_nil] at leads
        rw [keywordOnly, behind, if_pos leads, List.drop_length]
        rfl
    | cons letter rest =>
        have whole : Clean (worded keyword.text body) := by
          rw [Clean, toList_worded, getLast?_append_of_ne_nil (List.cons_ne_nil _ _), filled,
            List.getLast?_cons_cons, ← filled]
          exact clean
        have leads : led keyword.text.toList (keyword.text.toList ++ ' ' :: body.toList) = true := by
          rw [led_append]
          rfl
        rw [round_append_semicolon started whole, toList_worded, behind, if_pos leads,
          List.drop_left]
        have skipped : Line.trimStart (' ' :: body.toList) = Line.trimStart body.toList :=
          List.dropWhile_cons_of_pos (by decide)
        rw [skipped, trimmed.started.trimStart, filled]
  have few := (clean_iff_groups trimmed.stopped).mp clean
  refine String.toList_inj.mp ?_
  rw [clauseBody_eq_round, toList_round,
    (trimmed_stripLeadingKeyword keyword.text _).started.trimStart,
    toList_stripLeadingKeyword (trimmed_round _), inner,
    reverse_cut_of_groups (by rw [← semicolonGroups]; omega), strip_of_clean clean]

end Again

section Wrapping

variable (keyword : ClauseKeyword) (behaviors : Behaviors)

/-- The clause has its keyword and its semicolon once, and the body has no ends of its own. -/
def ClauseOnce (lead keyword clause : String) : Prop :=
  ∃ body, clause = lead ++ worded keyword body ++ ";" ∧ Clean body ∧
    led keyword.toList body.toList = false

/-- The text of a behavior stands before its clause. -/
def funspecLead : Option String → String
  | none => ""
  | some name => "behavior " ++ name ++ ":" ++
      String.join (((behaviors.lookup name).getD []).map assumesClause) ++ " "

def loopLead : Option String → String
  | none => ""
  | some name => "for " ++ name ++ ": "

def Declared (behavior : Option String) : Prop :=
  ∀ name ∈ behavior, (behaviors.lookup name).isSome = true

structure NormalizesOnce (text : String) : Prop where
  once : EndsOnce "" (normalizeAcsl text)
  again : normalizeAcsl (normalizeAcsl text) = normalizeAcsl text

structure FunspecWrapsOnce (keyword text : String) (behavior : Option String) (path : String) :
    Prop where
  once : ∀ clause ∈ (wrapFunspecClause keyword text behavior behaviors path).toOption,
    ClauseOnce (funspecLead behaviors behavior) keyword clause
  again : ∀ clause, behavior = none →
    wrapFunspecClause keyword text none behaviors path = .ok clause →
      wrapFunspecClause keyword clause none behaviors path = .ok clause

structure LoopWrapsOnce (keyword text : String) (behavior : Option String) (path : String) :
    Prop where
  once : ∀ clause ∈ (wrapLoopClause keyword text behavior behaviors path).toOption,
    ClauseOnce (loopLead behavior) keyword clause
  again : ∀ clause, behavior = none →
    wrapLoopClause keyword text none behaviors path = .ok clause →
      wrapLoopClause keyword clause none behaviors path = .ok clause

/-- Two rounds reach the end of the body, and the keyword is not there a second time. -/
structure Wrappable (keyword text : String) : Prop where
  groups : semicolonGroups text ≤ 2
  single : ¬ RepeatsKeyword keyword text
  apart : ¬ ClosesKeyword keyword text

theorem clauseOnce_iff (lead text : String) :
    ClauseOnce lead keyword.text (lead ++ worded keyword.text (clauseBody keyword.text text) ++ ";") ↔
      Wrappable keyword.text text := by
  have inner : ClauseOnce lead keyword.text
      (lead ++ worded keyword.text (clauseBody keyword.text text) ++ ";") ↔
        Clean (clauseBody keyword.text text) ∧
          led keyword.text.toList (clauseBody keyword.text text).toList = false := by
    constructor
    · rintro ⟨body, same, clean, single⟩
      have equal := append_cancel.mp same
      rw [worded, worded, String.append_right_inj] at equal
      exact equal ▸ ⟨clean, single⟩
    · exact fun ⟨clean, single⟩ => ⟨_, rfl, clean, single⟩
  rw [inner, clean_clauseBody]
  constructor
  · rintro ⟨few, single⟩
    have neither : ¬ (RepeatsKeyword keyword.text text ∨ ClosesKeyword keyword.text text) := by
      rw [← led_clauseBody keyword few, single]
      exact Bool.false_ne_true
    exact ⟨few, fun holds => neither (.inl holds), fun holds => neither (.inr holds)⟩
  · rintro ⟨few, single, apart⟩
    refine ⟨few, Bool.eq_false_of_not_eq_true ?_⟩
    rw [led_clauseBody keyword few]
    exact fun either => either.elim single apart

theorem wrap_again (text : String) :
    clauseBody keyword.text (worded keyword.text (clauseBody keyword.text text) ++ ";") =
      clauseBody keyword.text text ↔ semicolonGroups text ≤ 2 := by
  have trimmed := trimmed_clauseBody keyword.text text
  have groups := groups_clauseBody keyword
    (worded keyword.text (clauseBody keyword.text text) ++ ";")
  rw [← clean_clauseBody]
  constructor
  · intro same
    rw [same] at groups
    cases filled : (clauseBody keyword.text text).toList with
    | nil =>
        rw [Clean, filled]
        exact fun _ none => by cases none
    | cons letter rest =>
        have stopped : ∀ letter ∈ (worded keyword.text (clauseBody keyword.text text)).toList.getLast?,
            Text.isWhitespace letter = false := by
          rw [toList_worded, getLast?_append_of_ne_nil (List.cons_ne_nil _ _), filled,
            List.getLast?_cons_cons, ← filled]
          exact trimmed.stopped
        rw [groups_append_semicolon stopped, groups_worded] at groups
        exact (clean_iff_groups trimmed.stopped).mpr (by omega)
  · exact clauseBody_again keyword trimmed

variable {behavior : Option String}

theorem wrapFunspecClause_eq (text path : String) (declared : Declared behaviors behavior) :
    wrapFunspecClause keyword.text text behavior behaviors path =
      .ok (funspecLead behaviors behavior ++ worded keyword.text (clauseBody keyword.text text) ++
        ";") := by
  cases behavior with
  | none =>
      rw [funspecLead, String.empty_append]
      rfl
  | some name =>
      obtain ⟨assumes, found⟩ := Option.isSome_iff_exists.mp (declared name rfl)
      simp only [wrapFunspecClause, funspecLead, found, Option.getD_some, worded, String.append_assoc]

theorem wrapLoopClause_eq (text path : String) (declared : Declared behaviors behavior) :
    wrapLoopClause keyword.text text behavior behaviors path =
      .ok (loopLead behavior ++ worded keyword.text (clauseBody keyword.text text) ++ ";") := by
  cases behavior with
  | none =>
      rw [loopLead, String.empty_append]
      rfl
  | some name =>
      obtain ⟨assumes, found⟩ := Option.isSome_iff_exists.mp (declared name rfl)
      simp [wrapLoopClause, loopLead, found, worded, String.append_assoc]

theorem undeclared (undeclared : ¬ Declared behaviors behavior) :
    ∃ name, behavior = some name ∧ behaviors.lookup name = none := by
  cases behavior with
  | none => exact absurd (fun _ member => by cases member) undeclared
  | some name =>
      refine ⟨name, rfl, Option.not_isSome_iff_eq_none.mp fun found => undeclared ?_⟩
      rintro _ ⟨⟩
      exact found

/-- The wrapped text is wrapped into itself. -/
theorem clause_again {text clause : String} (few : semicolonGroups text ≤ 2)
    (made : worded keyword.text (clauseBody keyword.text text) ++ ";" = clause) :
    worded keyword.text (clauseBody keyword.text clause) ++ ";" = clause := by
  subst made
  rw [(wrap_again keyword text).mpr few]

/-- What a wrapper returns is one clause exactly where the text is wrappable. -/
theorem clauses_once_iff {lead text : String} {made : Except String String}
    (wrapped : Declared behaviors behavior →
      made = .ok (lead ++ worded keyword.text (clauseBody keyword.text text) ++ ";"))
    (refused : ∀ name, behavior = some name → behaviors.lookup name = none → made.toOption = none) :
    (∀ clause ∈ made.toOption, ClauseOnce lead keyword.text clause) ↔
      (Declared behaviors behavior → Wrappable keyword.text text) := by
  constructor
  · intro once declared
    refine (clauseOnce_iff keyword lead text).mp (once _ ?_)
    rw [wrapped declared]
    rfl
  · intro allowed clause member
    by_cases declared : Declared behaviors behavior
    · rw [wrapped declared] at member
      cases member
      exact (clauseOnce_iff keyword lead text).mpr (allowed declared)
    · obtain ⟨name, named, absent⟩ := undeclared behaviors declared
      rw [refused name named absent] at member
      cases member

/-- A text is normalized or wrapped into one clause exactly where few groups of semicolons end it
and the keyword is not left in the body. -/
theorem wraps_once_iff (text : String) (behavior : Option String) (path : String) :
    (NormalizesOnce text ↔ semicolonGroups text ≤ 1) ∧
      (FunspecWrapsOnce behaviors keyword.text text behavior path ↔
        (Declared behaviors behavior → Wrappable keyword.text text)) ∧
      (LoopWrapsOnce behaviors keyword.text text behavior path ↔
        (Declared behaviors behavior → Wrappable keyword.text text)) := by
  have funspec := clauses_once_iff keyword behaviors
    (fun declared : Declared behaviors behavior =>
      wrapFunspecClause_eq keyword behaviors text path declared)
    (by rintro name rfl absent; rw [wrapFunspecClause, absent]; rfl)
  have loop := clauses_once_iff keyword behaviors
    (fun declared : Declared behaviors behavior =>
      wrapLoopClause_eq keyword behaviors text path declared)
    (by rintro name rfl absent; rw [wrapLoopClause, absent]; rfl)
  refine ⟨⟨fun holds => (normalizeAcsl_again text).mp holds.again, fun few => ⟨?_, ?_⟩⟩,
    ⟨fun holds => funspec.mp holds.once, fun allowed => ⟨funspec.mpr allowed, ?_⟩⟩,
    ⟨fun holds => loop.mp holds.once, fun allowed => ⟨loop.mpr allowed, ?_⟩⟩⟩
  · rw [normalizeAcsl_eq]
    exact endsOnce_iff.mpr ((clean_normalized text).mpr few)
  · exact (normalizeAcsl_again text).mpr few
  · rintro clause rfl made
    have few := (allowed fun _ member => by cases member).groups
    exact congrArg Except.ok (clause_again keyword few (Except.ok.inj made))
  · rintro clause rfl made
    have few := (allowed fun _ member => by cases member).groups
    exact congrArg Except.ok (clause_again keyword few (Except.ok.inj made))

/-- Two groups of semicolons leave one behind, and so does a repeated keyword. -/
theorem not_wraps_once : ¬ ∀ (keyword : ClauseKeyword) (text : String), NormalizesOnce text ∧
    FunspecWrapsOnce {} keyword.text text none "p" ∧ LoopWrapsOnce {} keyword.text text none "p" := by
  intro always
  have started : Started "requires".toList := fun _ first => by cases first; decide
  have closed : Clean "requires" := fun _ last => by cases last; decide
  have again := (always ⟨"requires", by decide, started, closed⟩ "a; ;").1.again
  exact absurd again (by decide)

end Wrapping

end FramaCMcp.Annotations
