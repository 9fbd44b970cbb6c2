/-
This file says which printed ASTs share their canonical text with other programs.
-/

import FramaCMcp.Construction.Digests
import FramaCMcp.Foundation.WordRuns
import FramaCMcp.Foundation.Lexemes

namespace FramaCMcp.AstDigest

open Run

section

variable [RegexTables]

theorem wordChar_ascii {letter : Char} (small : letter.toNat < 128)
    (alphanum : (letter.isAlphanum || letter == '_') = true) :
    UnicodeTables.wordChar letter = true := by
  rw [UnicodeTables.wordCharAscii letter small]
  exact alphanum

theorem not_wordChar_ascii {letter : Char} (small : letter.toNat < 128)
    (other : (letter.isAlphanum || letter == '_') = false) :
    UnicodeTables.wordChar letter = false := by
  rw [UnicodeTables.wordCharAscii letter small]
  exact other

theorem wordChar_hex {letter : Char} (hex : isHexLetter letter = true) :
    UnicodeTables.wordChar letter = true := by
  rcases Bool.or_eq_true_iff.mp hex with digit | letters
  · have code : letter.toNat ≤ 57 := by
      simp only [Char.isDigit, Bool.and_eq_true, decide_eq_true_eq, UInt32.le_iff_toNat_le] at digit
      exact digit.2
    exact wordChar_ascii (by omega) (by simp [Char.isAlphanum, digit])
  · simp only [Bool.and_eq_true, decide_eq_true_eq] at letters
    have plain : letter.isAlphanum = true := Text.isAlphanum_iff.mpr (by omega)
    exact wordChar_ascii (by omega) (by rw [plain, Bool.true_or])

theorem wordChar_prefix {pair : List Char} (member : pair ∈ labelPrefixes) :
    ∀ letter ∈ pair, UnicodeTables.wordChar letter = true := by
  have ascii : (labelPrefixes.all fun pair => pair.all fun letter =>
      decide (letter.toNat < 128) && (letter.isAlphanum || letter == '_')) = true := rfl
  intro letter inside
  have both := List.all_eq_true.mp (List.all_eq_true.mp ascii pair member) letter inside
  obtain ⟨small, alphanum⟩ := Bool.and_eq_true_iff.mp both
  exact wordChar_ascii (of_decide_eq_true small) alphanum

/-- The head of a generated label is a part of a word. -/
theorem wordChar_of_generatedHead {text : List Char} (generated : generatedHead text = true) :
    11 ≤ text.length ∧ ∀ letter ∈ text.take 11, UnicodeTables.wordChar letter = true := by
  simp only [generatedHead, Bool.and_eq_true, beq_iff_eq, decide_eq_true_eq, List.length_take,
    List.all_eq_true] at generated
  obtain ⟨⟨⟨long, pair⟩, mark⟩, hex⟩ := generated
  refine ⟨by omega, ?_⟩
  have parts : text.take 11 = text.take 2 ++ '_' :: (text.drop 3).take 8 := by
    have tail : text.drop 2 = '_' :: text.drop 3 := by
      cases rest : text.drop 2 with
      | nil => simp [rest] at mark
      | cons head others =>
          rw [rest, List.head?_cons, Option.some.injEq] at mark
          have next := congrArg (List.drop 1) rest
          rw [List.drop_drop, List.drop_one, List.tail_cons] at next
          rw [mark, next]
    calc text.take 11 = text.take (2 + 9) := rfl
      _ = text.take 2 ++ (text.drop 2).take 9 := List.take_add ..
      _ = _ := by rw [tail]; rfl
  rw [parts]
  intro letter member
  rcases List.mem_append.mp member with front | back
  · exact wordChar_prefix pair letter front
  · rcases List.mem_cons.mp back with rfl | inside
    · exact wordChar_ascii (by decide) (by decide)
    · exact wordChar_hex (hex letter inside)

omit [RegexTables] in
theorem generatedHead_take (text : List Char) :
    generatedHead (text.take 11) = generatedHead text := by
  have size : (text.take 11).take 11 = text.take 11 := List.take_take ..
  have pair : (text.take 11).take 2 = text.take 2 := List.take_take ..
  have mark : ((text.take 11).drop 2).head? = (text.drop 2).head? := by
    rw [List.drop_take]
    cases text.drop 2 <;> rfl
  have hex : ((text.take 11).drop 3).take 8 = (text.drop 3).take 8 := by
    rw [List.drop_take]
    exact List.take_take ..
  rw [generatedHead, generatedHead, size, pair, mark, hex]

/-- A generated label ends within its word. -/
theorem generatedHead_append {word rest : List Char}
    (apart : ∀ letter, rest.head? = some letter → UnicodeTables.wordChar letter = false) :
    generatedHead (word ++ rest) = generatedHead word := by
  by_cases long : 11 ≤ word.length
  · rw [← generatedHead_take, List.take_append_of_le_length long, generatedHead_take]
  · have short : generatedHead word = false := by
      rw [Bool.eq_false_iff]
      exact fun generated => long (wordChar_of_generatedHead generated).1
    rw [short, Bool.eq_false_iff]
    intro generated
    obtain ⟨size, all⟩ := wordChar_of_generatedHead generated
    cases rest with
    | nil =>
        rw [List.append_nil] at size
        exact long size
    | cons letter others =>
        have member : letter ∈ (word ++ letter :: others).take 11 := by
          rw [List.mem_take_iff_getElem]
          exact ⟨word.length, by simp; omega, by simp⟩
        have word := all letter member
        rw [apart letter rfl] at word
        cases word

/-- After white space comes a colon. -/
def colonNext : List (Run Char) → Bool
  | .mark letter :: rest => letter == ':' || Text.isWhitespace letter && colonNext rest
  | _ => false

/-- A generated word in front of a colon becomes the canonical one. -/
def relabel : List (Run Char) → List (Run Char)
  | [] => []
  | .word letters :: rest =>
      .word (if generatedHead letters && colonNext rest then canonicalLabel else letters) ::
        relabel rest
  | .mark letter :: rest => .mark letter :: relabel rest

variable {runs : List (Run Char)}

theorem head_text (separated : Separated UnicodeTables.wordChar runs)
    (fresh : startsWord runs = false) :
    ∀ letter, (text runs).head? = some letter → UnicodeTables.wordChar letter = false := by
  intro letter found
  cases runs with
  | nil => cases found
  | cons run rest =>
      cases run with
      | word letters => cases fresh
      | mark other =>
          obtain rfl := Option.some.inj found
          exact separated.1

theorem colonNext_iff (separated : Separated UnicodeTables.wordChar runs) :
    ((text runs).dropWhile Text.isWhitespace).head? = some ':' ↔ colonNext runs = true := by
  induction runs with
  | nil => simp [text, colonNext]
  | cons run rest ih =>
      cases run with
      | word letters =>
          obtain ⟨filled, all, _, _⟩ := separated
          obtain ⟨first, others, rfl⟩ := List.exists_cons_of_ne_nil filled
          have word := all first (List.mem_cons_self ..)
          have inside : Text.isWhitespace first = false := by
            rw [Bool.eq_false_iff]
            intro space
            rw [RegexTables.spaceApart first space] at word
            cases word
          have other : first ≠ ':' := by
            rintro rfl
            rw [not_wordChar_ascii (by decide) (by decide)] at word
            cases word
          rw [text_cons, Run.letters, List.cons_append,
            List.dropWhile_cons_of_neg (by simp [inside])]
          simp [colonNext, other]
      | mark letter =>
          have later := ih separated.2
          rw [text_cons, Run.letters, List.singleton_append, colonNext]
          by_cases space : Text.isWhitespace letter = true
          · have other : letter ≠ ':' := by
              rintro rfl
              cases space
            rw [List.dropWhile_cons_of_pos space, later]
            simp [other, space]
          · rw [List.dropWhile_cons_of_neg space]
            simp [space]

theorem labelGap_of_mark {letter : Char} (apart : UnicodeTables.wordChar letter = false)
    (rest : List Char) : labelGap (letter :: rest) = none := by
  have other : ¬ generatedHead (letter :: rest) = true := by
    intro generated
    have word := (wordChar_of_generatedHead generated).2 letter (List.mem_cons_self ..)
    rw [apart] at word
    cases word
  exact if_neg fun both => other both.1

theorem replaceAll_mark {letter : Char} (apart : UnicodeTables.wordChar letter = false)
    (boundary : Bool) (rest : List Char) :
    replaceAll 0 boundary (letter :: rest) = letter :: replaceAll 0 true rest := by
  rw [replaceAll, labelGap_of_mark apart, ite_self, apart]
  rfl

/-- No match starts inside a word. -/
theorem replaceAll_word {word : List Char}
    (all : ∀ letter ∈ word, UnicodeTables.wordChar letter = true) (rest : List Char) :
    replaceAll 0 false (word ++ rest) = word ++ replaceAll 0 false rest := by
  induction word with
  | nil => rfl
  | cons letter others ih =>
      obtain ⟨first, later⟩ := List.forall_mem_cons.mp all
      rw [List.cons_append, replaceAll, first]
      show letter :: replaceAll 0 false (others ++ rest) = _
      rw [ih later]
      rfl

theorem replaceAll_start (separated : Separated UnicodeTables.wordChar runs)
    (fresh : startsWord runs = false) :
    replaceAll 0 false (text runs) = replaceAll 0 true (text runs) := by
  cases runs with
  | nil => rfl
  | cons run rest =>
      cases run with
      | word letters => cases fresh
      | mark letter =>
          rw [text_cons, Run.letters, List.singleton_append, replaceAll_mark separated.1,
            replaceAll_mark separated.1]

/-- The letters of a match are skipped. -/
theorem replaceAll_skip (consumed : List Char) (last : Char) (boundary : Bool)
    (rest : List Char) :
    replaceAll (consumed.length + 1) boundary (consumed ++ last :: rest) =
      replaceAll 0 (!UnicodeTables.wordChar last) rest := by
  induction consumed generalizing boundary with
  | nil =>
      rw [List.nil_append, List.length_nil, replaceAll]
  | cons letter others ih =>
      rw [List.cons_append, List.length_cons, replaceAll, ih]

/-- The gap in front of a colon is copied. -/
theorem replaceAll_gap (separated : Separated UnicodeTables.wordChar runs)
    (colon : colonNext runs = true) :
    ∃ rest, text runs = (text runs).takeWhile Text.isWhitespace ++ ':' :: rest ∧
      ∀ boundary, replaceAll 0 boundary (text runs) =
        (text runs).takeWhile Text.isWhitespace ++ ':' :: replaceAll 0 true rest := by
  induction runs with
  | nil => cases colon
  | cons run rest ih =>
      cases run with
      | word letters => cases colon
      | mark letter =>
          have apart := separated.1
          rw [text_cons, Run.letters, List.singleton_append]
          by_cases space : Text.isWhitespace letter = true
          · have other : (letter == ':') = false := by
              rw [beq_eq_false_iff_ne]
              rintro rfl
              cases space
            rw [colonNext, other, Bool.false_or, space, Bool.true_and] at colon
            obtain ⟨after, split, copied⟩ := ih separated.2 colon
            refine ⟨after, ?_, fun boundary => ?_⟩
            · rw [List.takeWhile_cons_of_pos space, List.cons_append, ← split]
            · rw [List.takeWhile_cons_of_pos space, List.cons_append, ← copied true]
              exact replaceAll_mark apart boundary _
          · rw [Bool.not_eq_true] at space
            rw [colonNext, space, Bool.false_and, Bool.or_false, beq_iff_eq] at colon
            subst colon
            refine ⟨text rest, ?_, fun boundary => ?_⟩
            · rw [List.takeWhile_cons_of_neg (by simp [space])]
              rfl
            · rw [List.takeWhile_cons_of_neg (by simp [space])]
              exact replaceAll_mark apart boundary _

/-- The whole word and the colon decide whether there is a match. -/
theorem labelGap_word {word : List Char}
    (all : ∀ letter ∈ word, UnicodeTables.wordChar letter = true)
    (separated : Separated UnicodeTables.wordChar runs) (fresh : startsWord runs = false) :
    labelGap (word ++ text runs) =
      if generatedHead word && colonNext runs then
        some ((text runs).takeWhile Text.isWhitespace ++ [':']) else none := by
  have apart := head_text separated fresh
  unfold labelGap
  rw [generatedHead_append apart]
  cases generated : generatedHead word with
  | false => simp
  | true =>
      have long := (wordChar_of_generatedHead generated).1
      have after : ((word ++ text runs).drop 11).dropWhile UnicodeTables.wordChar = text runs := by
        rw [List.drop_append_of_le_length long, List.dropWhile_append_of_pos]
        · exact Line.dropWhile_of_head apart
        · exact fun letter member => all letter (List.mem_of_mem_drop member)
      rw [after]
      simp only [true_and, Bool.true_and, colonNext_iff separated]

theorem matchLength_word {word gap : List Char} {runs : List (Run Char)} (long : 11 ≤ word.length)
    (all : ∀ letter ∈ word, UnicodeTables.wordChar letter = true)
    (separated : Separated UnicodeTables.wordChar runs) (fresh : startsWord runs = false) :
    matchLength (word ++ text runs) gap = word.length + gap.length := by
  have tail : (text runs).takeWhile UnicodeTables.wordChar = [] := by
    have apart := head_text separated fresh
    cases letters : text runs with
    | nil => rfl
    | cons letter rest =>
        rw [letters] at apart
        exact List.takeWhile_cons_of_neg (by simp [apart letter rfl])
  have part : ((word ++ text runs).drop 11).takeWhile UnicodeTables.wordChar = word.drop 11 := by
    rw [List.drop_append_of_le_length long, List.takeWhile_append_of_pos, tail, List.append_nil]
    exact fun letter member => all letter (List.mem_of_mem_drop member)
  rw [matchLength, part, List.length_drop]
  omega

/-- The replacement acts on each word alone. -/
theorem replaceAll_eq_relabel (separated : Separated UnicodeTables.wordChar runs) :
    replaceAll 0 true (text runs) = text (relabel runs) := by
  induction runs with
  | nil => rfl
  | cons run rest ih =>
      cases run with
      | mark letter =>
          rw [text_cons, Run.letters, List.singleton_append, replaceAll_mark separated.1,
            ih separated.2]
          rfl
      | word letters =>
          obtain ⟨filled, all, fresh, later⟩ := separated
          obtain ⟨first, others, rfl⟩ := List.exists_cons_of_ne_nil filled
          obtain ⟨start, tail⟩ := List.forall_mem_cons.mp all
          have gap := labelGap_word all later fresh
          rw [text_cons, Run.letters, relabel, text_cons, Run.letters, ← ih later]
          rw [List.cons_append] at gap ⊢
          rw [replaceAll, if_pos rfl, gap]
          cases matched : generatedHead (first :: others) && colonNext rest with
          | false =>
              simp only [Bool.false_eq_true, if_false, start, Bool.not_true]
              rw [replaceAll_word tail, replaceAll_start later fresh]
              rfl
          | true =>
              obtain ⟨generated, colon⟩ := Bool.and_eq_true_iff.mp matched
              obtain ⟨after, split, copied⟩ := replaceAll_gap later colon
              have long := (wordChar_of_generatedHead generated).1
              have size := @matchLength_word _ _ ((text rest).takeWhile Text.isWhitespace ++ [':']) _
                long all later fresh
              have consumed : matchLength (first :: (others ++ text rest))
                  ((text rest).takeWhile Text.isWhitespace ++ [':']) - 1 =
                    (others ++ (text rest).takeWhile Text.isWhitespace).length + 1 := by
                rw [List.cons_append] at size
                rw [size]
                simp only [List.length_append, List.length_cons, List.length_nil]
                omega
              have skipped : others ++ text rest =
                  (others ++ (text rest).takeWhile Text.isWhitespace) ++ ':' :: after := by
                rw [List.append_assoc, ← split]
              have colonApart : UnicodeTables.wordChar ':' = false :=
                not_wordChar_ascii (by decide) (by decide)
              simp only [if_true, consumed]
              rw [copied true, skipped, replaceAll_skip, colonApart]
              simp only [List.append_assoc, List.singleton_append, Bool.not_false]

/-- A label keeps the word class. -/
theorem canonicalLabel_spec : generatedHead canonicalLabel = true ∧
    canonicalLabel ≠ [] ∧ ∀ letter ∈ canonicalLabel, UnicodeTables.wordChar letter = true :=
  ⟨by decide, by decide, fun letter member => (@wordChar_of_generatedHead _
    canonicalLabel (by decide)).2 letter member⟩

omit [RegexTables] in
theorem startsWord_relabel (runs : List (Run Char)) :
    startsWord (relabel runs) = startsWord runs := by
  cases runs with
  | nil => rfl
  | cons run rest => cases run <;> rfl

omit [RegexTables] in
theorem colonNext_relabel (runs : List (Run Char)) : colonNext (relabel runs) = colonNext runs := by
  induction runs with
  | nil => rfl
  | cons run rest ih =>
      cases run with
      | word letters => rfl
      | mark letter => rw [relabel, colonNext, colonNext, ih]

theorem separated_relabel (separated : Separated UnicodeTables.wordChar runs) :
    Separated UnicodeTables.wordChar (relabel runs) := by
  induction runs with
  | nil => trivial
  | cons run rest ih =>
      cases run with
      | word letters =>
          obtain ⟨filled, all, fresh, later⟩ := separated
          refine ⟨?_, ?_, (startsWord_relabel rest).trans fresh, ih later⟩
          · split_ifs
            · exact canonicalLabel_spec.2.1
            · exact filled
          · split_ifs
            · exact canonicalLabel_spec.2.2
            · exact all
      | mark letter => exact ⟨separated.1, ih separated.2⟩

theorem relabel_relabel (runs : List (Run Char)) : relabel (relabel runs) = relabel runs := by
  induction runs with
  | nil => rfl
  | cons run rest ih =>
      cases run with
      | word letters =>
          rw [relabel, relabel, colonNext_relabel, ih]
          cases matched : generatedHead letters && colonNext rest with
          | false => simp only [Bool.false_eq_true, if_false, matched]
          | true =>
              have colon := (Bool.and_eq_true_iff.mp matched).2
              simp only [if_true, colon, Bool.and_true, canonicalLabel_spec.1]
      | mark letter => rw [relabel, relabel, ih]

def runsOf (source : String) : List (Run Char) := split UnicodeTables.wordChar source.toList

theorem canonicalAstForDigest_eq (source : String) :
    canonicalAstForDigest source = String.ofList (text (relabel (runsOf source))) := by
  rw [canonicalAstForDigest, runsOf, ← replaceAll_eq_relabel (separated_split _ _), text_split]

theorem runsOf_canonical (source : String) :
    runsOf (canonicalAstForDigest source) = relabel (runsOf source) := by
  rw [canonicalAstForDigest_eq, runsOf, String.toList_ofList]
  exact split_text _ (separated_relabel (separated_split _ _))

/-- A second pass changes nothing. -/
theorem canonicalAstForDigest_idempotent (source : String) :
    canonicalAstForDigest (canonicalAstForDigest source) = canonicalAstForDigest source := by
  rw [canonicalAstForDigest_eq (canonicalAstForDigest source), runsOf_canonical, relabel_relabel,
    ← canonicalAstForDigest_eq]

theorem canonical_eq_iff (left right : String) :
    canonicalAstForDigest left = canonicalAstForDigest right ↔
      relabel (runsOf left) = relabel (runsOf right) := by
  constructor
  · intro same
    rw [← runsOf_canonical, ← runsOf_canonical, same]
  · intro same
    rw [canonicalAstForDigest_eq, canonicalAstForDigest_eq, same]

end

/-- The grammar says where a label may start, and it allows one only inside an annotation. -/
structure LabelGrammar where
  opens : List Char → Bool
  inside : ∀ before, opens before = true →
    Annotation.Mode.isAnnotation ( Annotation.modeAfter before) = true

section

variable [RegexTables] (grammar : LabelGrammar)

/-- One generated label of the grammar takes the place of another one. -/
structure Renamed (before : List Char) (after : List (Run Char)) (old new : List Char) : Prop where
  wasGenerated : generatedHead old = true
  isGenerated : generatedHead new = true
  colon : colonNext after = true
  opens : grammar.opens before = true

/-- The runs are equal or renamed labels, one after the other. -/
inductive Relabelled : List Char → List (Run Char) → List (Run Char) → Prop where
  | done (before : List Char) : Relabelled before [] []
  | same {before : List Char} (run : Run Char) {left right : List (Run Char)}
      (rest : Relabelled (before ++ run.letters) left right) :
      Relabelled before (run :: left) (run :: right)
  | renamed {before old new : List Char} {left right : List (Run Char)}
      (label : Renamed grammar before left old new)
      (rest : Relabelled (before ++ old) left right) :
      Relabelled before (.word old :: left) (.word new :: right)

/-- The second text is the first one with some of its labels renamed. -/
def DifferOnlyInLabels (left right : String) : Prop :=
  Relabelled grammar [] (runsOf left) (runsOf right)

/-- Each generated word in front of a colon is a label of the grammar. -/
def OnlyLabels (source : String) : Prop :=
  ∀ before word after, runsOf source = before ++ .word word :: after → generatedHead word = true →
    colonNext after = true → grammar.opens (text before) = true

/-- Equal canonical runs differ in labels only, where each generated word is a label. -/
theorem relabelled_of_relabel_eq {left right : List (Run Char)} (before : List Char)
    (same : relabel left = relabel right)
    (labels : ∀ part word after, left = part ++ .word word :: after → generatedHead word = true →
      colonNext after = true → grammar.opens (before ++ text part) = true) :
    Relabelled grammar before left right := by
  induction left generalizing before right with
  | nil =>
      cases right with
      | nil => exact .done before
      | cons run rest => cases run <;> cases same
  | cons run rest ih =>
      have later (letters : List Char) (own : run.letters = letters) :
          ∀ part word after, rest = part ++ .word word :: after → generatedHead word = true →
            colonNext after = true → grammar.opens ((before ++ letters) ++ text part) = true := by
        intro part word after split generated colon
        have opened := labels (run :: part) word after (by rw [split, List.cons_append]) generated
          colon
        rw [text_cons, own, ← List.append_assoc] at opened
        exact opened
      cases right with
      | nil => cases run <;> cases same
      | cons other others =>
          cases run with
          | mark letter =>
              cases other with
              | word letters => cases same
              | mark next =>
                  obtain ⟨heads, tails⟩ := List.cons.inj same
                  obtain rfl := Run.mark.inj heads
                  exact .same _ (ih _ tails (later [letter] rfl))
          | word old =>
              cases other with
              | mark next => cases same
              | word new =>
                  obtain ⟨heads, tails⟩ := List.cons.inj same
                  have words := Run.word.inj heads
                  have colons : colonNext rest = colonNext others := by
                    rw [← colonNext_relabel rest, tails, colonNext_relabel]
                  have tail := ih (before ++ old) tails (later old rfl)
                  by_cases equal : old = new
                  · subst equal
                    exact .same _ tail
                  · rw [← colons] at words
                    cases colon : colonNext rest with
                    | false =>
                        simp only [colon, Bool.and_false, Bool.false_eq_true, if_false] at words
                        exact absurd words equal
                    | true =>
                        simp only [colon, Bool.and_true] at words
                        have canonical := canonicalLabel_spec.1
                        split_ifs at words with was now now
                        · have opened := labels [] old rest rfl was colon
                          rw [text, List.flatMap_nil, List.append_nil] at opened
                          exact .renamed ⟨was, now, colon, opened⟩ tail
                        · rw [← words] at now
                          exact absurd canonical now
                        · rw [words] at was
                          exact absurd canonical was
                        · exact absurd words equal

theorem quiet_word {word : List Char}
    (all : ∀ letter ∈ word, UnicodeTables.wordChar letter = true) : Annotation.Quiet word := by
  have apart (letter : Char) (member : letter ∈ word) (mark : Char)
      (other : UnicodeTables.wordChar mark = false) : letter ≠ mark := by
    rintro rfl
    rw [all letter member] at other
    cases other
  intro letter member
  exact ⟨apart letter member _ (not_wordChar_ascii (by decide) (by decide)),
    apart letter member _ (not_wordChar_ascii (by decide) (by decide)),
    apart letter member _ (not_wordChar_ascii (by decide) (by decide))⟩

omit [RegexTables] in
theorem modeAfter_append (before letters : List Char) :
    Annotation.modeAfter (before ++ letters) =
      letters.foldl Annotation.step ( Annotation.modeAfter before) := List.foldl_append ..

/-- Renamed labels leave the text outside the annotations alone. -/
theorem Relabelled.outside_eq {before : List Char} {left right : List (Run Char)}
    (relabelled : Relabelled grammar before left right)
    (separated : Separated UnicodeTables.wordChar left)
    (apart : Separated UnicodeTables.wordChar right) :
    Annotation.outside ( Annotation.modeAfter before) (text left) =
      Annotation.outside ( Annotation.modeAfter before) (text right) := by
  induction relabelled with
  | done => rfl
  | same run rest ih =>
      have tails {runs : List (Run Char)} (separated : Separated UnicodeTables.wordChar (run :: runs)) :
          Separated UnicodeTables.wordChar runs := by
        cases run with
        | word letters => exact separated.2.2.2
        | mark letter => exact separated.2
      have later := ih (tails separated) (tails apart)
      rw [modeAfter_append] at later
      rw [text_cons, text_cons, Annotation.outside_append, Annotation.outside_append, later]
  | renamed label rest ih =>
      have later := ih separated.2.2.2 apart.2.2.2
      have inside := grammar.inside _ label.opens
      obtain ⟨oldMode, oldText⟩ :=
        Annotation.quiet_inside separated.1 (quiet_word separated.2.1) inside
      obtain ⟨newMode, newText⟩ := Annotation.quiet_inside apart.1 (quiet_word apart.2.1) inside
      rw [modeAfter_append, oldMode] at later
      rw [text_cons, text_cons, Run.letters, Run.letters, Annotation.outside_append,
        Annotation.outside_append, oldMode, newMode, oldText, newText, later]

/-- Two texts with one canonical text differ in labels only, and a second pass changes nothing. -/
structure LabelsOnly (source : String) : Prop where
  labels : ∀ other, canonicalAstForDigest other = canonicalAstForDigest source →
    DifferOnlyInLabels grammar source other
  code : ∀ other, Annotation.outside .code other.toList ≠ Annotation.outside .code source.toList →
    canonicalAstForDigest other ≠ canonicalAstForDigest source
  idempotent : canonicalAstForDigest (canonicalAstForDigest source) = canonicalAstForDigest source

theorem OnlyLabels.labelsOnly {source : String} (only : OnlyLabels grammar source) :
    LabelsOnly grammar source := by
  have labels : ∀ other, canonicalAstForDigest other = canonicalAstForDigest source →
      DifferOnlyInLabels grammar source other := by
    intro other same
    rw [canonical_eq_iff] at same
    exact relabelled_of_relabel_eq grammar [] same.symm only
  refine ⟨labels, ?_, canonicalAstForDigest_idempotent source⟩
  intro other different same
  have outside := (labels other same).outside_eq grammar (separated_split _ _)
    (separated_split _ _)
  rw [runsOf, runsOf, text_split, text_split] at outside
  exact different outside.symm

omit [RegexTables] in
theorem colonNext_word (part : List (Run Char)) (old new : List Char) (after : List (Run Char)) :
    colonNext (part ++ .word old :: after) = colonNext (part ++ .word new :: after) := by
  induction part with
  | nil => rfl
  | cons run rest ih =>
      cases run with
      | word letters => rfl
      | mark letter => rw [List.cons_append, List.cons_append, colonNext, colonNext, ih]

omit [RegexTables] in
theorem relabel_word (part : List (Run Char)) {old new : List Char} {after : List (Run Char)}
    (was : generatedHead old = true) (now : generatedHead new = true)
    (colon : colonNext after = true) :
    relabel (part ++ .word old :: after) = relabel (part ++ .word new :: after) := by
  induction part with
  | nil =>
      rw [List.nil_append, List.nil_append, relabel, relabel, was, now, colon]
      rfl
  | cons run rest ih =>
      cases run with
      | word letters =>
          rw [List.cons_append, List.cons_append, relabel, relabel, ih,
            colonNext_word rest old new after]
      | mark letter => rw [List.cons_append, List.cons_append, relabel, relabel, ih]

omit [RegexTables] in
theorem startsWord_word (part : List (Run Char)) (old new : List Char) (after : List (Run Char)) :
    startsWord (part ++ .word old :: after) = startsWord (part ++ .word new :: after) := by
  cases part with
  | nil => rfl
  | cons run rest => cases run <;> rfl

theorem separated_word (part : List (Run Char)) {old new : List Char} {after : List (Run Char)}
    (filled : new ≠ []) (all : ∀ letter ∈ new, UnicodeTables.wordChar letter = true)
    (separated : Separated UnicodeTables.wordChar (part ++ .word old :: after)) :
    Separated UnicodeTables.wordChar (part ++ .word new :: after) := by
  induction part with
  | nil => exact ⟨filled, all, separated.2.2⟩
  | cons run rest ih =>
      cases run with
      | word letters =>
          obtain ⟨own, inner, fresh, later⟩ := separated
          exact ⟨own, inner, (startsWord_word rest new old after).trans fresh, ih later⟩
      | mark letter => exact ⟨separated.1, ih separated.2⟩

omit [RegexTables] in
/-- A word that another one replaces is a label of the grammar. -/
theorem Relabelled.opens {before : List Char} (part : List (Run Char)) {old new : List Char}
    {after : List (Run Char)} (different : old ≠ new)
    (relabelled : Relabelled grammar before (part ++ .word old :: after)
      (part ++ .word new :: after)) : grammar.opens (before ++ text part) = true := by
  induction part generalizing before with
  | nil =>
      rw [text, List.flatMap_nil, List.append_nil]
      cases relabelled with
      | same => exact absurd rfl different
      | renamed label rest => exact label.opens
  | cons run rest ih =>
      rw [text_cons, ← List.append_assoc]
      cases relabelled with
      | same _ tail => exact ih tail
      | renamed label tail => exact ih tail

/-- Another generated label is at hand. -/
theorem exists_other_label (word : List Char) : ∃ other, other ≠ word ∧
    generatedHead other = true ∧ other ≠ [] ∧
      ∀ letter ∈ other, UnicodeTables.wordChar letter = true := by
  by_cases canonical : word = canonicalLabel
  · refine ⟨['a', 'n', '_', '0', '0', '0', '0', '0', '0', '0', '1'], ?_, by decide, by decide,
      fun letter member => (@wordChar_of_generatedHead _
        ['a', 'n', '_', '0', '0', '0', '0', '0', '0', '0', '1'] (by decide)).2 letter
          member⟩
    rw [canonical]
    decide
  · exact ⟨canonicalLabel, fun same => canonical same.symm, canonicalLabel_spec.1,
      canonicalLabel_spec.2⟩

theorem LabelsOnly.onlyLabels {source : String} (free : LabelsOnly grammar source) :
    OnlyLabels grammar source := by
  intro before word after split generated colon
  obtain ⟨other, different, labelled, filled, all⟩ := exists_other_label word
  have separated := separated_split UnicodeTables.wordChar source.toList
  rw [show Run.split UnicodeTables.wordChar source.toList = _ from split] at separated
  have read : runsOf (String.ofList (text (before ++ .word other :: after))) =
      before ++ .word other :: after := by
    rw [runsOf, String.toList_ofList]
    exact split_text _ (separated_word before filled all separated)
  have same : canonicalAstForDigest (String.ofList (text (before ++ .word other :: after))) =
      canonicalAstForDigest source := by
    rw [canonical_eq_iff, read, split]
    exact relabel_word before labelled generated colon
  have relabelled := free.labels _ same
  rw [DifferOnlyInLabels, split, read] at relabelled
  exact relabelled.opens grammar before different.symm

/-- Only labels of annotations are canonicalized exactly where each generated word in front of a
colon is such a label. -/
theorem canonicalAstForDigest_labelsOnly_iff (source : String) :
    LabelsOnly grammar source ↔ OnlyLabels grammar source :=
  ⟨fun free => free.onlyLabels, fun only => only.labelsOnly⟩

end

/-- These tables know the ASCII characters only. -/
abbrev RegexTables.ascii : RegexTables where
  toUnicodeTables := .ascii
  spaceApart _ space := Lexeme.not_isWordChar_of_isWhitespace space

/-- This grammar lets a label start anywhere in an annotation. -/
def anywhereInside : LabelGrammar where
  opens before := Annotation.Mode.isAnnotation ( Annotation.modeAfter before)
  inside _ inside := inside

/-- Two structures with other bit-fields have one canonical text. -/
theorem not_canonicalAstForDigest_labelsOnly :
    ¬ ∀ [RegexTables] (grammar : LabelGrammar) (source : String), LabelsOnly grammar source := by
  intro free
  have code := @LabelsOnly.code .ascii anywhereInside _
    (@free .ascii anywhereInside "struct s { unsigned int an_deadbeef : 3 ; };")
    "struct s { unsigned int an_cafebabe : 3 ; };"
  exact code (by decide +kernel) (by decide +kernel)

end FramaCMcp.AstDigest
