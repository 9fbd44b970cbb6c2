/-
This file says which clauses a wrapped text contains.
-/

import FramaCMcp.Construction.Clauses
import FramaCMcp.Foundation.Lexemes

namespace FramaCMcp.Annotations

open Lexeme

def isContractWord (letters : List Char) : Bool :=
  letters == "requires".toList || letters == "ensures".toList

/-- A clause may be checked or admitted only. -/
def isModifier (letters : List Char) : Bool :=
  letters == "check".toList || letters == "admit".toList

/-- A clause starts, the name of a behavior or its colon is due, or a clause goes on. -/
inductive ClausePlace where
  | start | heading | named | inside
  deriving DecidableEq

def ClausePlace.word (letters : List Char) : ClausePlace → ClausePlace
  | .start =>
      if isModifier letters then .start
      else if letters = "behavior".toList then .heading
      else .inside
  | .heading => .named
  | .named => .inside
  | .inside => .inside

/-- A semicolon ends a clause, and a colon ends the heading of a behavior. -/
def ClausePlace.mark (letter : Char) : ClausePlace → ClausePlace
  | .named => if letter = ';' ∨ letter = ':' then .start else .inside
  | _ => if letter = ';' then .start else .inside

/-- The clauses read so far lead to a place, and one of them may be a contract. -/
structure Clauses where
  place : ClausePlace
  met : Bool
  deriving DecidableEq

def clauses : Consumer Clauses where
  word state letters := {
    place := state.place.word letters
    met := state.met || (state.place == .start && isContractWord letters) }
  mark state letter := { state with place := state.place.mark letter }

def contractFrom (place : ClausePlace) : Reader Clauses := ⟨.code [], ⟨place, false⟩⟩

/-- One of the clauses of a text is a contract. -/
def containsContract (text : String) : Bool :=
  (consume clauses (contractFrom .start) text.toList).state.met

/-- A contract follows the clause that the text goes on with. -/
def hidesContract (text : String) : Bool :=
  (consume clauses (contractFrom .inside) text.toList).state.met

/-- A keyword between two texts ends what is open, but no comment and no literal. -/
def reopen (reader : Reader Clauses) : Reader Clauses :=
  match reader.mode with
  | .code _ => ⟨.code [], ⟨.inside, reader.state.met⟩⟩
  | .slash => ⟨.code [], ⟨.inside, reader.state.met⟩⟩
  | .escaped double => ⟨.quoted double, reader.state⟩
  | _ => reader

def consumeNext (reader : Reader Clauses) (text : String) : Reader Clauses :=
  consume clauses (reopen reader) text.toList

/-- These texts stand behind the keywords of a behavior. -/
def behaviorTexts (keyword : String) (assumes : List String) (body : String) : List String :=
  (assumes.map fun text => trim (trimEndMatches [';'] (trim text))) ++ [clauseBody keyword body]

/-- A contract stands in the name of a behavior or in one of the texts behind it. -/
def behaviorHides (name : String) (texts : List String) : Bool :=
  (texts.foldl consumeNext (consume clauses (contractFrom .heading) name.toList)).state.met

theorem met_mark (state : Clauses) (letter : Char) : (clauses.mark state letter).met = state.met :=
  rfl

/-- This keyword is one word that opens no contract. -/
structure IsKeyword (keyword : String) : Prop where
  letters : ∀ letter ∈ keyword.toList, isWordChar letter = true
  filled : keyword.toList ≠ []
  inside : ClausePlace.word keyword.toList .start = .inside
  harmless : isContractWord keyword.toList = false

theorem isKeyword_of_mem (keyword : String) (member : keyword ∈ ["terminates", "decreases", "exits",
    "assigns", "assumes", "complete", "disjoint"]) : IsKeyword keyword := by
  simp only [List.mem_cons, List.not_mem_nil, or_false] at member
  rcases member with rfl | rfl | rfl | rfl | rfl | rfl | rfl <;>
    exact ⟨List.all_eq_true.mp (by decide), by decide, by decide, by decide⟩

section Keywords

variable {keyword : String} (single : IsKeyword keyword)

include single

theorem flush_keyword (state : Clauses) (apart : state.place = .start ∨ state.place = .inside) :
    Reader.flush clauses ⟨.code keyword.toList, state⟩ = ⟨.code [], ⟨.inside, state.met⟩⟩ := by
  obtain ⟨letter, rest, same⟩ := List.exists_cons_of_ne_nil single.filled
  have next : state.place.word keyword.toList = .inside := by
    rcases apart with start | inside
    · rw [start, single.inside]
    · rw [inside, ClausePlace.word]
  have harmless := single.harmless
  rw [same] at next harmless ⊢
  simp [Reader.flush, clauses, next, harmless]

/-- A keyword and a blank leave the reader inside of a clause. -/
theorem foldl_keyword (state : Clauses) (apart : state.place = .start ∨ state.place = .inside) :
    (keyword.toList ++ [' ']).foldl (feed clauses) ⟨.code [], state⟩ =
      ⟨.code [], ⟨.inside, state.met⟩⟩ := by
  rw [List.foldl_append, foldl_word clauses [] state single.letters, List.nil_append,
    List.foldl_cons, List.foldl_nil]
  show readCode clauses keyword.toList state ' ' = _
  rw [readCode, if_neg (by decide), flush_keyword single _ apart]
  rfl

theorem apart_of_keyword {letter : Char} (member : letter ∈ keyword.toList ++ [' ']) :
    letter ≠ '\n' ∧ letter ≠ '\\' ∧ letter ≠ '"' ∧ letter ≠ '\'' := by
  rcases List.mem_append.mp member with member | member
  · have word := single.letters letter member
    refine ⟨?_, ?_, ?_, ?_⟩ <;> rintro rfl <;> exact absurd word (by decide)
  · obtain rfl := List.mem_singleton.mp member
    decide

/-- The mark and the keyword between two texts. -/
theorem foldl_between (reader : Reader Clauses) {mark : Char} (ends : mark = ';' ∨ mark = ':') :
    (mark :: ' ' :: (keyword.toList ++ [' '])).foldl (feed clauses) reader =
      reopen (reader.flush clauses) := by
  have plain : ∀ letter ∈ mark :: ' ' :: (keyword.toList ++ [' ']),
      letter ≠ '\n' ∧ letter ≠ '\\' ∧ letter ≠ '"' ∧ letter ≠ '\'' := by
    intro letter member
    rcases List.mem_cons.mp member with rfl | member
    · rcases ends with rfl | rfl <;> decide
    · rcases List.mem_cons.mp member with rfl | member
      · decide
      · exact apart_of_keyword single member
  have stays : ∀ (reader : Reader Clauses) (text : List Char), (∀ letter ∈ text,
      feed clauses reader letter = reader) → text.foldl (feed clauses) reader = reader := by
    intro reader text same
    induction text with
    | nil => rfl
    | cons letter rest ih =>
        rw [List.foldl_cons, same letter List.mem_cons_self,
          ih fun other member => same other (List.mem_cons_of_mem _ member)]
  have code : ∀ state : Clauses, (' ' :: (keyword.toList ++ [' '])).foldl (feed clauses)
      (separate clauses state mark) = ⟨.code [], ⟨.inside, state.met⟩⟩ := by
    intro state
    have marked : separate clauses state mark = ⟨.code [], clauses.mark state mark⟩ := by
      rcases ends with rfl | rfl <;> rfl
    have place : state.place.mark mark = .start ∨ state.place.mark mark = .inside := by
      rcases ends with rfl | rfl <;> cases state.place <;> decide
    rw [marked, List.foldl_cons, ← met_mark state mark]
    exact foldl_keyword single _ place
  have apart : isWordChar mark = false := by rcases ends with rfl | rfl <;> decide
  obtain ⟨mode, state⟩ := reader
  cases mode with
  | code word =>
      rw [List.foldl_cons]
      show List.foldl _ (readCode clauses word state mark) _ = _
      rw [readCode, if_neg (by simp [apart]), code]
      cases word <;> rfl
  | slash =>
      have step : feed clauses ⟨.slash, state⟩ mark =
          separate clauses (clauses.mark state '/') mark := by
        rcases ends with rfl | rfl <;> rfl
      rw [List.foldl_cons, step, code]
      rfl
  | comment =>
      refine stays _ _ fun letter member => ?_
      exact if_neg (plain letter member).1
  | quoted double =>
      refine stays _ _ fun letter member => ?_
      obtain ⟨line, escape, one, two⟩ := plain letter member
      cases double <;> simp [feed, *]
  | escaped double =>
      rw [List.foldl_cons]
      refine stays ⟨.quoted double, state⟩ _ fun letter member => ?_
      obtain ⟨line, escape, one, two⟩ := plain letter (List.mem_cons_of_mem _ member)
      cases double <;> simp [feed, *]

end Keywords

section Texts

/-- The semicolons at the end of a text start no contract. -/
theorem met_semicolons (reader : Reader Clauses) (text : String) :
    (consume clauses reader (trimEndMatches [';'] text).toList).state.met =
      (consume clauses reader text.toList).state.met := by
  obtain ⟨tail, same, semicolons⟩ := Line.append_reverse_dropWhile [';'].contains text.toList
  rw [trimEndMatches, String.toList_ofList]
  conv_rhs => rw [same]
  refine (observe_consume clauses Clauses.met met_mark reader _ ?_).symm
  intro letter member
  obtain rfl : letter = ';' := by simpa using semicolons letter member
  decide

theorem met_trim (state : Clauses) (text : String) :
    (consume clauses ⟨.code [], state⟩ (trim text).toList).state.met =
      (consume clauses ⟨.code [], state⟩ text.toList).state.met := by
  rw [trim, String.toList_ofList]
  exact observe_trim clauses Clauses.met met_mark state text.toList

theorem hidesContract_trim (text : String) : hidesContract (trim text) = hidesContract text :=
  met_trim _ text

theorem hidesContract_semicolons (text : String) :
    hidesContract (trimEndMatches [';'] text) = hidesContract text := met_semicolons _ text

variable {keyword : String}

theorem hidesContract_stripLeadingKeyword (single : IsKeyword keyword) (body : String) :
    hidesContract (stripLeadingKeyword body keyword) = hidesContract body := by
  rw [stripLeadingKeyword, ← hidesContract_trim body]
  split_ifs with stripped
  · rw [Bool.and_eq_true, Text.startsWith, List.isPrefixOf_iff_prefix] at stripped
    obtain ⟨⟨rest, same⟩, apart⟩ := stripped
    have after : (trim body).toList.drop keyword.length = rest := by
      rw [← same, ← String.length_toList, List.drop_left]
    rw [after] at apart ⊢
    rw [hidesContract_trim, hidesContract, hidesContract, String.toList_ofList, ← same,
      consume_append, contractFrom, foldl_word clauses [] _ single.letters, List.nil_append]
    have flushed := flush_keyword single ⟨.inside, false⟩ (.inr rfl)
    cases rest with
    | nil => exact congrArg (fun reader => reader.state.met) flushed.symm
    | cons letter later =>
        have space : Text.isWhitespace letter = true := by simpa using apart
        have other := not_isWordChar_of_isWhitespace space
        have step : ∀ word, feed clauses ⟨.code word, ⟨.inside, false⟩⟩ letter =
            separate clauses (Reader.flush clauses ⟨.code word, ⟨.inside, false⟩⟩).state letter :=
          fun word => if_neg (by simp [other])
        rw [consume, consume, List.foldl_cons, List.foldl_cons, step, step, flushed]
        rfl
  · rfl

/-- A contract is hidden in the wrapped body exactly where it is hidden in the given one. -/
theorem hidesContract_clauseBody (single : IsKeyword keyword) (body : String) :
    hidesContract (clauseBody keyword body) = hidesContract body := by
  rw [clauseBody, hidesContract_trim, hidesContract_semicolons,
    hidesContract_stripLeadingKeyword single, hidesContract_trim, hidesContract_semicolons,
    hidesContract_trim]

theorem met_semicolon (reader : Reader Clauses) (text : List Char) :
    (consume clauses reader (text ++ [';'])).state.met = (consume clauses reader text).state.met :=
  observe_consume clauses Clauses.met met_mark reader text (List.forall_mem_singleton.mpr (by decide))

/-- A plain clause contains a contract exactly where its text hides one. -/
theorem containsContract_clause (single : IsKeyword keyword) (body : String) :
    containsContract (keyword ++ " " ++ clauseBody keyword body ++ ";") = hidesContract body := by
  have parts : (keyword ++ " " ++ clauseBody keyword body ++ ";").toList =
      (keyword.toList ++ [' ']) ++ ((clauseBody keyword body).toList ++ [';']) := by
    simp [String.toList_append]
  rw [containsContract, parts, consume_append, contractFrom, foldl_keyword single _ (.inl rfl),
    met_semicolon, ← hidesContract_clauseBody single, hidesContract, contractFrom]

example : hidesContract "\\nothing; // frame\n requires x > 0;" = true ∧
    hidesContract "\\nothing; @ requires x > 0;" = true ∧
    hidesContract "\\nothing; // requires x > 0;" = false := by decide

/-- The assumes clauses stand before the clause of the behavior. -/
theorem met_behavior (single : IsKeyword keyword) (assumes : List String) (body : String)
    (reader : Reader Clauses) {mark : Char} (ends : mark = ';' ∨ mark = ':') :
    (consume clauses reader (mark :: ((String.join (assumes.map assumesClause)).toList ++
        (" " ++ keyword ++ " " ++ body ++ ";").toList))).state.met =
      (((assumes.map fun text => trim (trimEndMatches [';'] (trim text))) ++ [body]).foldl
        consumeNext (reader.flush clauses)).state.met := by
  induction assumes generalizing reader mark with
  | nil =>
      have parts : mark :: ((String.join (([] : List String).map assumesClause)).toList ++
          (" " ++ keyword ++ " " ++ body ++ ";").toList) =
            (mark :: ' ' :: (keyword.toList ++ [' '])) ++ (body.toList ++ [';']) := by
        simp [String.toList_append]
      rw [parts, consume_append, foldl_between single reader ends, met_semicolon]
      rfl
  | cons first others ih =>
      have parts : mark :: ((String.join ((first :: others).map assumesClause)).toList ++
          (" " ++ keyword ++ " " ++ body ++ ";").toList) =
            (mark :: ' ' :: ("assumes".toList ++ [' '])) ++
              ((trim (trimEndMatches [';'] (trim first))).toList ++
                ';' :: ((String.join (others.map assumesClause)).toList ++
                  (" " ++ keyword ++ " " ++ body ++ ";").toList)) := by
        simp [assumesClause, String.toList_append]
      rw [parts, consume_append, foldl_between (isKeyword_of_mem "assumes" (by simp)) reader ends, consume_append,
        ih _ (.inl rfl), List.map_cons, List.cons_append, List.foldl_cons, consumeNext, consume]

theorem containsContract_behavior (single : IsKeyword keyword) (name body : String)
    (assumes : List String) :
    containsContract ("behavior " ++ name ++ ":" ++ String.join (assumes.map assumesClause) ++
        " " ++ keyword ++ " " ++ clauseBody keyword body ++ ";") =
      behaviorHides name (behaviorTexts keyword assumes body) := by
  have parts : ("behavior " ++ name ++ ":" ++ String.join (assumes.map assumesClause) ++
      " " ++ keyword ++ " " ++ clauseBody keyword body ++ ";").toList =
        "behavior ".toList ++ (name.toList ++
          ':' :: ((String.join (assumes.map assumesClause)).toList ++
            (" " ++ keyword ++ " " ++ clauseBody keyword body ++ ";").toList)) := by
    simp [String.toList_append]
  have heading : "behavior ".toList.foldl (feed clauses) (contractFrom .start) =
      contractFrom .heading := by decide
  rw [containsContract, parts, consume_append, heading, consume_append,
    met_behavior single _ _ _ (.inr rfl)]
  rfl

theorem containsContract_group (single : IsKeyword keyword) (names : List String) :
    containsContract (behaviorGroupText keyword names) = hidesContract (Text.join names ", ") := by
  have opened := foldl_keyword single ⟨.start, false⟩ (.inl rfl)
  rw [behaviorGroupText]
  split_ifs with empty
  · subst empty
    have parts : (keyword ++ " behaviors;").toList =
        (keyword.toList ++ [' ']) ++ "behaviors;".toList := by simp [String.toList_append]
    rw [containsContract, parts, consume_append, contractFrom, opened]
    decide
  · have parts : (keyword ++ " behaviors " ++ Text.join names ", " ++ ";").toList =
        (keyword.toList ++ [' ']) ++
          ("behaviors ".toList ++ ((Text.join names ", ").toList ++ [';'])) := by
      simp [String.toList_append]
    have group : "behaviors ".toList.foldl (feed clauses) (contractFrom .inside) =
        contractFrom .inside := by decide
    rw [containsContract, parts, consume_append, contractFrom, opened, ← contractFrom,
      consume_append, group, met_semicolon, hidesContract]

/-- The last semicolon adds no contract. -/
theorem containsContract_normalizeAcsl (text : String) :
    containsContract (normalizeAcsl text) = containsContract text := by
  have parts : (normalizeAcsl text).toList =
      (trim (trimEndMatches [';'] (trim text))).toList ++ [';'] := by
    simp [normalizeAcsl, String.toList_append]
  rw [containsContract, containsContract, parts, met_semicolon, contractFrom, met_trim,
    met_semicolons, met_trim]

theorem hidesContract_blank {text : String} (blank : isBlank text = true) :
    hidesContract text = false := by
  rw [hidesContract, consume, contractFrom, foldl_spaces clauses _ (List.all_eq_true.mp blank)]
  rfl

end Texts

end FramaCMcp.Annotations
