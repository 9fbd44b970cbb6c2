/-
This file reads a text of annotations as words and marks, one character after the other.
-/

import FramaCMcp.Foundation.Lines

namespace Lexeme

/-- A word has ASCII letters, digits and underscores. -/
def isWordChar (letter : Char) : Bool := letter.isAlphanum || letter == '_'

theorem not_isWordChar_of_isWhitespace {letter : Char} (space : Text.isWhitespace letter = true) :
    isWordChar letter = false := by
  have codes : letter.toNat ≤ 32 ∨ 128 ≤ letter.toNat := by
    simp only [Text.isWhitespace, List.mem_cons, List.not_mem_nil, or_false,
      decide_eq_true_eq] at space
    omega
  rw [Bool.eq_false_iff]
  intro word
  rw [isWordChar, Bool.or_eq_true, Text.isAlphanum_iff, beq_iff_eq] at word
  rcases word with range | rfl
  · omega
  · exact absurd codes (by decide)

/-- The characters read so far leave a word, one slash, a comment or a literal open. -/
inductive Mode where
  | code (word : List Char)
  | slash
  | comment
  | quoted (double : Bool)
  | escaped (double : Bool)
  deriving DecidableEq

/-- A consumer takes the words and marks of a text in their order. -/
structure Consumer (State : Type) where
  word : State → List Char → State
  mark : State → Char → State

structure Reader (State : Type) where
  mode : Mode
  state : State
  deriving DecidableEq

variable {State : Type} (consumer : Consumer State)

/-- An open word ends here. -/
def Reader.flush (reader : Reader State) : Reader State :=
  match reader.mode with
  | .code (letter :: rest) => ⟨.code [], consumer.word reader.state (letter :: rest)⟩
  | _ => reader

/-- White space and at signs only separate, and a literal counts as its first quote. -/
def separate (state : State) (letter : Char) : Reader State :=
  if Text.isWhitespace letter || letter == '@' then ⟨.code [], state⟩
  else if letter = '/' then ⟨.slash, state⟩
  else if letter = '"' ∨ letter = '\'' then ⟨.quoted (letter == '"'), consumer.mark state letter⟩
  else ⟨.code [], consumer.mark state letter⟩

def readCode (word : List Char) (state : State) (letter : Char) : Reader State :=
  if isWordChar letter then ⟨.code (word ++ [letter]), state⟩
  else separate consumer (Reader.flush consumer ⟨.code word, state⟩).state letter

/-- Two slashes open a comment up to the end of the line, where a literal ends at the latest. -/
def feed (reader : Reader State) (letter : Char) : Reader State :=
  match reader.mode with
  | .code word => readCode consumer word reader.state letter
  | .slash =>
      if letter = '/' then ⟨.comment, reader.state⟩
      else readCode consumer [] (consumer.mark reader.state '/') letter
  | .comment => if letter = '\n' then ⟨.code [], reader.state⟩ else reader
  | .quoted double =>
      if letter = '\\' then ⟨.escaped double, reader.state⟩
      else if letter = (if double then '"' else '\'') ∨ letter = '\n' then ⟨.code [], reader.state⟩
      else reader
  | .escaped double => ⟨.quoted double, reader.state⟩

/-- The reader takes a whole text. -/
def consume (reader : Reader State) (text : List Char) : Reader State :=
  (text.foldl (feed consumer) reader).flush consumer

theorem consume_append (reader : Reader State) (left right : List Char) :
    consume consumer reader (left ++ right) =
      consume consumer (left.foldl (feed consumer) reader) right := by
  rw [consume, List.foldl_append, consume]

theorem foldl_spaces (state : State) {text : List Char}
    (blank : ∀ letter ∈ text, Text.isWhitespace letter = true) :
    text.foldl (feed consumer) ⟨.code [], state⟩ = ⟨.code [], state⟩ := by
  induction text with
  | nil => rfl
  | cons letter rest ih =>
      have space := blank letter List.mem_cons_self
      have step : feed consumer ⟨.code [], state⟩ letter = ⟨.code [], state⟩ := by
        simp [feed, readCode, not_isWordChar_of_isWhitespace space, separate, space, Reader.flush]
      rw [List.foldl_cons, step, ih fun other member => blank other (List.mem_cons_of_mem _ member)]

theorem foldl_word (word : List Char) (state : State) {text : List Char}
    (letters : ∀ letter ∈ text, isWordChar letter = true) :
    text.foldl (feed consumer) ⟨.code word, state⟩ = ⟨.code (word ++ text), state⟩ := by
  induction text generalizing word with
  | nil => rw [List.append_nil, List.foldl_nil]
  | cons letter rest ih =>
      have step : feed consumer ⟨.code word, state⟩ letter = ⟨.code (word ++ [letter]), state⟩ := by
        exact if_pos (letters letter List.mem_cons_self)
      rw [List.foldl_cons, step, ih _ fun other member =>
        letters other (List.mem_cons_of_mem _ member), List.append_assoc, List.singleton_append]

section Observation

variable {Value : Type} (observe : State → Value)
  (unmarked : ∀ state letter, observe (consumer.mark state letter) = observe state)

include unmarked

theorem observe_separate (state : State) (letter : Char) :
    observe (separate consumer state letter).state = observe state ∧
      (separate consumer state letter).flush consumer = separate consumer state letter := by
  rw [separate]
  split_ifs <;> simp [unmarked, Reader.flush]

/-- A character outside words adds nothing but a mark. -/
theorem observe_feed (reader : Reader State) {letter : Char} (apart : isWordChar letter = false) :
    observe ((feed consumer reader letter).flush consumer).state =
      observe (reader.flush consumer).state := by
  have code : ∀ word state, observe ((readCode consumer word state letter).flush consumer).state =
      observe (Reader.flush consumer ⟨.code word, state⟩).state := by
    intro word state
    obtain ⟨kept, flushed⟩ := observe_separate consumer observe unmarked
      (Reader.flush consumer ⟨.code word, state⟩).state letter
    rw [readCode, if_neg (by simp [apart]), flushed, kept]
  obtain ⟨mode, state⟩ := reader
  cases mode with
  | code word => exact code word state
  | slash =>
      simp only [feed]
      split_ifs
      · rfl
      · exact (code [] (consumer.mark state '/')).trans (unmarked state '/')
  | comment =>
      simp only [feed]
      split_ifs <;> rfl
  | quoted double =>
      simp only [feed]
      split_ifs <;> rfl
  | escaped double => rfl

theorem observe_consume (reader : Reader State) (left : List Char) {right : List Char}
    (apart : ∀ letter ∈ right, isWordChar letter = false) :
    observe (consume consumer reader (left ++ right)).state =
      observe (consume consumer reader left).state := by
  induction right generalizing left with
  | nil => rw [List.append_nil]
  | cons letter rest ih =>
      have step := observe_feed consumer observe unmarked (left.foldl (feed consumer) reader)
        (apart letter List.mem_cons_self)
      rw [← List.singleton_append, ← List.append_assoc,
        ih (left ++ [letter]) fun other member => apart other (List.mem_cons_of_mem _ member),
        consume, List.foldl_append, List.foldl_cons, List.foldl_nil, step, consume]

/-- White space at the ends changes nothing where no word is open. -/
theorem observe_trim (state : State) (text : Line) :
    observe (consume consumer ⟨.code [], state⟩ (Line.trim text)).state =
      observe (consume consumer ⟨.code [], state⟩ text).state := by
  obtain ⟨lead, tail, split, front, back⟩ := Line.trim_split text
  conv_rhs => rw [split]
  rw [observe_consume consumer observe unmarked _ _ fun letter member =>
    not_isWordChar_of_isWhitespace (back letter member), consume_append,
    foldl_spaces consumer state front]

end Observation

end Lexeme
