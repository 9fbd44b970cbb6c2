/-
This file splits a command into words by the quoting rules of a shell.
-/

import Mathlib.Data.List.Basic
import Mathlib.Tactic.SplitIfs

namespace ShellWords

/-- A character stands outside quotes, in single quotes or in double quotes. A backslash outside
single quotes goes with the character after it. -/
inductive Atom where
  | bare (letter : Char)
  | escaped (letter : Char)
  | quote
  | literal (letter : Char)
  | inner (letter : Char)
  | innerEscaped (letter : Char)
  deriving DecidableEq, Repr

/-- The next character may come after a backslash. -/
inductive Place where
  | outside
  | escape
  | single
  | double
  | doubleEscape
  deriving DecidableEq, Repr

/-- A command that ends inside quotes or with a backslash has no atoms. -/
def atoms : Place → List Char → Option (List Atom)
  | .outside, [] => some []
  | .escape, [] => none
  | .single, [] => none
  | .double, [] => none
  | .doubleEscape, [] => none
  | .outside, letter :: rest =>
      if letter = '\'' then (atoms .single rest).map (.quote :: ·)
      else if letter = '"' then (atoms .double rest).map (.quote :: ·)
      else if letter = '\\' then atoms .escape rest
      else (atoms .outside rest).map (.bare letter :: ·)
  | .escape, letter :: rest => (atoms .outside rest).map (.escaped letter :: ·)
  | .single, letter :: rest =>
      if letter = '\'' then (atoms .outside rest).map (.quote :: ·)
      else (atoms .single rest).map (.literal letter :: ·)
  | .double, letter :: rest =>
      if letter = '"' then (atoms .outside rest).map (.quote :: ·)
      else if letter = '\\' then atoms .doubleEscape rest
      else (atoms .double rest).map (.inner letter :: ·)
  | .doubleEscape, letter :: rest => (atoms .double rest).map (.innerEscaped letter :: ·)

/-- An atom ends the word before it, goes away or adds letters to a word. -/
inductive Effect where
  | separate
  | skip
  | add (letters : List Char)
  deriving DecidableEq, Repr

def Effect.letters : Effect → List Char
  | .separate => []
  | .skip => []
  | .add letters => letters

def assemble (effect : Atom → Effect) : Option (List Char) → List Atom → List (List Char)
  | word, [] => word.toList
  | word, atom :: rest =>
      match effect atom with
      | .separate => word.toList ++ assemble effect none rest
      | .skip => assemble effect word rest
      | .add letters => assemble effect (some (word.getD [] ++ letters)) rest

/-- The words together have the letters that the atoms add. -/
theorem flatten_assemble (effect : Atom → Effect) (word : Option (List Char)) (command : List Atom) :
    (assemble effect word command).flatten =
      word.getD [] ++ command.flatMap fun atom => (effect atom).letters := by
  induction command generalizing word with
  | nil => cases word <;> simp [assemble]
  | cons atom rest ih =>
      rw [assemble, List.flatMap_cons]
      cases effect atom with
      | separate => cases word <;> simp [ih, Effect.letters]
      | skip => simp [ih, Effect.letters]
      | add letters => simp [ih, Effect.letters]

theorem assemble_congr {effect other : Atom → Effect} (word : Option (List Char))
    {command : List Atom} (same : ∀ atom ∈ command, effect atom = other atom) :
    assemble effect word command = assemble other word command := by
  induction command generalizing word with
  | nil => rfl
  | cons atom rest ih =>
      obtain ⟨own, others⟩ := List.forall_mem_cons.mp same
      simp only [assemble, own, ih _ others]

/-- Blanks and newlines end a word. -/
def isSeparator (letter : Char) : Bool := [' ', '\t', '\n'].contains letter

/-- In double quotes a backslash goes away before these characters only. -/
def isDoubleQuoteSpecial (letter : Char) : Bool := ['$', '`', '"', '\\'].contains letter

/-- A backslash with a newline goes away outside single quotes. -/
def posix : Atom → Effect
  | .bare letter => if isSeparator letter then .separate else .add [letter]
  | .escaped letter => if letter = '\n' then .skip else .add [letter]
  | .quote => .add []
  | .literal letter => .add [letter]
  | .inner letter => .add [letter]
  | .innerEscaped letter =>
      if letter = '\n' then .skip
      else if isDoubleQuoteSpecial letter then .add [letter]
      else .add ['\\', letter]

/-- These are the words of a complete command. No expansion takes place. -/
def posixWords (command : List Char) : Option (List (List Char)) :=
  (atoms .outside command).map (assemble posix none)

section Bare

/-- The character neither quotes nor ends a word. -/
def isBare (letter : Char) : Bool :=
  !isSeparator letter && letter != '\'' && letter != '"' && letter != '\\'

theorem atoms_cons_of_unquoted {letter : Char} (rest : List Char)
    (unquoted : letter ≠ '\'' ∧ letter ≠ '"' ∧ letter ≠ '\\') :
    atoms .outside (letter :: rest) = (atoms .outside rest).map (.bare letter :: ·) := by
  rw [atoms, if_neg unquoted.1, if_neg unquoted.2.1, if_neg unquoted.2.2]

theorem unquoted_of_isBare {letter : Char} (bare : isBare letter = true) :
    letter ≠ '\'' ∧ letter ≠ '"' ∧ letter ≠ '\\' := by
  simp only [isBare, Bool.and_eq_true, bne_iff_ne] at bare
  exact ⟨bare.1.1.2, bare.1.2, bare.2⟩

theorem posix_of_isBare {letter : Char} (bare : isBare letter = true) :
    posix (.bare letter) = .add [letter] := by
  simp only [isBare, Bool.and_eq_true, Bool.not_eq_true'] at bare
  rw [posix, bare.1.1.1]
  rfl

theorem atoms_append_of_bare {letters : List Char} (bare : ∀ letter ∈ letters, isBare letter = true)
    (rest : List Char) :
    atoms .outside (letters ++ rest) =
      (atoms .outside rest).map (letters.map Atom.bare ++ ·) := by
  induction letters with
  | nil => simp
  | cons letter letters ih =>
      obtain ⟨own, others⟩ := List.forall_mem_cons.mp bare
      rw [List.cons_append, atoms_cons_of_unquoted _ (unquoted_of_isBare own), ih others,
        Option.map_map]
      rfl

theorem assemble_append_of_bare {letters : List Char}
    (bare : ∀ letter ∈ letters, isBare letter = true) (word : List Char) (rest : List Atom) :
    assemble posix (some word) (letters.map Atom.bare ++ rest) =
      assemble posix (some (word ++ letters)) rest := by
  induction letters generalizing word with
  | nil => simp
  | cons letter letters ih =>
      obtain ⟨own, others⟩ := List.forall_mem_cons.mp bare
      rw [List.map_cons, List.cons_append, assemble, posix_of_isBare own]
      simp [ih others]

def IsBareWord (word : List Char) : Prop := word ≠ [] ∧ ∀ letter ∈ word, isBare letter = true

/-- Words of bare characters that blanks part are the words of the command. -/
theorem posixWords_intercalate {words : List (List Char)}
    (bare : ∀ word ∈ words, IsBareWord word) :
    posixWords ([' '].intercalate words) = some words := by
  induction words with
  | nil => rfl
  | cons word rest ih =>
      obtain ⟨⟨filled, own⟩, others⟩ := List.forall_mem_cons.mp bare
      obtain ⟨letter, letters, rfl⟩ := List.exists_cons_of_ne_nil filled
      obtain ⟨first, behind⟩ := List.forall_mem_cons.mp own
      have start (tail : List Atom) : assemble posix none
          ((letter :: letters).map Atom.bare ++ tail) =
          assemble posix (some (letter :: letters)) tail := by
        rw [List.map_cons, List.cons_append, assemble, posix_of_isBare first]
        exact assemble_append_of_bare behind [letter] tail
      cases rest with
      | nil =>
          have whole := atoms_append_of_bare own []
          rw [List.append_nil] at whole
          rw [List.intercalate_singleton, posixWords, whole]
          change some (assemble posix none ((letter :: letters).map Atom.bare ++ [])) = _
          rw [start]
          rfl
      | cons next later =>
          obtain ⟨command, parsed, split⟩ := Option.map_eq_some_iff.mp (ih others)
          rw [List.intercalate_cons_cons, posixWords, List.append_assoc, List.singleton_append,
            atoms_append_of_bare own, atoms_cons_of_unquoted _ (by decide), parsed]
          change some (assemble posix none ((letter :: letters).map Atom.bare ++
            .bare ' ' :: command)) = _
          rw [start, assemble]
          change some ((letter :: letters) :: assemble posix none command) = _
          rw [split]

theorem mem_intercalate {letter : Char} {words : List (List Char)}
    (member : letter ∈ [' '].intercalate words) : letter = ' ' ∨ ∃ word ∈ words, letter ∈ word := by
  induction words with
  | nil => cases member
  | cons word rest ih =>
      cases rest with
      | nil =>
          rw [List.intercalate_singleton] at member
          exact .inr ⟨word, List.mem_cons_self, member⟩
      | cons next later =>
          rw [List.intercalate_cons_cons, List.append_assoc] at member
          rcases List.mem_append.mp member with own | behind
          · exact .inr ⟨word, List.mem_cons_self, own⟩
          · rcases List.mem_cons.mp behind with blank | other
            · exact .inl blank
            · refine (ih other).imp id ?_
              rintro ⟨found, listed, inside⟩
              exact ⟨found, List.mem_cons_of_mem _ listed, inside⟩

end Bare

/-- These characters quote, expand, begin a comment or part commands. -/
def specialCharacters : List Char :=
  ['|', '&', ';', '<', '>', '(', ')', '$', '`', '\\', '"', '\'', '\t', '\n', '*', '?', '[', ']',
    '#', '~', '%', '!', '\x7b', '\x7d', '^']

end ShellWords
