/-
This file compares the splitting of a command with the words of a shell.
-/

import FramaCMcp.Construction.LoadCommand
import FramaCMcp.Foundation.ShellWords

namespace FramaCMcp.CompileEntry

open ShellWords

/-- Each backslash that is not in single quotes goes away, and all white space ends a word. -/
def spoken : Atom → Effect
  | .bare letter => if Text.isWhitespace letter then .separate else .add [letter]
  | .escaped letter => .add [letter]
  | .quote => .add []
  | .literal letter => .add [letter]
  | .inner letter => .add [letter]
  | .innerEscaped letter => .add [letter]

section Splitting

variable {command : List Char} {read : List Atom}

theorem assemble_single (word : List Char) (complete : atoms .single command = some read) :
    ∃ later, atoms .outside (command.dropWhile (· != '\'')).tail = some later ∧
      assemble spoken (some word) read =
        assemble spoken (some (word ++ command.takeWhile (· != '\''))) later := by
  induction command generalizing word read with
  | nil => cases complete
  | cons letter rest ih =>
      rw [atoms] at complete
      split_ifs at complete with closing
      · obtain ⟨later, parsed, rfl⟩ := Option.map_eq_some_iff.mp complete
        subst closing
        refine ⟨later, parsed, ?_⟩
        simp [assemble, spoken]
      · obtain ⟨inside, parsed, rfl⟩ := Option.map_eq_some_iff.mp complete
        obtain ⟨later, behind, same⟩ := ih (word ++ [letter]) parsed
        have goes : (letter != '\'') = true := bne_iff_ne.mpr closing
        refine ⟨later, ?_, ?_⟩
        · rw [List.dropWhile_cons, if_pos goes]
          exact behind
        · rw [List.takeWhile_cons, if_pos goes, assemble]
          simpa [spoken] using same

theorem assemble_double (word : List Char) (complete : atoms .double command = some read) :
    ∃ later, atoms .outside (pushDoubleQuoted command word).2 = some later ∧
      assemble spoken (some word) read =
        assemble spoken (some (pushDoubleQuoted command word).1) later := by
  fun_induction pushDoubleQuoted command word generalizing read with
  | case1 word => cases complete
  | case2 word rest =>
      rw [atoms, if_pos rfl] at complete
      obtain ⟨later, parsed, rfl⟩ := Option.map_eq_some_iff.mp complete
      refine ⟨later, parsed, ?_⟩
      simp [assemble, spoken]
  | case3 word => cases complete
  | case4 word next later quote ih =>
      rw [atoms, if_neg quote, if_pos rfl, atoms] at complete
      obtain ⟨inside, parsed, rfl⟩ := Option.map_eq_some_iff.mp complete
      obtain ⟨rest, behind, same⟩ := ih parsed
      exact ⟨rest, behind, same⟩
  | case5 letter rest word quote backslash ih =>
      rw [atoms, if_neg quote, if_neg backslash] at complete
      obtain ⟨inside, parsed, rfl⟩ := Option.map_eq_some_iff.mp complete
      obtain ⟨later, behind, same⟩ := ih parsed
      exact ⟨later, behind, same⟩

/-- A complete command is split by what the code makes of each atom. -/
theorem shellWordsFrom_eq (word : Option (List Char))
    (complete : atoms .outside command = some read) :
    shellWordsFrom word command = assemble spoken word read := by
  fun_induction shellWordsFrom word command generalizing read with
  | case1 word =>
      obtain rfl := Option.some.inj complete
      rfl
  | case2 word letter rest space ih =>
      have unquoted : letter ≠ '\'' ∧ letter ≠ '"' ∧ letter ≠ '\\' := by
        refine ⟨?_, ?_, ?_⟩ <;> rintro rfl <;> exact absurd space (by decide)
      rw [atoms_cons_of_unquoted rest unquoted] at complete
      obtain ⟨later, parsed, rfl⟩ := Option.map_eq_some_iff.mp complete
      rw [assemble, spoken, if_pos space, ih parsed]
  | case3 word rest space ih =>
      rw [atoms, if_pos rfl] at complete
      obtain ⟨inside, parsed, rfl⟩ := Option.map_eq_some_iff.mp complete
      obtain ⟨later, behind, same⟩ := assemble_single (word.getD []) parsed
      rw [ih behind, ← same]
      simp [assemble, spoken]
  | case4 word rest space single ih =>
      rw [atoms, if_neg single, if_pos rfl] at complete
      obtain ⟨inside, parsed, rfl⟩ := Option.map_eq_some_iff.mp complete
      obtain ⟨later, behind, same⟩ := assemble_double (word.getD []) parsed
      rw [ih behind, ← same]
      simp [assemble, spoken]
  | case5 word rest space single double ih =>
      rw [atoms, if_neg single, if_neg double, if_pos rfl] at complete
      cases rest with
      | nil => cases complete
      | cons next later =>
          rw [atoms] at complete
          obtain ⟨inside, parsed, rfl⟩ := Option.map_eq_some_iff.mp complete
          exact ih parsed
  | case6 word letter rest space single double backslash ih =>
      rw [atoms_cons_of_unquoted rest ⟨single, double, backslash⟩] at complete
      obtain ⟨later, parsed, rfl⟩ := Option.map_eq_some_iff.mp complete
      rw [assemble, spoken, if_neg space, ih parsed]

end Splitting

section Agreement

/-- White space outside quotes is a separator of the shell, no newline follows a backslash, and a
backslash in double quotes goes away in the shell as well. -/
def FollowsPosix : Atom → Prop
  | .bare letter => Text.isWhitespace letter = true → isSeparator letter = true
  | .escaped letter => letter ≠ '\n'
  | .innerEscaped letter => isDoubleQuoteSpecial letter = true
  | _ => True

theorem isWhitespace_of_isSeparator {letter : Char} (separator : isSeparator letter = true) :
    Text.isWhitespace letter = true := by
  simp only [isSeparator, List.contains_eq_mem, List.mem_cons, List.not_mem_nil, or_false,
    decide_eq_true_eq] at separator
  rcases separator with rfl | rfl | rfl <;> decide

theorem spoken_eq_posix {atom : Atom} (follows : FollowsPosix atom) : spoken atom = posix atom := by
  cases atom with
  | bare letter =>
      rw [spoken, posix]
      by_cases separator : isSeparator letter = true
      · rw [if_pos separator, if_pos (isWhitespace_of_isSeparator separator)]
      · rw [if_neg separator, if_neg fun space => separator (follows space)]
  | escaped letter => rw [spoken, posix, if_neg follows]
  | innerEscaped letter =>
      have special : isDoubleQuoteSpecial letter = true := follows
      have other : letter ≠ '\n' := by
        rintro rfl
        exact absurd special (by decide)
      rw [spoken, posix, if_neg other, if_pos special]
  | quote => rfl
  | literal letter => rfl
  | inner letter => rfl

def newlines (letters : List Char) : Nat := letters.countP (· == '\n')

def others (letters : List Char) : Nat := letters.countP (· != '\n')

/-- The code never loses a newline and never gains another character. It does neither only where it
follows the shell. -/
theorem letters_spoken (atom : Atom) :
    newlines (posix atom).letters ≤ newlines (spoken atom).letters ∧
      others (spoken atom).letters ≤ others (posix atom).letters ∧
      (newlines (posix atom).letters = newlines (spoken atom).letters →
        others (spoken atom).letters = others (posix atom).letters → FollowsPosix atom) := by
  cases atom with
  | bare letter =>
      by_cases separator : isSeparator letter = true
      · have space := isWhitespace_of_isSeparator separator
        simp [spoken, posix, separator, space, FollowsPosix]
      · by_cases space : Text.isWhitespace letter = true
        · have other : letter ≠ '\n' := by
            rintro rfl
            exact separator (by decide)
          simp [spoken, posix, separator, space, Effect.letters, newlines, others, other]
        · simp [spoken, posix, separator, space, FollowsPosix]
  | escaped letter =>
      by_cases newline : letter = '\n'
      · subst newline
        simp [spoken, posix, Effect.letters, newlines, others]
      · simp [spoken, posix, newline, FollowsPosix]
  | innerEscaped letter =>
      by_cases newline : letter = '\n'
      · subst newline
        simp [spoken, posix, Effect.letters, newlines, others]
      · by_cases special : isDoubleQuoteSpecial letter = true
        · simp [spoken, posix, newline, special, FollowsPosix]
        · simp [spoken, posix, newline, special, Effect.letters, newlines, others]
  | quote => simp [spoken, posix, FollowsPosix]
  | literal letter => simp [spoken, posix, FollowsPosix]
  | inner letter => simp [spoken, posix, FollowsPosix]

def lettersOf (effect : Atom → Effect) (command : List Atom) : List Char :=
  command.flatMap fun atom => (effect atom).letters

theorem letters_command (command : List Atom) :
    newlines (lettersOf posix command) ≤ newlines (lettersOf spoken command) ∧
      others (lettersOf spoken command) ≤ others (lettersOf posix command) ∧
      (newlines (lettersOf posix command) = newlines (lettersOf spoken command) →
        others (lettersOf spoken command) = others (lettersOf posix command) →
        ∀ atom ∈ command, FollowsPosix atom) := by
  induction command with
  | nil => exact ⟨le_rfl, le_rfl, fun _ _ => nofun⟩
  | cons atom rest ih =>
      obtain ⟨ownNewlines, ownOthers, own⟩ := letters_spoken atom
      obtain ⟨restNewlines, restOthers, behind⟩ := ih
      have split (effect : Atom → Effect) :
          newlines (lettersOf effect (atom :: rest)) =
              newlines (effect atom).letters + newlines (lettersOf effect rest) ∧
            others (lettersOf effect (atom :: rest)) =
              others (effect atom).letters + others (lettersOf effect rest) := by
        rw [lettersOf, List.flatMap_cons, newlines, others]
        exact ⟨List.countP_append, List.countP_append⟩
      rw [(split posix).1, (split posix).2, (split spoken).1, (split spoken).2]
      refine ⟨by omega, by omega, fun sameNewlines sameOthers => ?_⟩
      exact List.forall_mem_cons.mpr
        ⟨own (by omega) (by omega), behind (by omega) (by omega)⟩

theorem assemble_eq_iff (command : List Atom) :
    assemble spoken none command = assemble posix none command ↔
      ∀ atom ∈ command, FollowsPosix atom := by
  constructor
  · intro same
    have letters : lettersOf spoken command = lettersOf posix command := by
      have flat := congrArg List.flatten same
      rwa [flatten_assemble, flatten_assemble] at flat
    exact (letters_command command).2.2 (by rw [letters]) (by rw [letters])
  · intro follows
    exact assemble_congr none fun atom member => spoken_eq_posix (follows atom member)

/-- The words are those of the shell exactly where no white space but blanks and newlines parts
words, no backslash goes before a newline, and in double quotes each backslash goes before a
character that the shell escapes there. -/
theorem shellWords_posix_iff (command : String) :
    (∀ words, posixWords command.toList = some words →
      shellWords command = words.map String.ofList) ↔
    ∀ read, atoms .outside command.toList = some read → ∀ atom ∈ read, FollowsPosix atom := by
  cases parsed : atoms .outside command.toList with
  | none => simp [posixWords, parsed]
  | some read =>
      have words : posixWords command.toList = some (assemble posix none read) := by
        rw [posixWords, parsed]
        rfl
      rw [words, shellWords, shellWordsFrom_eq none parsed]
      constructor
      · intro same other equal
        obtain rfl := Option.some.inj equal
        have injective : Function.Injective String.ofList := fun _ _ => String.ofList_injective
        exact (assemble_eq_iff read).mp (List.map_injective_iff.mpr injective (same _ rfl))
      · intro follows other equal
        obtain rfl := Option.some.inj equal
        rw [(assemble_eq_iff read).mpr (follows read rfl)]

/-- A backslash before a letter stays in double quotes, and the code drops it. -/
theorem shellWords_not_posix_backslash :
    ¬ ∀ words, posixWords "cc \"-DSEP=\\n\"".toList = some words →
      shellWords "cc \"-DSEP=\\n\"" = words.map String.ofList := by
  intro same
  have words := same ["cc".toList, "-DSEP=\\n".toList] (by decide)
  have read : atoms .outside "cc \"-DSEP=\\n\"".toList = some
      [.bare 'c', .bare 'c', .bare ' ', .quote, .inner '-', .inner 'D', .inner 'S', .inner 'E',
        .inner 'P', .inner '=', .innerEscaped 'n', .quote] := by decide
  rw [shellWords, shellWordsFrom_eq none read] at words
  revert words
  decide

end Agreement

end FramaCMcp.CompileEntry
