/-
This file splits a text into its longest words and the marks between them, and says which letters of
a C text stand in an annotation.
-/

import Mathlib.Data.List.Basic

/-- A run is a whole word or one letter that is in no word. -/
inductive Run (Letter : Type) where
  | word (letters : List Letter)
  | mark (letter : Letter)
  deriving DecidableEq

namespace Run

variable {Letter : Type}

def letters : Run Letter → List Letter
  | .word letters => letters
  | .mark letter => [letter]

/-- These are the letters of the runs in their order. -/
def text (runs : List (Run Letter)) : List Letter := runs.flatMap letters

/-- A letter extends the word that follows it directly. -/
def push (letter : Letter) : List (Run Letter) → List (Run Letter)
  | .word letters :: rest => .word (letter :: letters) :: rest
  | rest => .word [letter] :: rest

def startsWord : List (Run Letter) → Bool
  | .word _ :: _ => true
  | _ => false

variable (isWord : Letter → Bool)

def split : List Letter → List (Run Letter)
  | [] => []
  | letter :: rest =>
      if isWord letter then push letter (split rest) else .mark letter :: split rest

/-- No word is empty, and no word follows another one directly. -/
def Separated : List (Run Letter) → Prop
  | [] => True
  | .word letters :: rest =>
      letters ≠ [] ∧ (∀ letter ∈ letters, isWord letter = true) ∧ startsWord rest = false ∧
        Separated rest
  | .mark letter :: rest => isWord letter = false ∧ Separated rest

@[simp] theorem text_cons (run : Run Letter) (runs : List (Run Letter)) :
    text (run :: runs) = run.letters ++ text runs := rfl

@[simp] theorem text_append (left right : List (Run Letter)) :
    text (left ++ right) = text left ++ text right := List.flatMap_append

theorem text_push (letter : Letter) (runs : List (Run Letter)) :
    text (push letter runs) = letter :: text runs := by
  cases runs with
  | nil => rfl
  | cons run rest => cases run <;> rfl

/-- The runs of a text make up the text. -/
theorem text_split (letters : List Letter) : text (split isWord letters) = letters := by
  induction letters with
  | nil => rfl
  | cons letter rest ih =>
      unfold split
      split_ifs
      · rw [text_push, ih]
      · rw [text_cons, ih]
        rfl

theorem separated_push {letter : Letter} (word : isWord letter = true) {runs : List (Run Letter)}
    (separated : Separated isWord runs) : Separated isWord (push letter runs) := by
  have alone : Separated isWord runs → startsWord runs = false →
      Separated isWord (.word [letter] :: runs) := fun later fresh =>
    ⟨List.cons_ne_nil _ _, List.forall_mem_singleton.mpr word, fresh, later⟩
  cases runs with
  | nil => exact alone separated rfl
  | cons run rest =>
      cases run with
      | word letters =>
          obtain ⟨_, all, fresh, later⟩ := separated
          exact ⟨List.cons_ne_nil _ _, List.forall_mem_cons.mpr ⟨word, all⟩, fresh, later⟩
      | mark other => exact alone separated rfl

theorem separated_split (letters : List Letter) : Separated isWord (split isWord letters) := by
  induction letters with
  | nil => trivial
  | cons letter rest ih =>
      unfold split
      split_ifs with word
      · exact separated_push isWord word ih
      · exact ⟨Bool.eq_false_iff.mpr word, ih⟩

/-- A word is read whole. -/
theorem split_word_append {letters : List Letter} (filled : letters ≠ [])
    (all : ∀ letter ∈ letters, isWord letter = true) {rest : List Letter}
    (fresh : startsWord (split isWord rest) = false) :
    split isWord (letters ++ rest) = .word letters :: split isWord rest := by
  induction letters with
  | nil => exact absurd rfl filled
  | cons letter others ih =>
      obtain ⟨first, later⟩ := List.forall_mem_cons.mp all
      rw [List.cons_append, split, if_pos first]
      by_cases last : others = []
      · subst last
        cases runs : split isWord rest with
        | nil => rw [List.nil_append, runs]; rfl
        | cons run tail =>
            rw [List.nil_append, runs]
            cases run with
            | word letters =>
                rw [runs] at fresh
                cases fresh
            | mark other => rfl
      · rw [ih last later]
        rfl

/-- Separated runs are read back. -/
theorem split_text {runs : List (Run Letter)} (separated : Separated isWord runs) :
    split isWord (text runs) = runs := by
  induction runs with
  | nil => rfl
  | cons run rest ih =>
      cases run with
      | word letters =>
          obtain ⟨filled, all, fresh, later⟩ := separated
          have same := ih later
          rw [text_cons, Run.letters, split_word_append isWord filled all (same.symm ▸ fresh), same]
      | mark letter =>
          obtain ⟨apart, later⟩ := separated
          rw [text_cons, Run.letters, List.singleton_append, split, if_neg (by simp [apart]),
            ih later]

end Run

namespace Annotation

/-- This is what the letters read so far leave open. A star can be the start of the end of a
comment. -/
inductive Mode where
  | code
  | slash
  | quoted (mark : Char)
  | escaped (mark : Char)
  | lineOpen
  | line
  | lineAnnotation
  | blockOpen
  | block (star : Bool)
  | annotation (star : Bool)
  deriving DecidableEq, Repr

def codeStep (letter : Char) : Mode :=
  if letter = '/' then .slash
  else if letter = '\"' ∨ letter = '\'' then .quoted letter
  else .code

/-- Only an at sign right after the start of a comment makes it an annotation. -/
def step : Mode → Char → Mode
  | .code, letter => codeStep letter
  | .slash, letter =>
      if letter = '/' then .lineOpen else if letter = '*' then .blockOpen else codeStep letter
  | .quoted mark, letter =>
      if letter = '\\' then .escaped mark else if letter = mark then .code else .quoted mark
  | .escaped mark, _ => .quoted mark
  | .lineOpen, letter =>
      if letter = '@' then Mode.lineAnnotation else if letter = '\n' then .code else .line
  | .line, letter => if letter = '\n' then .code else .line
  | Mode.lineAnnotation, letter => if letter = '\n' then .code else Mode.lineAnnotation
  | .blockOpen, letter =>
      if letter = '@' then Mode.annotation false else .block (decide (letter = '*'))
  | .block star, letter =>
      if letter = '/' ∧ star then .code else .block (decide (letter = '*'))
  | Mode.annotation star, letter =>
      if letter = '/' ∧ star then .code else Mode.annotation (decide (letter = '*'))

def Mode.isAnnotation : Mode → Bool
  | Mode.lineAnnotation => true
  | Mode.annotation _ => true
  | _ => false

def modeAfter (letters : List Char) : Mode := letters.foldl step .code

/-- These are the letters that are not read in an annotation. -/
def outside : Mode → List Char → List Char
  | _, [] => []
  | mode, letter :: rest =>
      if mode.isAnnotation then outside (step mode letter) rest
      else letter :: outside (step mode letter) rest

theorem outside_append (mode : Mode) (left right : List Char) :
    outside mode (left ++ right) = outside mode left ++ outside (left.foldl step mode) right := by
  induction left generalizing mode with
  | nil => rfl
  | cons letter rest ih =>
      rw [List.cons_append, outside, outside, List.foldl_cons]
      split_ifs
      · exact ih _
      · rw [ih, List.cons_append]

/-- These letters neither end an annotation nor prepare its end. -/
def Quiet (letters : List Char) : Prop := ∀ letter ∈ letters, letter ≠ '/' ∧ letter ≠ '*' ∧ letter ≠ '\n'

/-- The mode after a quiet text of an annotation does not depend on the text. -/
def settled : Mode → Mode
  | Mode.annotation _ => Mode.annotation false
  | mode => mode

theorem step_quiet {mode : Mode} (inside : mode.isAnnotation = true) {letter : Char}
    (quiet : letter ≠ '/' ∧ letter ≠ '*' ∧ letter ≠ '\n') : step mode letter = settled mode := by
  obtain ⟨slash, star, line⟩ := quiet
  cases mode with
  | lineAnnotation => exact if_neg line
  | annotation open_ =>
      rw [step, if_neg fun both => slash both.1, decide_eq_false star]
      rfl
  | _ => cases inside

theorem settled_inside (mode : Mode) :
    Mode.isAnnotation (settled mode) = mode.isAnnotation := by
  cases mode <;> rfl

theorem settled_settled (mode : Mode) : settled (settled mode) = settled mode := by
  cases mode <;> rfl

theorem quiet_inside {letters : List Char} (filled : letters ≠ []) (quiet : Quiet letters)
    {mode : Mode} (inside : mode.isAnnotation = true) :
    letters.foldl step mode = settled mode ∧ outside mode letters = [] := by
  induction letters generalizing mode with
  | nil => exact absurd rfl filled
  | cons letter rest ih =>
      obtain ⟨first, later⟩ := List.forall_mem_cons.mp quiet
      rw [List.foldl_cons, outside, if_pos inside, step_quiet inside first]
      by_cases last : rest = []
      · subst last
        exact ⟨rfl, rfl⟩
      · have still : Mode.isAnnotation (settled mode) = true := (settled_inside mode).trans inside
        have next := ih last later still
        rw [settled_settled] at next
        exact next

end Annotation
