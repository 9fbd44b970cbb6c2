/-
This file gives the operations on the characters of one line of text.
-/

import FramaCMcp.Foundation.Text
import Mathlib.Data.List.TakeWhile

/-- A line is the list of its characters. An offset counts the characters before it. -/
abbrev Line := List Char

namespace Line

def trimStart (line : Line) : Line := line.dropWhile Text.isWhitespace

def trimEnd (line : Line) : Line := (line.reverse.dropWhile Text.isWhitespace).reverse

def trim (line : Line) : Line := trimEnd (trimStart line)

/-- Nothing but white space stands on the line. -/
def isBlank (line : Line) : Bool := line.all Text.isWhitespace

/-- These are the nonempty runs without white space. -/
def words (line : Line) : List Line :=
  (line.splitOnP Text.isWhitespace).filter fun word => !word.isEmpty

def startsWith (line : Line) (lead : String) : Bool := lead.toList.isPrefixOf line

def endsWith (line : Line) (tail : String) : Bool := tail.toList.isSuffixOf line

def find (line : Line) (needle : String) : Option Nat := Text.findChars needle.toList line

/-- This is the part from one offset up to another one. -/
def slice (line : Line) (start stop : Nat) : Line := (line.take stop).drop start

/-- This is the part before the first of some characters. -/
def before (line : Line) (stops : List Char) : Line := line.takeWhile fun c => !stops.contains c

/-- The last of some characters stands right before this offset. -/
def afterLast (line : Line) (stops : List Char) : Nat :=
  line.length - (line.reverse.takeWhile fun c => !stops.contains c).length

def depthStep (opening closing : List Char) (depth : Int) (c : Char) : Int :=
  depth + (if opening.contains c then 1 else 0) - (if closing.contains c then 1 else 0)

/-- This is the offset of the first character after which the depth is zero. -/
def closingFrom (opening closing : List Char) : Int → Nat → Line → Option Nat
  | _, _, [] => none
  | depth, offset, c :: rest =>
      if depthStep opening closing depth c = 0 then some offset
      else closingFrom opening closing (depthStep opening closing depth c) (offset + 1) rest

/-- The parts stand between the commas at depth zero. -/
def splitTopLevelFrom : Int → Line → Line → List Line
  | _, current, [] => [current]
  | depth, current, c :: rest =>
      let next := depthStep ['(', '[', '\x7b'] [')', ']', '\x7d'] depth c
      if c = ',' ∧ next = 0 then current :: splitTopLevelFrom next [] rest
      else splitTopLevelFrom next (current ++ [c]) rest

def splitTopLevel (body : Line) : List Line := splitTopLevelFrom 0 [] body

/-- This is the offset of the bracket that closes the one at an offset. -/
def matching (line : Line) (opening : Nat) : Option Nat :=
  closingFrom ['('] [')'] 0 opening (line.drop opening)

theorem dropWhile_of_head {test : Char → Bool} {text : List Char}
    (started : ∀ letter ∈ text.head?, test letter = false) : text.dropWhile test = text := by
  cases text with
  | nil => rfl
  | cons letter rest => exact List.dropWhile_cons_of_neg (by simp [started letter rfl])

theorem head_dropWhile {test : Char → Bool} {text : List Char} {letter : Char}
    (first : (text.dropWhile test).head? = some letter) : test letter = false := by
  have stopped := List.head?_dropWhile_not test text
  rw [first] at stopped
  exact stopped

/-- What is taken off at the end does not reach a text with another last letter. -/
theorem reverse_dropWhile_append {test : Char → Bool} {lead : Line}
    (stopped : ∀ letter ∈ lead.getLast?, test letter = false) (rest : Line) :
    ((lead ++ rest).reverse.dropWhile test).reverse =
      lead ++ (rest.reverse.dropWhile test).reverse := by
  rw [← List.head?_reverse] at stopped
  have kept := dropWhile_of_head stopped
  rw [List.reverse_append, List.dropWhile_append]
  split_ifs with taken
  · rw [List.isEmpty_iff.mp taken, kept, List.reverse_reverse, List.reverse_nil, List.append_nil]
  · rw [List.reverse_append, List.reverse_reverse]

/-- A text without white space at its ends stays in front. -/
theorem trim_append {lead : Line} (filled : lead ≠ [])
    (started : ∀ letter ∈ lead.head?, Text.isWhitespace letter = false)
    (stopped : ∀ letter ∈ lead.getLast?, Text.isWhitespace letter = false) (rest : Line) :
    trim (lead ++ rest) = lead ++ trimEnd rest := by
  have front : trimStart (lead ++ rest) = lead ++ rest := by
    cases lead with
    | nil => exact absurd rfl filled
    | cons letter others => exact dropWhile_of_head started
  rw [trim, front, trimEnd, reverse_dropWhile_append stopped, trimEnd]

section Trimming

variable {text : Line}

theorem append_trimStart (text : Line) : ∃ lead, text = lead ++ trimStart text ∧
    ∀ letter ∈ lead, Text.isWhitespace letter = true :=
  ⟨text.takeWhile Text.isWhitespace, (List.takeWhile_append_dropWhile ..).symm,
    fun _ member => List.mem_takeWhile_imp member⟩

theorem append_reverse_dropWhile (test : Char → Bool) (text : Line) :
    ∃ tail, text = (text.reverse.dropWhile test).reverse ++ tail ∧
      ∀ letter ∈ tail, test letter = true := by
  refine ⟨(text.reverse.takeWhile test).reverse, ?_, fun letter member =>
    List.mem_takeWhile_imp (List.mem_reverse.mp member)⟩
  rw [← List.reverse_append, List.takeWhile_append_dropWhile, List.reverse_reverse]

theorem head_trimStart {letter : Char} (first : (trimStart text).head? = some letter) :
    Text.isWhitespace letter = false := head_dropWhile first

theorem last_reverse_dropWhile {test : Char → Bool} {letter : Char}
    (last : (text.reverse.dropWhile test).reverse.getLast? = some letter) :
    test letter = false := by
  rw [List.getLast?_reverse] at last
  exact head_dropWhile last

theorem trimStart_of_head (started : ∀ letter ∈ text.head?, Text.isWhitespace letter = false) :
    trimStart text = text := dropWhile_of_head started

theorem reverse_dropWhile_of_last {test : Char → Bool}
    (stopped : ∀ letter ∈ text.getLast?, test letter = false) :
    (text.reverse.dropWhile test).reverse = text := by
  have kept := reverse_dropWhile_append stopped []
  simpa using kept

theorem trim_eq_self (started : ∀ letter ∈ text.head?, Text.isWhitespace letter = false)
    (stopped : ∀ letter ∈ text.getLast?, Text.isWhitespace letter = false) :
    trim text = text := by
  rw [trim, trimStart_of_head started, trimEnd, reverse_dropWhile_of_last stopped]

theorem trimStart_append {lead : Line} (white : ∀ letter ∈ lead, Text.isWhitespace letter = true)
    (rest : Line) : trimStart (lead ++ rest) = trimStart rest := by
  rw [trimStart, List.dropWhile_append_of_pos white, trimStart]

theorem trim_split (text : Line) : ∃ lead tail, text = lead ++ trim text ++ tail ∧
    (∀ letter ∈ lead, Text.isWhitespace letter = true) ∧
    ∀ letter ∈ tail, Text.isWhitespace letter = true := by
  obtain ⟨lead, split, front⟩ := append_trimStart text
  obtain ⟨tail, rest, back⟩ := append_reverse_dropWhile Text.isWhitespace (trimStart text)
  refine ⟨lead, tail, ?_, front, back⟩
  rw [List.append_assoc, trim, trimEnd, ← rest, ← split]

end Trimming

end Line

/-- Chunks that end with a mark of their own are split at these marks. -/
theorem splitOn_flatMap_terminated {Letter : Type} [BEq Letter] [LawfulBEq Letter] {mark : Letter}
    {chunks : List (List Letter)} (free : ∀ chunk ∈ chunks, mark ∉ chunk) :
    (chunks.flatMap (· ++ [mark])).splitOn mark = chunks ++ [[]] := by
  induction chunks with
  | nil => rfl
  | cons chunk others ih =>
      rw [List.flatMap_cons, List.append_assoc, List.singleton_append,
        List.splitOn_append_cons_self_of_not_mem (free chunk List.mem_cons_self),
        ih fun other member => free other (List.mem_cons_of_mem _ member), List.cons_append]
