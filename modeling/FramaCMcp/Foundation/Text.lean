/-
This file gives the text operations that a program applies to strings of Unicode scalars, lowercases
a text as `str::to_lowercase` does and takes the matches of a pattern out of it.
-/

import Mathlib.Data.List.Basic
import Mathlib.Data.String.Basic

/-- These tables hold the Unicode properties that a text operation reads. Only their ASCII part is fixed. -/
class UnicodeTables where
  /-- This is the word class of a regular expression. -/
  wordChar : Char → Bool
  /-- This is the class that a debug print writes unescaped. -/
  printable : Char → Bool
  wordCharAscii : ∀ letter : Char, letter.toNat < 128 →
    wordChar letter = (letter.isAlphanum || letter == '_')
  printableAscii : ∀ letter : Char, letter.toNat < 128 →
    printable letter = (decide (32 ≤ letter.toNat) && decide (letter.toNat < 127))

/-- These tables know the ASCII characters only. -/
abbrev UnicodeTables.ascii : UnicodeTables where
  wordChar letter := letter.isAlphanum || letter == '_'
  printable letter := decide (32 ≤ letter.toNat) && decide (letter.toNat < 127)
  wordCharAscii _ _ := rfl
  printableAscii _ _ := rfl

namespace Text

/-- These are the characters of the Unicode property `White_Space`. -/
def isWhitespace (letter : Char) : Bool :=
  letter.toNat ∈ [0x9, 0xA, 0xB, 0xC, 0xD, 0x20, 0x85, 0xA0, 0x1680, 0x2000, 0x2001, 0x2002,
    0x2003, 0x2004, 0x2005, 0x2006, 0x2007, 0x2008, 0x2009, 0x200A, 0x2028, 0x2029, 0x202F,
    0x205F, 0x3000]

/-- The ASCII letters and digits have their codes in three ranges. -/
theorem isAlphanum_iff {letter : Char} : letter.isAlphanum = true ↔
    ((65 ≤ letter.toNat ∧ letter.toNat ≤ 90) ∨ (97 ≤ letter.toNat ∧ letter.toNat ≤ 122)) ∨
      (48 ≤ letter.toNat ∧ letter.toNat ≤ 57) := by
  delta Char.isAlphanum Char.isAlpha Char.isUpper Char.isLower Char.isDigit
  simp [UInt32.le_iff_toNat_le]

def startsWith (text lead : String) : Bool := lead.toList.isPrefixOf text.toList

def endsWith (text tail : String) : Bool := tail.toList.isSuffixOf text.toList

/-- This is the offset of the first occurrence. -/
def findChars (needle : List Char) : List Char → Option Nat
  | [] => if needle = [] then some 0 else none
  | head :: rest =>
      if needle.isPrefixOf (head :: rest) then some 0
      else (findChars needle rest).map (· + 1)

def find (text needle : String) : Option Nat := findChars needle.toList text.toList

def contains (text needle : String) : Bool := (find text needle).isSome

def dropTo (text : String) (offset : Nat) : String := String.ofList (text.toList.drop offset)

/-- This is the text before and after the last occurrence. -/
def rsplitOnce (text needle : String) : Option (String × String) :=
  (findChars needle.toList.reverse text.toList.reverse).map fun offset =>
    (String.ofList (text.toList.reverse.drop (offset + needle.toList.length)).reverse,
      String.ofList (text.toList.reverse.take offset).reverse)

/-- Only the ASCII letters change. -/
def toAsciiLowercase (text : String) : String := String.ofList (text.toList.map Char.toLower)

def eqIgnoreAsciiCase (left right : String) : Bool :=
  toAsciiLowercase left == toAsciiLowercase right

/-- The separator stands between two consecutive parts. -/
def join (parts : List String) (separator : String) : String := separator.intercalate parts

/-- These are the nonempty runs without white space. -/
def splitWhitespace (text : String) : List String :=
  ((text.toList.splitOnP isWhitespace).filter fun part => !part.isEmpty).map String.ofList

/-- This is one character of a debug print. -/
def escapeDebug [UnicodeTables] (letter : Char) : List Char :=
  if letter = '\"' then ['\\', '\"']
  else if letter = '\\' then ['\\', '\\']
  else if letter = '\n' then ['\\', 'n']
  else if letter = '\r' then ['\\', 'r']
  else if letter = '\t' then ['\\', 't']
  else if letter.toNat = 0 then ['\\', '0']
  else if UnicodeTables.printable letter then [letter]
  else ['\\', 'u', '\x7b'] ++ (Nat.toDigits 16 letter.toNat) ++ ['\x7d']

def debug [UnicodeTables] (text : String) : String :=
  String.ofList (['\"'] ++ text.toList.flatMap escapeDebug ++ ['\"'])

/-- This is the debug print of a list of strings. -/
def debugList [UnicodeTables] (texts : List String) : String :=
  "[" ++ join (texts.map debug) ", " ++ "]"

theorem eqIgnoreAsciiCase_self (text : String) : eqIgnoreAsciiCase text text = true := by
  simp [eqIgnoreAsciiCase]

theorem forall_mem_splitOnP {Letter : Type} (test : Letter → Bool) (letters : List Letter) :
    ∀ part ∈ letters.splitOnP test, ∀ letter ∈ part, test letter = false := by
  induction letters with
  | nil => simp
  | cons head rest ih =>
      rw [List.splitOnP_cons_eq_if_modifyHead]
      split_ifs with separator
      · intro part member
        rcases List.mem_cons.mp member with rfl | member
        · simp
        · exact ih part member
      · cases parts : rest.splitOnP test with
        | nil => exact absurd parts (List.splitOnP_ne_nil _ _)
        | cons first others =>
            rw [parts] at ih
            obtain ⟨inFirst, inOthers⟩ := List.forall_mem_cons.mp ih
            rw [List.modifyHead_cons]
            refine List.forall_mem_cons.mpr ⟨List.forall_mem_cons.mpr ⟨?_, inFirst⟩, inOthers⟩
            simpa using separator

/-- A word is not empty and holds no white space. -/
def IsWord (word : String) : Prop :=
  word ≠ "" ∧ ∀ letter ∈ word.toList, isWhitespace letter = false

theorem isWord_of_mem_splitWhitespace {text word : String} (member : word ∈ splitWhitespace text) :
    IsWord word := by
  obtain ⟨part, found, rfl⟩ := List.mem_map.mp member
  obtain ⟨split, nonempty⟩ := List.mem_filter.mp found
  constructor
  · intro empty
    rw [String.ofList_eq_empty_iff.mp empty] at nonempty
    cases nonempty
  · rw [String.toList_ofList]
    exact forall_mem_splitOnP _ _ part split

/-- Words that one blank separates are read back. -/
theorem splitWhitespace_join (words : List String) (clean : ∀ word ∈ words, IsWord word) :
    splitWhitespace (join words " ") = words := by
  have split : words ≠ [] →
      (join words " ").toList.splitOnP isWhitespace = words.map String.toList := by
    intro nonempty
    induction words with
    | nil => exact absurd rfl nonempty
    | cons word words ih =>
        obtain ⟨⟨_, inside⟩, others⟩ := List.forall_mem_cons.mp clean
        cases words with
        | nil =>
            rw [join, String.toList_intercalate, List.map_singleton, List.intercalate_singleton]
            exact List.splitOnP_eq_singleton inside
        | cons next words =>
            have later := ih others (List.cons_ne_nil _ _)
            rw [join, String.toList_intercalate] at later ⊢
            rw [List.map_cons, List.map_cons, List.intercalate_cons_cons, List.append_assoc]
            show (word.toList ++ ' ' :: _).splitOnP isWhitespace = _
            rw [List.splitOnP_append_cons_of_forall_mem inside ' ' (by decide)]
            exact congrArg _ later
  rw [splitWhitespace]
  by_cases empty : words = []
  · subst empty
    rfl
  · rw [split empty, List.filter_eq_self.mpr, List.map_map]
    · simp [Function.comp_def]
    · intro part member
      obtain ⟨word, present, rfl⟩ := List.mem_map.mp member
      have nonempty := (clean word present).1
      cases letters : word.toList with
      | nil => exact absurd (String.toList_eq_nil_iff.mp letters) nonempty
      | cons head rest => rfl

end Text

/-- The mapping of a letter and the classes of a final sigma are tables. -/
class CaseTables where
  lower : Char → List Char
  cased : Char → Bool
  caseIgnorable : Char → Bool
  lowerAscii : ∀ letter : Char, letter.toNat < 128 → lower letter = [letter.toLower]

/-- These tables know the ASCII letters only. -/
abbrev CaseTables.ascii : CaseTables where
  lower letter := [letter.toLower]
  cased letter := letter.isAlpha
  caseIgnorable letter := ['\'', '.', ':', '^', '\x60'].contains letter
  lowerAscii _ _ := rfl

namespace Text

variable [CaseTables]

def caseIgnorableThenCased (letters : List Char) : Bool :=
  (letters.dropWhile CaseTables.caseIgnorable).head?.any CaseTables.cased

/-- A sigma at the end of a word has its own form. -/
def lowerSigma (before after : List Char) : Char :=
  if caseIgnorableThenCased before && !caseIgnorableThenCased after then 'ς' else 'σ'

/-- The letters before the text stand in reverse. -/
def lowerFrom (before : List Char) : List Char → List Char
  | [] => []
  | letter :: rest =>
      (if letter = 'Σ' then [lowerSigma before rest] else CaseTables.lower letter) ++
        lowerFrom (letter :: before) rest

def toLowercase (text : String) : String := String.ofList (lowerFrom [] text.toList)

/-- A letter of this kind is its own lower case. -/
def isPlainLower (letter : Char) : Bool :=
  decide (letter.toNat < 128) && letter.toLower == letter

/-- A plain lower-case text in front stays as it is. -/
theorem lowerFrom_append {lead : List Char} (plain : lead.all isPlainLower = true)
    (before rest : List Char) :
    lowerFrom before (lead ++ rest) = lead ++ lowerFrom (lead.reverse ++ before) rest := by
  induction lead generalizing before with
  | nil => rfl
  | cons letter lead ih =>
      rw [List.all_cons, Bool.and_eq_true, isPlainLower, Bool.and_eq_true, decide_eq_true_eq,
        beq_iff_eq] at plain
      obtain ⟨⟨ascii, same⟩, later⟩ := plain
      have other : letter ≠ 'Σ' := by
        rintro rfl
        exact absurd ascii (by decide)
      rw [List.cons_append, lowerFrom, if_neg other, CaseTables.lowerAscii letter ascii, same,
        ih later, List.reverse_cons, List.append_assoc]
      rfl

end Text

namespace Replacement

variable {Letter : Type}

/-- A pattern sees the letter before the match. A match of length zero is none. -/
abbrev Pattern (Letter : Type) := Option Letter → List Letter → Nat

/-- The rest of a found match is skipped. -/
def eraseFrom (pattern : Pattern Letter) : Option Letter → Nat → List Letter → List Letter
  | _, _, [] => []
  | _, skip + 1, letter :: rest => eraseFrom pattern (some letter) skip rest
  | previous, 0, letter :: rest =>
      match pattern previous (letter :: rest) with
      | 0 => letter :: eraseFrom pattern (some letter) 0 rest
      | length + 1 => eraseFrom pattern (some letter) length rest

def erase (pattern : Pattern Letter) (letters : List Letter) : List Letter :=
  eraseFrom pattern none 0 letters

/-- No match starts in the text. -/
def Quiet (pattern : Pattern Letter) (letters : List Letter) : Prop :=
  ∀ letter ∈ letters, ∀ previous rest, pattern previous (letter :: rest) = 0

variable {pattern : Pattern Letter}

/-- A quiet text stays in front. -/
theorem eraseFrom_append {lead : List Letter} (quiet : Quiet pattern lead)
    (previous : Option Letter) (rest : List Letter) :
    eraseFrom pattern previous 0 (lead ++ rest) =
      lead ++ eraseFrom pattern (lead.getLast?.or previous) 0 rest := by
  induction lead generalizing previous with
  | nil => rfl
  | cons letter lead ih =>
      have here := quiet letter List.mem_cons_self previous (lead ++ rest)
      have later := ih (fun other member => quiet other (List.mem_cons_of_mem _ member)) (some letter)
      have last : (letter :: lead).getLast?.or previous = lead.getLast?.or (some letter) := by
        rw [List.getLast?_cons]
        cases lead.getLast? <;> rfl
      rw [List.cons_append, eraseFrom, here, last]
      exact congrArg (letter :: ·) later

theorem erase_append {lead : List Letter} (quiet : Quiet pattern lead) (rest : List Letter) :
    erase pattern (lead ++ rest) = lead ++ eraseFrom pattern lead.getLast? 0 rest := by
  rw [erase, eraseFrom_append quiet, Option.or_none]

end Replacement
