/-
This file gives the grammar of the expressions of ghost code and shows that the parser builds the
tree that the grammar gives to a text.
-/

import FramaCMcp.Construction.GhostExpr
import FramaCMcp.Foundation.Lines
import FramaCMcp.Foundation.StateFlow
import Mathlib.Data.List.Chain
import Mathlib.Data.List.TakeWhile

namespace FramaCMcp.GhostExpr

open CLang
open StateFlow (map_eq_ok bind_eq_ok)
open Cil (Varinfo Fundec)

section Lexemes

/-- These are the signs of the expression language. -/
inductive Sign where
  | plus
  | minus
  | star
  | slash
  | percent
  | lBracket
  | rBracket
  | lParen
  | rParen
  deriving DecidableEq, Repr

def Sign.letter : Sign → Char
  | .plus => '+'
  | .minus => '-'
  | .star => '*'
  | .slash => '/'
  | .percent => '%'
  | .lBracket => '['
  | .rBracket => ']'
  | .lParen => '('
  | .rParen => ')'

def Sign.token : Sign → Token
  | .plus => .plus
  | .minus => .minus
  | .star => .star
  | .slash => .slash
  | .percent => .percent
  | .lBracket => .lBracket
  | .rBracket => .rBracket
  | .lParen => .lParen
  | .rParen => .rParen

/-- A lexeme keeps the letters that it was written with. -/
inductive Lexeme where
  | number (digits : List Char)
  | name (letters : List Char)
  | sign (mark : Sign)

def Lexeme.text : Lexeme → List Char
  | .number digits => digits
  | .name letters => letters
  | .sign mark => [mark.letter]

/-- A name starts with a letter or an underscore. -/
def Lexeme.WellFormed : Lexeme → Prop
  | .number digits => digits ≠ [] ∧ ∀ digit ∈ digits, isDigit digit = true
  | .name letters => (∃ first rest, letters = first :: rest ∧ Ghost.isAlpha first = true) ∧
      ∀ letter ∈ letters, Ghost.isAlnum letter = true
  | .sign _ => True

/-- A number that is too long for the host gives no token. -/
def Lexeme.token : Lexeme → Except Fault Token
  | .number digits => (intOfString digits).map .int
  | .name letters => .ok (.ident (String.ofList letters))
  | .sign mark => .ok mark.token

/-- The lexer reads on through digits and through the letters of a name. -/
def Lexeme.extends : Lexeme → Char → Bool
  | .number _, letter => isDigit letter
  | .name _, letter => Ghost.isAlnum letter
  | .sign _, _ => false

/-- The longest lexeme of C that starts here goes on with this letter. -/
def Lexeme.joins : Lexeme → Char → Bool
  | .number _, letter => Ghost.isAlnum letter || letter == '.'
  | .name _, letter => Ghost.isAlnum letter
  | .sign .plus, letter => ['+', '='].contains letter
  | .sign .minus, letter => ['-', '=', '>'].contains letter
  | .sign .star, letter => letter == '='
  | .sign .slash, letter => ['/', '*', '='].contains letter
  | .sign .percent, letter => ['=', ':', '>'].contains letter
  | .sign _, _ => false

/-- No lexeme goes on with the letter behind it. -/
inductive Scans (goesOn : Lexeme → Char → Bool) : List Char → List Lexeme → List Char → Prop
  | done (text : List Char) : Scans goesOn text [] text
  | next {lead behind rest : List Char} {lexeme : Lexeme} {lexemes : List Lexeme}
      (blank : ∀ letter ∈ lead, isSpace letter = true) (wellFormed : lexeme.WellFormed)
      (ends : ∀ letter ∈ behind.head?, goesOn lexeme letter = false)
      (scans : Scans goesOn behind lexemes rest) :
      Scans goesOn (lead ++ (lexeme.text ++ behind)) (lexeme :: lexemes) rest

variable {goesOn : Lexeme → Char → Bool}

theorem Scans.append {text mid rest : List Char} {first second : List Lexeme}
    (left : Scans goesOn text first mid) (right : Scans goesOn mid second rest) :
    Scans goesOn text (first ++ second) rest := by
  induction left with
  | done => exact right
  | next blank wellFormed ends _ ih => exact .next blank wellFormed ends (ih right)

/-- A scan of two lists of lexemes stops between them. -/
theorem Scans.of_append {text rest : List Char} {first second : List Lexeme}
    (scans : Scans goesOn text (first ++ second) rest) :
    ∃ mid, Scans goesOn text first mid ∧ Scans goesOn mid second rest := by
  induction first generalizing text with
  | nil => exact ⟨text, .done text, scans⟩
  | cons lexeme lexemes ih =>
      cases scans with
      | next blank wellFormed ends behind =>
          obtain ⟨mid, left, right⟩ := ih behind
          exact ⟨mid, .next blank wellFormed ends left, right⟩

theorem Lexeme.text_length_pos {lexeme : Lexeme} (wellFormed : lexeme.WellFormed) :
    0 < lexeme.text.length := by
  cases lexeme with
  | number digits => exact List.length_pos_iff.mpr wellFormed.1
  | name letters =>
      obtain ⟨⟨first, rest, rfl, _⟩, _⟩ := wellFormed
      exact Nat.succ_pos rest.length
  | sign mark => exact Nat.zero_lt_one

/-- Each lexeme takes at least one letter. -/
theorem Scans.length_le {text rest : List Char} {lexemes : List Lexeme}
    (scans : Scans goesOn text lexemes rest) : rest.length + lexemes.length ≤ text.length := by
  induction scans with
  | done => exact le_rfl
  | next blank wellFormed ends _ ih =>
      have filled := Lexeme.text_length_pos wellFormed
      simp only [List.length_append, List.length_cons]
      omega

theorem Scans.length_lt {text rest : List Char} {lexemes : List Lexeme}
    (scans : Scans goesOn text lexemes rest) (filled : lexemes ≠ []) :
    rest.length < text.length := by
  have bound := scans.length_le
  have some := List.length_pos_iff.mpr filled
  omega

end Lexemes

section Lexer

theorem dropWhile_append_of_all {p : Char → Bool} {lead rest : List Char}
    (all : ∀ letter ∈ lead, p letter = true) (ends : ∀ letter ∈ rest.head?, p letter = false) :
    (lead ++ rest).dropWhile p = rest := by
  rw [List.dropWhile_append_of_pos all, Line.dropWhile_of_head ends]

theorem takeWhile_append_of_all {p : Char → Bool} {lead rest : List Char}
    (all : ∀ letter ∈ lead, p letter = true) (ends : ∀ letter ∈ rest.head?, p letter = false) :
    (lead ++ rest).takeWhile p = lead := by
  rw [List.takeWhile_append_of_pos all]
  cases rest with
  | nil => exact List.append_nil lead
  | cons letter rest =>
      rw [List.takeWhile_cons_of_neg (by simp [ends letter rfl]), List.append_nil]

theorem punctuation_letter (mark : Sign) : punctuation mark.letter = some mark.token := by
  cases mark <;> rfl

variable {letter : Char}

/-- Only the nine signs are punctuation. -/
theorem eq_letter_of_punctuation {token : Token} (found : punctuation letter = some token) :
    ∃ mark : Sign, letter = mark.letter ∧ token = mark.token := by
  unfold punctuation at found
  split at found
  · exact ⟨.plus, rfl, (Option.some.inj found).symm⟩
  · exact ⟨.minus, rfl, (Option.some.inj found).symm⟩
  · exact ⟨.star, rfl, (Option.some.inj found).symm⟩
  · exact ⟨.slash, rfl, (Option.some.inj found).symm⟩
  · exact ⟨.percent, rfl, (Option.some.inj found).symm⟩
  · exact ⟨.lBracket, rfl, (Option.some.inj found).symm⟩
  · exact ⟨.rBracket, rfl, (Option.some.inj found).symm⟩
  · exact ⟨.lParen, rfl, (Option.some.inj found).symm⟩
  · exact ⟨.rParen, rfl, (Option.some.inj found).symm⟩
  · cases found

theorem sign_isAlnum (mark : Sign) : Ghost.isAlnum mark.letter = false := by
  cases mark <;> decide

theorem sign_isSpace (mark : Sign) : isSpace mark.letter = false := by
  cases mark <;> decide

theorem isAlnum_of_isDigit (digit : isDigit letter = true) :
    Ghost.isAlnum letter = true := Bool.or_eq_true_iff.mpr (.inr digit)

theorem isAlnum_of_isAlpha (alpha : Ghost.isAlpha letter = true) :
    Ghost.isAlnum letter = true := Bool.or_eq_true_iff.mpr (.inl alpha)

/-- No letter of a word is a sign. -/
theorem punctuation_of_isAlnum (word : Ghost.isAlnum letter = true) :
    punctuation letter = none := by
  cases found : punctuation letter with
  | none => rfl
  | some token =>
      obtain ⟨mark, rfl, _⟩ := eq_letter_of_punctuation found
      rw [sign_isAlnum] at word
      cases word

theorem isSpace_of_isAlnum (word : Ghost.isAlnum letter = true) : isSpace letter = false := by
  by_contra space
  simp only [isSpace, Bool.not_eq_false, Bool.or_eq_true, beq_iff_eq] at space
  rcases space with ((rfl | rfl) | rfl) | rfl
  · exact absurd word (by decide)
  · exact absurd word (by decide)
  · exact absurd word (by decide)
  · exact absurd word (by decide)

theorem isDigit_of_isAlpha (alpha : Ghost.isAlpha letter = true) : isDigit letter = false := by
  by_contra digit
  simp only [isDigit, Bool.not_eq_false, Bool.and_eq_true, decide_eq_true_eq] at digit
  simp only [Ghost.isAlpha, Bool.or_eq_true, Bool.and_eq_true, decide_eq_true_eq,
    beq_iff_eq] at alpha
  rcases alpha with (⟨low, _⟩ | ⟨low, _⟩) | rfl
  · exact absurd (Char.le_trans low digit.2) (by decide)
  · exact absurd (Char.le_trans low digit.2) (by decide)
  · exact absurd digit.2 (by decide)

/-- No lexeme starts with a blank. -/
theorem Lexeme.head_text {lexeme : Lexeme} (wellFormed : lexeme.WellFormed) (behind : List Char) :
    ∀ letter ∈ (lexeme.text ++ behind).head?, isSpace letter = false := by
  intro letter first
  cases lexeme with
  | number digits =>
      obtain ⟨filled, all⟩ := wellFormed
      cases digits with
      | nil => exact absurd rfl filled
      | cons digit digits =>
          obtain rfl : digit = letter := Option.some.inj first
          exact isSpace_of_isAlnum (isAlnum_of_isDigit (all digit List.mem_cons_self))
  | name letters =>
      obtain ⟨⟨head, rest, rfl, alpha⟩, _⟩ := wellFormed
      cases first
      exact isSpace_of_isAlnum (isAlnum_of_isAlpha alpha)
  | sign mark =>
      cases first
      exact sign_isSpace mark

/-- The blanks before a lexeme are skipped, and nothing of the lexeme. -/
theorem skipWs_lead {lead : List Char} {lexeme : Lexeme}
    (blank : ∀ letter ∈ lead, isSpace letter = true) (wellFormed : lexeme.WellFormed)
    (behind : List Char) : skipWs (lead ++ (lexeme.text ++ behind)) = lexeme.text ++ behind :=
  dropWhile_append_of_all blank (Lexeme.head_text wellFormed behind)

/-- The lexer reads one lexeme and leaves what is behind it. -/
theorem nextToken_lexeme {lead behind : List Char} {lexeme : Lexeme}
    (blank : ∀ letter ∈ lead, isSpace letter = true) (wellFormed : lexeme.WellFormed)
    (ends : ∀ letter ∈ behind.head?, lexeme.extends letter = false) (length : Nat) :
    nextToken length (lead ++ (lexeme.text ++ behind)) =
      lexeme.token.map fun token => (token, behind) := by
  rw [nextToken, skipWs_lead blank wellFormed behind]
  cases lexeme with
  | number digits =>
      obtain ⟨filled, all⟩ := wellFormed
      have read : (digits ++ behind).takeWhile isDigit = digits :=
        takeWhile_append_of_all all ends
      have left : (digits ++ behind).dropWhile isDigit = behind :=
        dropWhile_append_of_all all ends
      cases digits with
      | nil => exact absurd rfl filled
      | cons digit digits =>
          have first := all digit List.mem_cons_self
          simp only [Lexeme.text, List.cons_append, punctuation_of_isAlnum
            (isAlnum_of_isDigit first), first, if_true] at read left ⊢
          rw [read, left, Lexeme.token]
          cases intOfString (digit :: digits) <;> rfl
  | name letters =>
      obtain ⟨⟨head, rest, rfl, alpha⟩, all⟩ := wellFormed
      have read : (head :: rest ++ behind).takeWhile Ghost.isAlnum = head :: rest :=
        takeWhile_append_of_all all ends
      have left : (head :: rest ++ behind).dropWhile Ghost.isAlnum = behind :=
        dropWhile_append_of_all all ends
      simp only [Lexeme.text, List.cons_append, punctuation_of_isAlnum (isAlnum_of_isAlpha alpha),
        isDigit_of_isAlpha alpha, alpha, if_true, Bool.false_eq_true, if_false] at read left ⊢
      rw [read, left]
      rfl
  | sign mark =>
      simp only [Lexeme.text, List.cons_append, List.nil_append, punctuation_letter]
      rfl

/-- The longest run of letters that a lexeme can have is scanned as that lexeme. -/
theorem scans_takeWhile {lead text : List Char} {lexeme : Lexeme}
    (blank : ∀ letter ∈ lead, isSpace letter = true) (wellFormed : lexeme.WellFormed)
    (reads : lexeme.text = text.takeWhile lexeme.extends) :
    Scans Lexeme.extends (lead ++ text) [lexeme] (text.dropWhile lexeme.extends) := by
  have split : text = lexeme.text ++ text.dropWhile lexeme.extends := by
    rw [reads, List.takeWhile_append_dropWhile]
  have next : Scans Lexeme.extends (lead ++ (lexeme.text ++ text.dropWhile lexeme.extends)) [lexeme]
      (text.dropWhile lexeme.extends) :=
    .next blank wellFormed (fun _ first => Line.head_dropWhile first) (.done _)
  rwa [← split] at next

/-- Whatever the lexer reads is a lexeme, unless the text is over. -/
theorem nextToken_eq_ok {length : Nat} {text behind : List Char} {token : Token}
    (read : nextToken length text = .ok (token, behind)) :
    (token = .eof ∧ behind = [] ∧ ∀ letter ∈ text, isSpace letter = true) ∨
      ∃ lexeme : Lexeme, lexeme.token = .ok token ∧ Scans Lexeme.extends text [lexeme] behind := by
  have split : text.takeWhile isSpace ++ skipWs text = text := List.takeWhile_append_dropWhile
  have blank : ∀ letter ∈ text.takeWhile isSpace, isSpace letter = true :=
    fun letter member => List.mem_takeWhile_imp member
  rw [nextToken] at read
  cases skipped : skipWs text with
  | nil =>
      rw [skipped] at read
      cases read
      refine .inl ⟨rfl, rfl, ?_⟩
      rw [← split, skipped, List.append_nil]
      exact blank
  | cons letter rest =>
      rw [skipped] at read split
      refine .inr ?_
      cases found : punctuation letter with
      | some other =>
          simp only [found] at read
          cases read
          obtain ⟨mark, rfl, rfl⟩ := eq_letter_of_punctuation found
          refine ⟨.sign mark, rfl, ?_⟩
          rw [← split]
          have one : Scans Lexeme.extends
              (text.takeWhile isSpace ++ ((Lexeme.sign mark).text ++ behind)) [.sign mark] behind :=
            .next blank trivial (fun _ _ => rfl) (.done behind)
          exact one
      | none =>
          simp only [found] at read
          split_ifs at read with digit alpha
          · cases value : intOfString ((letter :: rest).takeWhile isDigit) with
            | error fault =>
                rw [value] at read
                cases read
            | ok number =>
                rw [value] at read
                cases read
                refine ⟨.number ((letter :: rest).takeWhile isDigit), ?_, ?_⟩
                · rw [Lexeme.token, value]
                  rfl
                · rw [← split]
                  refine scans_takeWhile blank ⟨?_, fun other member => ?_⟩ rfl
                  · rw [List.takeWhile_cons_of_pos digit]
                    exact List.cons_ne_nil _ _
                  · exact List.mem_takeWhile_imp member
          · cases read
            refine ⟨.name ((letter :: rest).takeWhile Ghost.isAlnum), rfl, ?_⟩
            rw [← split]
            refine scans_takeWhile blank ⟨⟨letter, rest.takeWhile Ghost.isAlnum, ?_, alpha⟩,
              fun other member => ?_⟩ rfl
            · exact List.takeWhile_cons_of_pos (isAlnum_of_isAlpha alpha)
            · exact List.mem_takeWhile_imp member

end Lexer

section Grammar

/-- This is what the grammar reads in a text. -/
inductive Tree where
  | number (digits : List Char)
  | name (name : String)
  | index (name : String) (position : Tree)
  | neg (operand : Tree)
  | binary (operator : Operator) (left right : Tree)

def additiveSign : Sign → Option Operator
  | .plus => some .add
  | .minus => some .sub
  | _ => none

def multiplicativeSign : Sign → Option Operator
  | .star => some .mul
  | .slash => some .div
  | .percent => some .mod
  | _ => none

/-- The levels go from the tightest operators to the loosest ones. -/
inductive Level where
  | primary
  | unary
  | multiplicative
  | additive

/-- The operators of a level take their operands from the left. -/
inductive Derives : Level → List Lexeme → Tree → Prop
  | number (digits : List Char) : Derives .primary [.number digits] (.number digits)
  | name (letters : List Char) : Derives .primary [.name letters] (.name (String.ofList letters))
  | index (letters : List Char) {inner : List Lexeme} {position : Tree}
      (derives : Derives .additive inner position) :
      Derives .primary (.name letters :: .sign .lBracket :: (inner ++ [.sign .rBracket]))
        (.index (String.ofList letters) position)
  | group {inner : List Lexeme} {tree : Tree} (derives : Derives .additive inner tree) :
      Derives .primary (.sign .lParen :: (inner ++ [.sign .rParen])) tree
  | primary {lexemes : List Lexeme} {tree : Tree} (derives : Derives .primary lexemes tree) :
      Derives .unary lexemes tree
  | neg {lexemes : List Lexeme} {operand : Tree} (derives : Derives .unary lexemes operand) :
      Derives .unary (.sign .minus :: lexemes) (.neg operand)
  | unary {lexemes : List Lexeme} {tree : Tree} (derives : Derives .unary lexemes tree) :
      Derives .multiplicative lexemes tree
  | multiply {first second : List Lexeme} {left right : Tree} {mark : Sign} {operator : Operator}
      (found : multiplicativeSign mark = some operator)
      (former : Derives .multiplicative first left) (latter : Derives .unary second right) :
      Derives .multiplicative (first ++ .sign mark :: second) (.binary operator left right)
  | multiplicative {lexemes : List Lexeme} {tree : Tree}
      (derives : Derives .multiplicative lexemes tree) : Derives .additive lexemes tree
  | add {first second : List Lexeme} {left right : Tree} {mark : Sign} {operator : Operator}
      (found : additiveSign mark = some operator)
      (former : Derives .additive first left) (latter : Derives .multiplicative second right) :
      Derives .additive (first ++ .sign mark :: second) (.binary operator left right)

/-- The text is an expression of the grammar and this is its tree. -/
def Writes (goesOn : Lexeme → Char → Bool) (text : List Char) (tree : Tree) : Prop :=
  ∃ lexemes tail, Scans goesOn text lexemes tail ∧ (∀ letter ∈ tail, isSpace letter = true) ∧
    Derives .additive lexemes tree

def binOpOf : Operator → BinOp
  | .add => .plusA
  | .sub => .minusA
  | .mul => .mult
  | .div => .div
  | .mod => .mod

/-- The first part that cannot be built fails the whole tree. -/
def build (kernel : Kernel) (lookup : String → Except String Varinfo) : Tree → Except Fault Exp
  | .number digits => (intOfString digits).map kernel.integer
  | .name name => (findVar lookup name).map fun vi => .lval (.var vi) .noOffset
  | .index name position => do
      let vi ← findVar lookup name
      let index ← build kernel lookup position
      indexed kernel name vi index
  | .neg operand => do
      let operand ← build kernel lookup operand
      .ok (.neg operand (typeOf kernel.vtype operand))
  | .binary operator left right => do
      let left ← build kernel lookup left
      let right ← build kernel lookup right
      mkBinop kernel (binOpOf operator) left right

end Grammar

section Soundness

variable {kernel : Kernel} {lookup : String → Except String Varinfo} {length : Nat}

theorem ok_bind {α β : Type} (value : α) (next : α → Except Fault β) :
    (Except.ok value >>= next) = next value := rfl

/-- The parser takes a text of this level off the front of what it reads. -/
def Sound (kernel : Kernel) (lookup : String → Except String Varinfo) (level : Level)
    (parser : Parser) : Prop :=
  ∀ text exp rest, parser text = .ok (exp, rest) → ∃ lexemes tree,
    Scans Lexeme.extends text lexemes rest ∧ Derives level lexemes tree ∧
      build kernel lookup tree = .ok exp

/-- The signs of a level are those that its operator table accepts, and an operand of the level
below is one of this level. -/
structure Joins (level below : Level) (operator : Token → Option BinOp)
    (signOf : Sign → Option Operator) : Prop where
  sign : ∀ token joined, operator token = some joined → ∃ mark named,
    token = Sign.token mark ∧ signOf mark = some named ∧ joined = binOpOf named
  token : ∀ mark named, signOf mark = some named → operator mark.token = some (binOpOf named)
  lift : ∀ lexemes tree, Derives below lexemes tree → Derives level lexemes tree
  join : ∀ first second left right mark named, signOf mark = some named →
    Derives level first left → Derives below second right →
    Derives level (first ++ .sign mark :: second) (.binary named left right)

theorem joins_multiplicative :
    Joins .multiplicative .unary multiplicativeOp multiplicativeSign where
  sign token joined found := by
    cases token <;> cases found
    · exact ⟨.star, .mul, rfl, rfl, rfl⟩
    · exact ⟨.slash, .div, rfl, rfl, rfl⟩
    · exact ⟨.percent, .mod, rfl, rfl, rfl⟩
  token mark named found := by
    cases mark <;> cases found <;> rfl
  lift _ _ := .unary
  join _ _ _ _ _ _ := .multiply

theorem joins_additive : Joins .additive .multiplicative additiveOp additiveSign where
  sign token joined found := by
    cases token <;> cases found
    · exact ⟨.plus, .add, rfl, rfl, rfl⟩
    · exact ⟨.minus, .sub, rfl, rfl, rfl⟩
  token mark named found := by
    cases mark <;> cases found <;> rfl
  lift _ _ := .multiplicative
  join _ _ _ _ _ _ := .add

/-- A token of a sign was written as the sign. -/
theorem scans_sign (mark : Sign) {text behind : List Char}
    (read : nextToken length text = .ok (mark.token, behind)) :
    Scans Lexeme.extends text [.sign mark] behind := by
  rcases nextToken_eq_ok read with ⟨ended, _, _⟩ | ⟨lexeme, named, scans⟩
  · cases mark <;> cases ended
  · cases lexeme with
    | number digits =>
        obtain ⟨value, _, same⟩ := map_eq_ok.mp named
        cases mark <;> cases same
    | name letters =>
        cases mark <;> cases named
    | sign other =>
        obtain rfl : other = mark := by
          cases mark <;> cases other <;> first | rfl | cases named
        exact scans

theorem peek_eq_ok {text : List Char} {token : Token} (seen : peek length text = .ok token) :
    ∃ behind, nextToken length text = .ok (token, behind) := by
  obtain ⟨next, read, rfl⟩ := map_eq_ok.mp seen
  exact ⟨next.2, read⟩

/-- The loop joins its operands from the left, so the tree grows around what was read. -/
theorem joinLoop_sound {level below : Level} {operator : Token → Option BinOp}
    {signOf : Sign → Option Operator} {operand : Parser}
    (joins : Joins level below operator signOf) (sound : Sound kernel lookup below operand)
    {text : List Char} (fuel : Nat) {mid : List Char} {left : Exp} {lexemes : List Lexeme}
    {tree : Tree} (scans : Scans Lexeme.extends text lexemes mid)
    (derives : Derives level lexemes tree) (built : build kernel lookup tree = .ok left)
    {exp : Exp} {rest : List Char}
    (parsed : joinLoop kernel length operator operand fuel left mid = .ok (exp, rest)) :
    ∃ lexemes tree, Scans Lexeme.extends text lexemes rest ∧ Derives level lexemes tree ∧
      build kernel lookup tree = .ok exp := by
  induction fuel generalizing mid left lexemes tree with
  | zero => cases parsed
  | succ fuel ih =>
      obtain ⟨token, seen, parsed⟩ := bind_eq_ok.mp parsed
      cases found : operator token with
      | none =>
          rw [found] at parsed
          cases parsed
          exact ⟨lexemes, tree, scans, derives, built⟩
      | some joined =>
          rw [found] at parsed
          obtain ⟨behind, read⟩ := peek_eq_ok seen
          obtain ⟨mark, named, rfl, ofSign, rfl⟩ := joins.sign token joined found
          simp only [read, ok_bind] at parsed
          obtain ⟨right, parsedRight, parsed⟩ := bind_eq_ok.mp parsed
          obtain ⟨whole, made, parsed⟩ := bind_eq_ok.mp parsed
          obtain ⟨others, other, scansRight, derivesRight, builtRight⟩ :=
            sound behind right.1 right.2 parsedRight
          refine ih (scans.append ((scans_sign mark read).append scansRight))
            (joins.join _ _ _ _ mark named ofSign derives derivesRight) ?_ parsed
          rw [build, built, builtRight]
          exact made

/-- A level of binary operators is read soundly where the level below is. -/
theorem parseLeft_sound {level below : Level} {operator : Token → Option BinOp}
    {signOf : Sign → Option Operator} {operand : Parser}
    (joins : Joins level below operator signOf) (sound : Sound kernel lookup below operand) :
    Sound kernel lookup level (parseLeft kernel length operator operand) := by
  intro text exp rest parsed
  obtain ⟨left, first, parsed⟩ := bind_eq_ok.mp parsed
  obtain ⟨lexemes, tree, scans, derives, built⟩ := sound text left.1 left.2 first
  exact joinLoop_sound joins sound _ scans (joins.lift lexemes tree derives) built parsed

/-- The expected sign stands in the text. -/
theorem expect_eq_ok (mark : Sign) {shown : String} {text rest : List Char}
    (closed : expect length mark.token shown text = .ok rest) :
    Scans Lexeme.extends text [.sign mark] rest := by
  obtain ⟨⟨token, behind⟩, read, closed⟩ := bind_eq_ok.mp closed
  split_ifs at closed with same
  obtain rfl : token = mark.token := same
  cases closed
  exact scans_sign mark read

/-- The parts of an index and of brackets are read by the parser of whole expressions. -/
theorem parsePrimary_sound {expr : Parser} (sound : Sound kernel lookup .additive expr) :
    Sound kernel lookup .primary (parsePrimary kernel lookup length expr) := by
  intro text exp rest parsed
  obtain ⟨⟨token, behind⟩, read, parsed⟩ := bind_eq_ok.mp parsed
  rcases nextToken_eq_ok read with ⟨rfl, _, _⟩ | ⟨lexeme, named, scans⟩
  · cases parsed
  cases lexeme with
  | number digits =>
      obtain ⟨value, number, rfl⟩ := map_eq_ok.mp named
      cases parsed
      refine ⟨_, _, scans, .number digits, ?_⟩
      rw [build, number]
      rfl
  | name letters =>
      cases named
      obtain ⟨vi, found, parsed⟩ := bind_eq_ok.mp parsed
      obtain ⟨token, seen, parsed⟩ := bind_eq_ok.mp parsed
      split_ifs at parsed with opens
      · obtain ⟨inside, opened⟩ := peek_eq_ok seen
        obtain rfl : token = .lBracket := opens
        simp only [opened, ok_bind] at parsed
        obtain ⟨⟨index, behindIndex⟩, parsedIndex, parsed⟩ := bind_eq_ok.mp parsed
        obtain ⟨rest, closed, parsed⟩ := bind_eq_ok.mp parsed
        obtain ⟨element, made, parsed⟩ := bind_eq_ok.mp parsed
        cases parsed
        obtain ⟨lexemes, tree, scansIndex, derives, built⟩ := sound _ _ _ parsedIndex
        refine ⟨_, _, scans.append ((scans_sign .lBracket opened).append
          (scansIndex.append (expect_eq_ok .rBracket closed))),
          .index letters derives, ?_⟩
        rw [build, found, built]
        exact made
      · cases parsed
        refine ⟨_, _, scans, .name letters, ?_⟩
        rw [build, found]
        rfl
  | sign mark =>
      cases named
      cases mark with
      | lParen =>
          obtain ⟨⟨inner, behindInner⟩, parsedInner, parsed⟩ := bind_eq_ok.mp parsed
          obtain ⟨rest, closed, parsed⟩ := bind_eq_ok.mp parsed
          cases parsed
          obtain ⟨lexemes, tree, scansInner, derives, built⟩ := sound _ _ _ parsedInner
          exact ⟨_, tree, scans.append (scansInner.append (expect_eq_ok .rParen closed)),
            .group derives, built⟩
      | plus | minus | star | slash | percent | lBracket | rBracket | rParen => cases parsed

theorem Lexeme.token_ne_eof (lexeme : Lexeme) : lexeme.token ≠ .ok .eof := by
  intro named
  cases lexeme with
  | number digits =>
      obtain ⟨value, _, other⟩ := map_eq_ok.mp named
      cases other
  | name letters => cases named
  | sign mark => cases mark <;> cases named

/-- Each minus sign in front of a primary expression is one negation. -/
theorem unaryLoop_sound {primary : Parser} (sound : Sound kernel lookup .primary primary)
    (fuel : Nat) : Sound kernel lookup .unary (unaryLoop kernel length primary fuel) := by
  induction fuel with
  | zero =>
      intro text exp rest parsed
      cases parsed
  | succ fuel ih =>
      intro text exp rest parsed
      obtain ⟨token, seen, parsed⟩ := bind_eq_ok.mp parsed
      split_ifs at parsed with negated
      · obtain ⟨behind, read⟩ := peek_eq_ok seen
        obtain rfl : token = .minus := negated
        simp only [read, ok_bind] at parsed
        obtain ⟨⟨operand, left⟩, parsedOperand, parsed⟩ := bind_eq_ok.mp parsed
        cases parsed
        obtain ⟨lexemes, tree, scans, derives, built⟩ := ih _ _ _ parsedOperand
        refine ⟨_, _, (scans_sign .minus read).append scans, .neg derives, ?_⟩
        rw [build, built]
        rfl
      · obtain ⟨lexemes, tree, scans, derives, built⟩ := sound _ _ _ parsed
        exact ⟨lexemes, tree, scans, .primary derives, built⟩

/-- The induction is on the fuel, which each pair of brackets takes one of. -/
theorem parseExpr_sound (fuel : Nat) :
    Sound kernel lookup .additive (parseExpr kernel lookup length fuel) := by
  induction fuel with
  | zero =>
      intro text exp rest parsed
      cases parsed
  | succ fuel ih =>
      have unary : Sound kernel lookup .unary
          (parseUnary kernel lookup length (parseExpr kernel lookup length fuel)) :=
        fun text => unaryLoop_sound (parsePrimary_sound ih) _ text
      exact parseLeft_sound joins_additive (parseLeft_sound joins_multiplicative unary)

/-- A text that is accepted is an expression of the grammar and nothing else. -/
theorem writes_of_parseWhole {text : List Char} {exp : Exp}
    (parsed : parseWhole kernel lookup text = .ok exp) :
    ∃ tree, Writes Lexeme.extends text tree ∧ build kernel lookup tree = .ok exp := by
  obtain ⟨⟨whole, tail⟩, parsedWhole, parsed⟩ := bind_eq_ok.mp parsed
  obtain ⟨token, seen, parsed⟩ := bind_eq_ok.mp parsed
  split_ifs at parsed with ended
  obtain rfl : token = .eof := ended
  cases parsed
  obtain ⟨behind, read⟩ := peek_eq_ok seen
  obtain ⟨lexemes, tree, scans, derives, built⟩ := parseExpr_sound _ _ _ _ parsedWhole
  rcases nextToken_eq_ok read with ⟨_, _, blank⟩ | ⟨lexeme, named, _⟩
  · exact ⟨tree, ⟨lexemes, tail, scans, blank, derives⟩, built⟩
  · exact absurd named lexeme.token_ne_eof

end Soundness

end FramaCMcp.GhostExpr
