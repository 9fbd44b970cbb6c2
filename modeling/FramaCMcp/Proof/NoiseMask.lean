/-
This file shows that exactly the comments and the literals of a source text are blanked.
-/

import FramaCMcp.Construction.Tokens
import Mathlib.Data.List.Infix
import Mathlib.Data.List.TakeWhile

namespace FramaCMcp.Concurrency

/-- A text is read as these parts. An open comment goes on to the end of the text, and an open
literal to the end of its line. -/
inductive Segment where
  | code (c : Char)
  | comment (body : Line)
  | openComment (body : Line)
  | lineComment (body : Line)
  | literal (quote : Char) (body : Line)
  | openLiteral (quote : Char) (body : Line)

/-- The lines keep their number and their lengths. -/
def blanked (body : Line) : Line := body.map fun c => if c = '\n' then '\n' else ' '

/-- The quotes of a literal stay, and the marks of a comment do not. -/
def Segment.masked : Segment → Line
  | .code c => [c]
  | .comment body => ' ' :: ' ' :: (blanked body ++ [' ', ' '])
  | .openComment body => ' ' :: ' ' :: blanked body
  | .lineComment _ => []
  | .literal quote body => quote :: (blanked body ++ [quote])
  | .openLiteral quote body => quote :: blanked body

def IsQuote (c : Char) : Prop := c = '"' ∨ c = '\''

/-- A backslash takes the next character into the literal. -/
inductive LiteralBody (quote : Char) : Line → Prop where
  | empty : LiteralBody quote []
  | plain {c : Char} {rest : Line} (inside : c ≠ quote) (unescaped : c ≠ '\\') (sameLine : c ≠ '\n')
      (later : LiteralBody quote rest) : LiteralBody quote (c :: rest)
  | escape {c : Char} {rest : Line} (sameLine : c ≠ '\n') (later : LiteralBody quote rest) :
      LiteralBody quote ('\\' :: c :: rest)

def EndsLine (rest : Line) : Prop := rest = [] ∨ ∃ more, rest = '\n' :: more

/-- A comment ends at the first mark behind its opening. -/
def Closes (body : Line) : Prop := ['*', '/'] <:+: body

/-- A text has these parts one after the other. -/
inductive Lexes : Line → List Segment → Prop where
  | nil : Lexes [] []
  | comment {body rest : Line} {parts : List Segment} (first : ¬ Closes (body ++ ['*']))
      (later : Lexes rest parts) :
      Lexes ('/' :: '*' :: (body ++ '*' :: '/' :: rest)) (.comment body :: parts)
  | openComment {body : Line} (unclosed : ¬ Closes body) :
      Lexes ('/' :: '*' :: body) [.openComment body]
  | lineComment {body rest : Line} {parts : List Segment} (sameLine : '\n' ∉ body)
      (ends : EndsLine rest) (later : Lexes rest parts) :
      Lexes ('/' :: '/' :: (body ++ rest)) (.lineComment body :: parts)
  | literal {quote : Char} {body rest : Line} {parts : List Segment} (quotes : IsQuote quote)
      (inside : LiteralBody quote body) (later : Lexes rest parts) :
      Lexes (quote :: (body ++ quote :: rest)) (.literal quote body :: parts)
  | openLiteral {quote : Char} {body last rest : Line} {parts : List Segment}
      (quotes : IsQuote quote) (inside : LiteralBody quote body) (slash : last = [] ∨ last = ['\\'])
      (ends : EndsLine rest) (later : Lexes rest parts) :
      Lexes (quote :: (body ++ last ++ rest)) (.openLiteral quote (body ++ last) :: parts)
  | code {c : Char} {rest : Line} {parts : List Segment} (unquoted : ¬ IsQuote c)
      (uncommented : c = '/' → rest.head? ≠ some '/' ∧ rest.head? ≠ some '*')
      (later : Lexes rest parts) : Lexes (c :: rest) (.code c :: parts)

/-- The lines stand one after the other with a line feed between them. -/
def joinLines : List Line → Line
  | [] => []
  | [line] => line
  | line :: next :: rest => line ++ '\n' :: joinLines (next :: rest)

/-- The whole text is cleaned at once, and a line feed ends the line. -/
def maskFrom : Nat → Noise → Line → Line
  | _, _, [] => []
  | skipped + 1, state, _ :: rest => maskFrom skipped state rest
  | 0, state, c :: rest =>
      if c = '\n' then '\n' :: maskFrom 0 state.endLine rest
      else
        match stepNoise state c (rest.headD ' ') with
        | (next, .keep) => c :: maskFrom 0 next rest
        | (next, .blank width) => List.replicate width ' ' ++ maskFrom (width - 1) next rest
        | (next, .rest) => maskFrom (rest.takeWhile (· != '\n')).length next rest

section Joined

theorem stepNoise_lineFeed (state : Noise) (c : Char) :
    stepNoise state c '\n' = stepNoise state c ' ' := by
  simp [stepNoise]

theorem maskFrom_skip (skipped rest : Line) (state : Noise) :
    maskFrom skipped.length state (skipped ++ rest) = maskFrom 0 state rest := by
  induction skipped with
  | nil => rfl
  | cons c others ih => exact ih

theorem stepLiteral_width {state next : Noise} {c : Char} {width : Nat}
    (step : stepLiteral state c = (next, .blank width)) : width = 1 := by
  unfold stepLiteral at step
  split_ifs at step <;> cases (Prod.mk.inj step).2 <;> rfl

/-- A step blanks a second character only where a mark of a comment stands there. -/
theorem stepNoise_width {state next : Noise} {c after : Char} {width : Nat}
    (step : stepNoise state c after = (next, .blank width)) :
    width = 1 ∨ width = 2 ∧ (after = '/' ∨ after = '*') := by
  unfold stepNoise at step
  simp only at step
  split_ifs at step with block closing literal opens
  · cases (Prod.mk.inj step).2
    exact .inr ⟨rfl, .inl (beq_iff_eq.mp (Bool.and_eq_true_iff.mp closing).2)⟩
  · cases (Prod.mk.inj step).2
    exact .inl rfl
  · exact .inl (stepLiteral_width step)
  · cases (Prod.mk.inj step).2
    exact .inr ⟨rfl, .inr opens.2⟩
  · cases (Prod.mk.inj step).2
  · cases (Prod.mk.inj step).2

/-- The rest of a line and the line feed behind it are read like the rest and its end. -/
theorem stepNoise_headD (state : Noise) (c : Char) (rest tail : Line) (ends : EndsLine tail) :
    stepNoise state c ((rest ++ tail).headD ' ') = stepNoise state c (rest.headD ' ') := by
  cases rest with
  | nil =>
      rcases ends with rfl | ⟨more, rfl⟩
      · rfl
      · exact stepNoise_lineFeed state c
  | cons other more => rfl

theorem maskFrom_line (skipped : Nat) (state : Noise) (line tail : Line)
    (within : skipped ≤ line.length) (whole : '\n' ∉ line) (ends : EndsLine tail) :
    maskFrom skipped state (line ++ tail) =
      (cleanLine skipped state line).2 ++ maskFrom 0 (cleanLine skipped state line).1 tail := by
  induction line generalizing skipped state with
  | nil =>
      obtain rfl : skipped = 0 := Nat.le_zero.mp within
      rfl
  | cons c rest ih =>
      have visible : c ≠ '\n' := fun same => whole (same ▸ List.mem_cons_self)
      have later : '\n' ∉ rest := fun member => whole (List.mem_cons_of_mem _ member)
      cases skipped with
      | succ skipped => exact ih skipped state (Nat.le_of_succ_le_succ within) later
      | zero =>
          rw [List.cons_append, maskFrom, if_neg visible, stepNoise_headD state c rest tail ends,
            cleanLine]
          rcases step : stepNoise state c (rest.headD ' ') with ⟨next, outcome⟩
          cases outcome with
          | keep =>
              simp only
              rw [ih 0 next (Nat.zero_le _) later, List.cons_append]
          | blank width =>
              have narrow : width - 1 ≤ rest.length := by
                rcases stepNoise_width step with rfl | ⟨rfl, mark⟩
                · exact Nat.zero_le _
                · cases rest with
                  | nil => exact absurd mark (by decide)
                  | cons other more => exact Nat.succ_le_succ (Nat.zero_le _)
              simp only
              rw [ih (width - 1) next narrow later, List.append_assoc]
          | rest =>
              have cut : (rest ++ tail).takeWhile (· != '\n') = rest := by
                have all : ∀ other ∈ rest, (other != '\n') = true := fun other member =>
                  bne_iff_ne.mpr fun same => later (same ▸ member)
                rw [List.takeWhile_append_of_pos all]
                rcases ends with rfl | ⟨more, rfl⟩
                · exact List.append_nil rest
                · exact List.append_nil rest
              simp only
              rw [cut, maskFrom_skip, List.nil_append]

theorem joinLines_cleanLines (state : Noise) (lines : List Line)
    (whole : ∀ line ∈ lines, '\n' ∉ line) :
    joinLines (cleanLines state lines) = maskFrom 0 state (joinLines lines) := by
  induction lines generalizing state with
  | nil => rfl
  | cons line rest ih =>
      have here := whole line List.mem_cons_self
      cases rest with
      | nil =>
          have only := maskFrom_line 0 state line [] (Nat.zero_le _) here (.inl rfl)
          rw [List.append_nil] at only
          exact ((List.append_nil _).symm.trans only.symm)
      | cons next others =>
          have split := maskFrom_line 0 state line ('\n' :: joinLines (next :: others))
            (Nat.zero_le _) here (.inr ⟨_, rfl⟩)
          have later := ih (cleanLine 0 state line).1.endLine
            fun other member => whole other (List.mem_cons_of_mem _ member)
          rw [joinLines, split]
          exact congrArg (fun tail => _ ++ '\n' :: tail) later

theorem length_cleanLines (state : Noise) (lines : List Line) :
    (cleanLines state lines).length = lines.length := by
  induction lines generalizing state with
  | nil => rfl
  | cons line rest ih => exact congrArg Nat.succ (ih _)

theorem lineFeed_notMem_linesFrom (current text : Line) (whole : '\n' ∉ current) :
    ∀ line ∈ WpPrint.linesFrom current text, '\n' ∉ line := by
  induction text generalizing current with
  | nil =>
      intro line member
      rw [WpPrint.linesFrom] at member
      split_ifs at member
      · cases member
      · exact List.mem_singleton.mp member ▸ whole
  | cons c rest ih =>
      intro line member
      rw [WpPrint.linesFrom] at member
      split_ifs at member with feed
      · rcases List.mem_cons.mp member with rfl | later
        · unfold WpPrint.stripReturn
          split_ifs
          · exact fun inside => whole (List.mem_of_mem_dropLast inside)
          · exact whole
        · exact ih [] List.not_mem_nil line later
      · refine ih (current ++ [c]) (fun inside => ?_) line member
        rcases List.mem_append.mp inside with before | last
        · exact whole before
        · exact feed (List.mem_singleton.mp last).symm

end Joined

section Parts

variable {body rest tail : Line}

theorem blanked_cons_of_ne {c : Char} (visible : c ≠ '\n') (rest : Line) :
    blanked (c :: rest) = ' ' :: blanked rest := by
  rw [blanked, List.map_cons, if_neg visible]
  rfl

theorem blanked_append (left right : Line) : blanked (left ++ right) = blanked left ++ blanked right :=
  List.map_append ..

/-- A text that closes no comment does not start with the closing mark. -/
theorem not_closing {c : Char} (rest : Line) (unclosed : ¬ Closes (c :: rest)) :
    (c == '*' && rest.headD ' ' == '/') = false := by
  rw [Bool.eq_false_iff]
  intro closing
  obtain ⟨star, slash⟩ := Bool.and_eq_true_iff.mp closing
  cases rest with
  | nil => exact absurd slash (by decide)
  | cons next more =>
      obtain rfl := beq_iff_eq.mp star
      obtain rfl := beq_iff_eq.mp slash
      exact unclosed ⟨[], more, rfl⟩

/-- Inside a comment, a character that does not close it is blanked. -/
theorem maskFrom_inside {c : Char} (goesOn : (c == '*' && rest.headD ' ' == '/') = false) :
    maskFrom 0 { block := true } (c :: rest) =
      blanked [c] ++ maskFrom 0 { block := true } rest := by
  by_cases feed : c = '\n'
  · subst feed
    rfl
  · rw [maskFrom, if_neg feed, stepNoise, if_pos rfl]
    simp only [goesOn]
    rw [blanked_cons_of_ne feed]
    rfl

theorem Closes.cons {c : Char} (closes : Closes rest) : Closes (c :: rest) :=
  closes.trans (List.suffix_cons c rest).isInfix

/-- An open comment is blanked to the end of the text. -/
theorem maskFrom_openComment (unclosed : ¬ Closes body) :
    maskFrom 0 { block := true } body = blanked body := by
  induction body with
  | nil => rfl
  | cons c rest ih =>
      rw [maskFrom_inside (not_closing rest unclosed), ih fun closes => unclosed closes.cons,
        ← blanked_append]
      rfl

theorem maskFrom_comment (first : ¬ Closes (body ++ ['*'])) (tail : Line) :
    maskFrom 0 { block := true } (body ++ '*' :: '/' :: tail) =
      blanked body ++ ' ' :: ' ' :: maskFrom 0 {} tail := by
  induction body with
  | nil => rfl
  | cons c rest ih =>
      have head : (rest ++ '*' :: '/' :: tail).headD ' ' = (rest ++ ['*']).headD ' ' := by
        cases rest <;> rfl
      have goesOn := not_closing (rest ++ ['*']) first
      rw [← head] at goesOn
      rw [List.cons_append, maskFrom_inside goesOn, ih fun closes => first closes.cons,
        ← List.append_assoc, ← blanked_append]
      rfl

/-- This is the state between the quotes. -/
def insideQuotes (quote : Char) : Noise := { string := quote == '"', character := quote == '\'' }

variable {quote : Char}

theorem stepNoise_insideQuotes (quotes : IsQuote quote) (c after : Char) :
    stepNoise (insideQuotes quote) c after = stepLiteral (insideQuotes quote) c := by
  rcases quotes with rfl | rfl <;> rfl

theorem stepLiteral_plain {c : Char} (quotes : IsQuote quote) (inside : c ≠ quote)
    (unescaped : c ≠ '\\') :
    stepLiteral (insideQuotes quote) c = (insideQuotes quote, .blank 1) := by
  unfold stepLiteral
  rw [if_neg (by exact Bool.false_ne_true), if_neg unescaped, if_neg]
  rcases quotes with rfl | rfl
  · simpa [insideQuotes] using inside
  · simpa [insideQuotes] using inside

/-- The body of a literal is blanked and leads back between the quotes. -/
theorem maskFrom_literalBody (quotes : IsQuote quote) (literal : LiteralBody quote body)
    (tail : Line) :
    maskFrom 0 (insideQuotes quote) (body ++ tail) =
      blanked body ++ maskFrom 0 (insideQuotes quote) tail := by
  induction literal with
  | empty => rfl
  | @plain c rest inside unescaped sameLine _ ih =>
      rw [List.cons_append, maskFrom, if_neg sameLine, stepNoise_insideQuotes quotes,
        stepLiteral_plain quotes inside unescaped, blanked_cons_of_ne sameLine]
      exact congrArg (' ' :: ·) ih
  | @escape c rest sameLine _ ih =>
      have slash : blanked ('\\' :: c :: rest) = ' ' :: ' ' :: blanked rest := by
        rw [blanked_cons_of_ne (by decide), blanked_cons_of_ne sameLine]
      have first (more : Line) : maskFrom 0 (insideQuotes quote) ('\\' :: more) =
          ' ' :: maskFrom 0 { insideQuotes quote with escaped := true } more := by
        rcases quotes with rfl | rfl <;> rfl
      have second (more : Line) :
          maskFrom 0 { insideQuotes quote with escaped := true } (c :: more) =
            ' ' :: maskFrom 0 (insideQuotes quote) more := by
        rw [maskFrom, if_neg sameLine]
        rcases quotes with rfl | rfl <;> rfl
      rw [List.cons_append, List.cons_append, first, second, ih, slash]
      rfl

theorem maskFrom_openQuote (quotes : IsQuote quote) (tail : Line) :
    maskFrom 0 {} (quote :: tail) = quote :: maskFrom 0 (insideQuotes quote) tail := by
  rcases quotes with rfl | rfl <;> rfl

theorem maskFrom_closeQuote (quotes : IsQuote quote) (tail : Line) :
    maskFrom 0 (insideQuotes quote) (quote :: tail) = quote :: maskFrom 0 {} tail := by
  rcases quotes with rfl | rfl <;> rfl

/-- Outside a comment, the end of the line leads back to the code. -/
theorem maskFrom_endsLine {state : Noise} (open_ : state.block = false) (ends : EndsLine rest) :
    maskFrom 0 state rest = maskFrom 0 {} rest := by
  rcases ends with rfl | ⟨more, rfl⟩
  · rfl
  · have cleared : state.endLine = {} := by rw [Noise.endLine, open_]
    rw [maskFrom, if_pos rfl, cleared]
    rfl

theorem maskFrom_lastSlash {last : Line} (quotes : IsQuote quote)
    (slash : last = [] ∨ last = ['\\']) (ends : EndsLine rest) :
    maskFrom 0 (insideQuotes quote) (last ++ rest) = blanked last ++ maskFrom 0 {} rest := by
  rcases slash with rfl | rfl
  · exact maskFrom_endsLine rfl ends
  · have first : maskFrom 0 (insideQuotes quote) ('\\' :: rest) =
        ' ' :: maskFrom 0 { insideQuotes quote with escaped := true } rest := by
      rcases quotes with rfl | rfl <;> rfl
    exact first.trans (congrArg (' ' :: ·) (maskFrom_endsLine rfl ends))

theorem maskFrom_lineComment (sameLine : '\n' ∉ body) (ends : EndsLine rest) :
    maskFrom 0 {} ('/' :: '/' :: (body ++ rest)) = maskFrom 0 {} rest := by
  have cut : ('/' :: (body ++ rest)).takeWhile (· != '\n') = '/' :: body := by
    have all : ∀ other ∈ '/' :: body, (other != '\n') = true := by
      intro other member
      rcases List.mem_cons.mp member with rfl | later
      · rfl
      · exact bne_iff_ne.mpr fun same => sameLine (same ▸ later)
    rw [← List.cons_append, List.takeWhile_append_of_pos all]
    rcases ends with rfl | ⟨more, rfl⟩
    · exact List.append_nil _
    · exact List.append_nil _
  have step : maskFrom 0 {} ('/' :: '/' :: (body ++ rest)) =
      maskFrom (('/' :: (body ++ rest)).takeWhile (· != '\n')).length {} ('/' :: (body ++ rest)) :=
    rfl
  rw [step, cut, ← List.cons_append, maskFrom_skip]

/-- A character outside comments and literals is kept. -/
theorem maskFrom_code {c : Char} (unquoted : ¬ IsQuote c)
    (uncommented : c = '/' → rest.head? ≠ some '/' ∧ rest.head? ≠ some '*') :
    maskFrom 0 {} (c :: rest) = c :: maskFrom 0 {} rest := by
  have plain {mark : Char} (other : mark ≠ ' ') (absent : c = '/' → rest.head? ≠ some mark) :
      ¬ (c = '/' ∧ rest.headD ' ' = mark) := by
    rintro ⟨slash, next⟩
    apply absent slash
    cases rest with
    | nil => exact absurd next.symm other
    | cons first more => exact congrArg some next
  have string : (c == '"') = false := beq_eq_false_iff_ne.mpr fun same => unquoted (.inl same)
  have character : (c == '\'') = false := beq_eq_false_iff_ne.mpr fun same => unquoted (.inr same)
  by_cases feed : c = '\n'
  · subst feed
    rfl
  · rw [maskFrom, if_neg feed, stepNoise, if_neg Bool.false_ne_true, if_neg (by decide),
      if_neg (plain (by decide) fun slash => (uncommented slash).2),
      if_neg (plain (by decide) fun slash => (uncommented slash).1), string, character]

theorem maskFrom_of_lexes {text : Line} {parts : List Segment} (lexes : Lexes text parts) :
    maskFrom 0 {} text = parts.flatMap Segment.masked := by
  induction lexes with
  | nil => rfl
  | comment first _ ih =>
      have opened (more : Line) : maskFrom 0 {} ('/' :: '*' :: more) =
          ' ' :: ' ' :: maskFrom 0 { block := true } more := rfl
      rw [opened, maskFrom_comment first, ih, List.flatMap_cons, Segment.masked]
      simp
  | openComment unclosed =>
      have opened (more : Line) : maskFrom 0 {} ('/' :: '*' :: more) =
          ' ' :: ' ' :: maskFrom 0 { block := true } more := rfl
      rw [opened, maskFrom_openComment unclosed]
      simp [Segment.masked]
  | lineComment sameLine ends _ ih =>
      rw [maskFrom_lineComment sameLine ends, ih]
      rfl
  | literal quotes inside _ ih =>
      rw [maskFrom_openQuote quotes, maskFrom_literalBody quotes inside,
        maskFrom_closeQuote quotes, ih, List.flatMap_cons, Segment.masked]
      simp
  | openLiteral quotes inside slash ends _ ih =>
      rw [maskFrom_openQuote quotes, List.append_assoc, maskFrom_literalBody quotes inside,
        maskFrom_lastSlash quotes slash ends, ih, List.flatMap_cons, Segment.masked,
        blanked_append]
      simp
  | code unquoted uncommented _ ih =>
      rw [maskFrom_code unquoted uncommented, ih]
      rfl

end Parts

section Read

theorem closes_cons_iff {c : Char} {rest : Line} :
    Closes (c :: rest) ↔ (c = '*' ∧ rest.head? = some '/') ∨ Closes rest := by
  unfold Closes
  rw [List.infix_cons_iff, List.cons_prefix_cons]
  refine or_congr_left (and_congr eq_comm ?_)
  cases rest with
  | nil => simp
  | cons next more => simp [List.cons_prefix_cons, eq_comm]

/-- A text has a first closing mark or closes no comment. -/
theorem exists_comment (text : Line) :
    (∃ body rest, text = body ++ '*' :: '/' :: rest ∧ ¬ Closes (body ++ ['*'])) ∨ ¬ Closes text := by
  induction text with
  | nil => exact .inr (by unfold Closes; decide)
  | cons c rest ih =>
      by_cases here : c = '*' ∧ rest.head? = some '/'
      · obtain ⟨rfl, slash⟩ := here
        obtain ⟨more, rfl⟩ : ∃ more, rest = '/' :: more := by
          cases rest with
          | nil => cases slash
          | cons next more => exact ⟨more, by rw [Option.some.inj slash]⟩
        exact .inl ⟨[], more, rfl, by unfold Closes; decide⟩
      · rcases ih with ⟨body, tail, rfl, first⟩ | unclosed
        · refine .inl ⟨c :: body, tail, rfl, fun closes => ?_⟩
          rcases closes_cons_iff.mp closes with ⟨star, slash⟩ | later
          · apply here
            cases body with
            | nil => cases slash
            | cons next more => exact ⟨star, slash⟩
          · exact first later
        · refine .inr fun closes => ?_
          rcases closes_cons_iff.mp closes with mark | later
          · exact here mark
          · exact unclosed later

/-- A text behind a quote has the closing quote of a literal or ends its line before. -/
theorem exists_literal (quote : Char) (text : Line) :
    (∃ body rest, text = body ++ quote :: rest ∧ LiteralBody quote body) ∨
      ∃ body last rest, text = body ++ last ++ rest ∧ LiteralBody quote body ∧
        (last = [] ∨ last = ['\\']) ∧ EndsLine rest := by
  induction size : text.length using Nat.strong_induction_on generalizing text with
  | _ size ih =>
      subst size
      cases text with
      | nil => exact .inr ⟨[], [], [], rfl, .empty, .inl rfl, .inl rfl⟩
      | cons c rest =>
          by_cases closes : c = quote
          · exact .inl ⟨[], rest, by rw [closes]; rfl, .empty⟩
          by_cases feed : c = '\n'
          · exact .inr ⟨[], [], c :: rest, rfl, .empty, .inl rfl, .inr ⟨rest, by rw [feed]⟩⟩
          by_cases slash : c = '\\'
          · subst slash
            cases rest with
            | nil => exact .inr ⟨[], ['\\'], [], rfl, .empty, .inr rfl, .inl rfl⟩
            | cons next more =>
                by_cases ends : next = '\n'
                · exact .inr ⟨[], ['\\'], next :: more, rfl, .empty, .inr rfl,
                    .inr ⟨more, by rw [ends]⟩⟩
                · rcases ih more.length (by simp only [List.length_cons]; omega) more rfl with
                    ⟨body, tail, rfl, inside⟩ | ⟨body, last, tail, rfl, inside, shape, stops⟩
                  · exact .inl ⟨'\\' :: next :: body, tail, rfl, .escape ends inside⟩
                  · exact .inr ⟨'\\' :: next :: body, last, tail, rfl, .escape ends inside, shape,
                      stops⟩
          · rcases ih rest.length (by simp only [List.length_cons]; omega) rest rfl with
              ⟨body, tail, rfl, inside⟩ | ⟨body, last, tail, rfl, inside, shape, stops⟩
            · exact .inl ⟨c :: body, tail, rfl, .plain closes slash feed inside⟩
            · exact .inr ⟨c :: body, last, tail, rfl, .plain closes slash feed inside, shape, stops⟩

theorem exists_lineEnd (text : Line) :
    ∃ body rest, text = body ++ rest ∧ '\n' ∉ body ∧ EndsLine rest := by
  refine ⟨text.takeWhile (· != '\n'), text.dropWhile (· != '\n'),
    List.takeWhile_append_dropWhile.symm, fun member => ?_, ?_⟩
  · exact absurd (List.mem_takeWhile_imp member) (by decide)
  · have first := List.head?_dropWhile_not (· != '\n') text
    cases tail : text.dropWhile (· != '\n') with
    | nil => exact .inl rfl
    | cons c more =>
        rw [tail] at first
        have feed : c = '\n' := by simpa using first
        exact .inr ⟨more, by rw [feed]⟩

/-- Each text is read as some parts. -/
theorem exists_lexes (text : Line) : ∃ parts, Lexes text parts := by
  induction size : text.length using Nat.strong_induction_on generalizing text with
  | _ size ih =>
      subst size
      cases text with
      | nil => exact ⟨[], .nil⟩
      | cons c rest =>
          have shorter (tail : Line) (within : tail.length ≤ rest.length) :
              ∃ parts, Lexes tail parts := ih tail.length (Nat.lt_succ_of_le within) tail rfl
          by_cases quotes : IsQuote c
          · rcases exists_literal c rest with
              ⟨body, tail, rfl, inside⟩ | ⟨body, last, tail, rfl, inside, shape, stops⟩
            · obtain ⟨parts, later⟩ := shorter tail (by
                simp only [List.length_append, List.length_cons]; omega)
              exact ⟨_, .literal quotes inside later⟩
            · obtain ⟨parts, later⟩ := shorter tail (by simp only [List.length_append]; omega)
              exact ⟨_, .openLiteral quotes inside shape stops later⟩
          by_cases block : c = '/' ∧ rest.head? = some '*'
          · obtain ⟨rfl, star⟩ := block
            obtain ⟨more, rfl⟩ : ∃ more, rest = '*' :: more := by
              cases rest with
              | nil => cases star
              | cons next more => exact ⟨more, by rw [Option.some.inj star]⟩
            rcases exists_comment more with ⟨body, tail, rfl, first⟩ | unclosed
            · obtain ⟨parts, later⟩ := shorter tail (by
                simp only [List.length_append, List.length_cons]; omega)
              exact ⟨_, .comment first later⟩
            · exact ⟨_, .openComment unclosed⟩
          by_cases line : c = '/' ∧ rest.head? = some '/'
          · obtain ⟨rfl, slash⟩ := line
            obtain ⟨more, rfl⟩ : ∃ more, rest = '/' :: more := by
              cases rest with
              | nil => cases slash
              | cons next more => exact ⟨more, by rw [Option.some.inj slash]⟩
            obtain ⟨body, tail, rfl, sameLine, ends⟩ := exists_lineEnd more
            obtain ⟨parts, later⟩ := shorter tail (by
              simp only [List.length_append, List.length_cons]; omega)
            exact ⟨_, .lineComment sameLine ends later⟩
          · obtain ⟨parts, later⟩ := shorter rest le_rfl
            exact ⟨_, .code quotes (fun slash => ⟨fun next => line ⟨slash, next⟩,
              fun next => block ⟨slash, next⟩⟩) later⟩

end Read

/-- The lines behind the byte order marks keep their number, and all their parts are masked. A
literal that has no closing quote ends with its line. -/
theorem stripNoise_masks (text : Line) :
    (stripNoise text).length = (WpPrint.linesFrom [] (afterMarks text)).length ∧
    (∃ parts, Lexes (joinLines (WpPrint.linesFrom [] (afterMarks text))) parts) ∧
    ∀ parts, Lexes (joinLines (WpPrint.linesFrom [] (afterMarks text))) parts →
      joinLines (stripNoise text) = parts.flatMap Segment.masked := by
  refine ⟨length_cleanLines _ _, exists_lexes _, fun parts lexes => ?_⟩
  unfold stripNoise
  rw [joinLines_cleanLines _ _ (lineFeed_notMem_linesFrom [] _ List.not_mem_nil)]
  exact maskFrom_of_lexes lexes

/-- A byte order mark in front of the text is removed and not kept. -/
theorem not_stripNoise_masks : ¬ ∀ (text : Line) (parts : List Segment),
    Lexes (joinLines (WpPrint.linesFrom [] text)) parts →
      joinLines (stripNoise text) = parts.flatMap Segment.masked := by
  intro always
  have lexes : Lexes [byteOrderMark, 'x'] [.code byteOrderMark, .code 'x'] :=
    .code (by unfold IsQuote; decide) (by decide) (.code (by unfold IsQuote; decide) (by decide) .nil)
  exact absurd (always [byteOrderMark, 'x'] _ lexes) (by decide)

end FramaCMcp.Concurrency
