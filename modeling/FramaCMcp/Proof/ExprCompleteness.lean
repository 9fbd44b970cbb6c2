/-
This file shows that the parser of ghost code ends on every text and builds the tree of every
expression of the grammar, and that C reads the same lexemes in a text without a decrement.
-/

import FramaCMcp.Proof.ExprGrammar

namespace FramaCMcp.GhostExpr

open CLang
open StateFlow (map_eq_ok bind_eq_ok)
open Cil (Varinfo Fundec)

section Completeness

variable {kernel : Kernel} {lookup : String → Except String Varinfo} {length : Nat}

/-- The next token is none that the parser goes on with. -/
def Stops (length : Nat) (goesOn : Token → Bool) (text : List Char) : Prop :=
  ∃ token, peek length text = .ok token ∧ goesOn token = false

/-- A parser that has room for the text builds what its tree says. -/
def Builds (kernel : Kernel) (lookup : String → Except String Varinfo) (parser : Parser)
    (text : List Char) (tree : Tree) (rest : List Char) : Prop :=
  parser text = (build kernel lookup tree).map fun exp => (exp, rest)

variable {lexemes : List Lexeme} {text rest : List Char} {tree : Tree}
    {operator : Token → Option BinOp}

/-- The lexer takes the sign that is written next. -/
theorem nextToken_sign (length : Nat) {text behind : List Char} {mark : Sign}
    (scans : Scans Lexeme.extends text (.sign mark :: lexemes) behind) :
    ∃ mid, nextToken length text = .ok (mark.token, mid) ∧
      Scans Lexeme.extends mid lexemes behind ∧ mid.length < text.length := by
  cases scans with
  | @next lead mid _ _ _ blank wellFormed ends behind =>
      refine ⟨mid, nextToken_lexeme blank wellFormed ends length, behind, ?_⟩
      simp only [List.length_append, Lexeme.text, List.length_singleton]
      omega

theorem peek_sign {text behind : List Char} {mark : Sign}
    (scans : Scans Lexeme.extends text (.sign mark :: lexemes) behind) :
    peek length text = .ok mark.token := by
  obtain ⟨mid, read, _⟩ := nextToken_sign length scans
  rw [peek, read]
  rfl

def goesOnUnary (token : Token) : Bool := token == .lBracket

def goesOnProduct (token : Token) : Bool := goesOnUnary token || (multiplicativeOp token).isSome

def goesOnSum (token : Token) : Bool := goesOnProduct token || (additiveOp token).isSome

/-- The level has built what its tree says and looks for an operator behind it. -/
def Pauses (kernel : Kernel) (lookup : String → Except String Varinfo) (length : Nat)
    (operator : Token → Option BinOp) (operand parser : Parser) (text : List Char) (tree : Tree)
    (rest : List Char) : Prop :=
  ∃ steps, rest.length < steps ∧ parser text = build kernel lookup tree >>= fun left =>
    joinLoop kernel length operator operand steps left rest

/-- An operand alone is a chain that may go on. -/
theorem Builds.pauses {operand : Parser} (builds : Builds kernel lookup operand text tree rest) :
    Pauses kernel lookup length operator operand (parseLeft kernel length operator operand) text
      tree rest := by
  refine ⟨rest.length + 1, Nat.lt_succ_self _, ?_⟩
  rw [parseLeft, builds]
  cases build kernel lookup tree <;> rfl

/-- A chain ends where no operator follows. -/
theorem Pauses.builds {operand parser : Parser}
    (pauses : Pauses kernel lookup length operator operand parser text tree rest)
    (stops : Stops length (fun token => (operator token).isSome) rest) :
    Builds kernel lookup parser text tree rest := by
  obtain ⟨steps, room, parsed⟩ := pauses
  obtain ⟨token, seen, other⟩ := stops
  rw [Option.isSome_eq_false_iff, Option.isNone_iff_eq_none] at other
  cases steps with
  | zero => exact absurd room (Nat.not_lt_zero _)
  | succ steps =>
      rw [Builds, parsed]
      cases build kernel lookup tree with
      | error fault => rfl
      | ok left =>
          change joinLoop kernel length operator operand (steps + 1) left rest = .ok (left, rest)
          rw [joinLoop, seen, ok_bind, other]

/-- One more operator and operand prolong the chain. -/
theorem Pauses.join {level below : Level} {signOf : Sign → Option Operator}
    (joins : Joins level below operator signOf) {operand parser : Parser}
    {text mid behind rest : List Char} {left right : Tree} {mark : Sign} {named : Operator}
    (found : signOf mark = some named)
    (pauses : Pauses kernel lookup length operator operand parser text left mid)
    (read : nextToken length mid = .ok (mark.token, behind))
    (builds : Builds kernel lookup operand behind right rest) (shorter : rest.length < mid.length) :
    Pauses kernel lookup length operator operand parser text (.binary named left right) rest := by
  obtain ⟨steps, room, parsed⟩ := pauses
  cases steps with
  | zero => exact absurd room (Nat.not_lt_zero _)
  | succ steps =>
      refine ⟨steps, by omega, ?_⟩
      have seen : peek length mid = .ok mark.token := by
        rw [peek, read]
        rfl
      rw [parsed, build]
      cases build kernel lookup left with
      | error fault => rfl
      | ok first =>
          rw [ok_bind, ok_bind, joinLoop, seen, ok_bind, joins.token mark named found]
          simp only [read, ok_bind]
          rw [builds]
          cases build kernel lookup right <;> rfl

/-- The parser of a level builds what the tree of a text of this level says. -/
def Complete (kernel : Kernel) (lookup : String → Except String Varinfo) (length : Nat)
    (level : Level) (lexemes : List Lexeme) (tree : Tree) : Prop :=
  ∀ fuel text rest, Scans Lexeme.extends text lexemes rest → text.length ≤ fuel →
    match level with
    | .primary => Stops length goesOnUnary rest → Builds kernel lookup
        (parsePrimary kernel lookup length (parseExpr kernel lookup length fuel)) text tree rest
    | .unary => Stops length goesOnUnary rest → ∀ steps, text.length < steps →
        Builds kernel lookup (unaryLoop kernel length
          (parsePrimary kernel lookup length (parseExpr kernel lookup length fuel)) steps)
          text tree rest
    | .multiplicative => Stops length goesOnUnary rest →
        Pauses kernel lookup length multiplicativeOp
          (parseUnary kernel lookup length (parseExpr kernel lookup length fuel))
          (parseMultiplicative kernel lookup length (parseExpr kernel lookup length fuel))
          text tree rest
    | .additive => Stops length goesOnProduct rest →
        Pauses kernel lookup length additiveOp
          (parseMultiplicative kernel lookup length (parseExpr kernel lookup length fuel))
          (parseAdditive kernel lookup length (parseExpr kernel lookup length fuel))
          text tree rest

theorem Stops.mono {goesOn other : Token → Bool} {text : List Char}
    (stops : Stops length goesOn text) (less : ∀ token, other token = true → goesOn token = true) :
    Stops length other text := by
  obtain ⟨token, seen, stopped⟩ := stops
  refine ⟨token, seen, ?_⟩
  by_contra going
  rw [less token (eq_true_of_ne_false going)] at stopped
  cases stopped

theorem stops_sign {goesOn : Token → Bool} {text behind : List Char} {mark : Sign}
    (scans : Scans Lexeme.extends text (.sign mark :: lexemes) behind)
    (stopped : goesOn mark.token = false) : Stops length goesOn text :=
  ⟨mark.token, peek_sign scans, stopped⟩

theorem Complete.product (complete : Complete kernel lookup length .multiplicative lexemes tree)
    {fuel : Nat} (scans : Scans Lexeme.extends text lexemes rest) (room : text.length ≤ fuel)
    (stops : Stops length goesOnProduct rest) :
    Builds kernel lookup
      (parseMultiplicative kernel lookup length (parseExpr kernel lookup length fuel)) text tree
      rest := by
  have open_ : Stops length goesOnUnary rest :=
    stops.mono fun token going => Bool.or_eq_true_iff.mpr (.inl going)
  exact Pauses.builds (complete fuel text rest scans room open_)
    (stops.mono fun token going => Bool.or_eq_true_iff.mpr (.inr going))

theorem Complete.sum (complete : Complete kernel lookup length .additive lexemes tree) {fuel : Nat}
    (scans : Scans Lexeme.extends text lexemes rest) (room : text.length < fuel)
    (stops : Stops length goesOnSum rest) :
    Builds kernel lookup (parseExpr kernel lookup length fuel) text tree rest := by
  cases fuel with
  | zero => exact absurd room (Nat.not_lt_zero _)
  | succ fuel =>
      have going : Stops length goesOnProduct rest :=
        stops.mono fun token going => Bool.or_eq_true_iff.mpr (.inl going)
      exact Pauses.builds (complete fuel text rest scans (Nat.le_of_lt_succ room) going)
        (stops.mono fun token going => Bool.or_eq_true_iff.mpr (.inr going))

theorem expect_sign {mark : Sign} (scans : Scans Lexeme.extends text [.sign mark] rest)
    (shown : String) : expect length mark.token shown text = .ok rest := by
  obtain ⟨mid, read, behind, _⟩ := nextToken_sign length scans
  cases behind
  rw [expect, read, ok_bind, if_pos rfl]

theorem complete_number (digits : List Char) :
    Complete kernel lookup length .primary [.number digits] (.number digits) := by
  intro fuel text rest scans _ _
  cases scans with
  | next blank wellFormed ends behind =>
      cases behind
      rw [Builds, parsePrimary, nextToken_lexeme blank wellFormed ends, build, Lexeme.token]
      cases intOfString digits <;> rfl

theorem complete_name (letters : List Char) :
    Complete kernel lookup length .primary [.name letters] (.name (String.ofList letters)) := by
  intro fuel text rest scans _ stops
  obtain ⟨token, seen, other⟩ := stops
  cases scans with
  | next blank wellFormed ends behind =>
      cases behind
      rw [Builds, parsePrimary, nextToken_lexeme blank wellFormed ends, build]
      change (findVar lookup (String.ofList letters) >>= fun vi => _) = _
      cases findVar lookup (String.ofList letters) with
      | error fault => rfl
      | ok vi =>
          rw [ok_bind, seen, ok_bind, if_neg (by simpa [goesOnUnary] using other)]
          rfl

/-- The parser reads an element behind the name of its array. -/
theorem complete_index (letters : List Char) {inner : List Lexeme} {position : Tree}
    (complete : Complete kernel lookup length .additive inner position) :
    Complete kernel lookup length .primary
      (.name letters :: .sign .lBracket :: (inner ++ [.sign .rBracket]))
      (.index (String.ofList letters) position) := by
  intro fuel text rest scans room _
  cases scans with
  | @next lead mid _ _ _ blank wellFormed ends scans =>
      obtain ⟨inside, read, scans, shorter⟩ := nextToken_sign length scans
      obtain ⟨behind, scansInner, scansClose⟩ := scans.of_append
      have fits : inside.length < fuel := by
        simp only [List.length_append] at room
        omega
      have builds := complete.sum scansInner fits (stops_sign scansClose rfl)
      have seen : peek length mid = .ok .lBracket := by
        rw [peek, read]
        rfl
      have closed : expect length .rBracket "]" behind = .ok rest := expect_sign scansClose "]"
      rw [Builds, parsePrimary, nextToken_lexeme blank wellFormed ends, build]
      change (findVar lookup (String.ofList letters) >>= fun vi => _) = _
      cases findVar lookup (String.ofList letters) with
      | error fault => rfl
      | ok vi =>
          simp only [ok_bind, seen, if_true, read]
          rw [builds]
          cases build kernel lookup position with
          | error fault => rfl
          | ok index =>
              change (expect length .rBracket "]" behind >>= fun rest => _) = _
              rw [closed, ok_bind]
              change _ = (indexed kernel (String.ofList letters) vi index).map
                fun exp => (exp, rest)
              cases indexed kernel (String.ofList letters) vi index <;> rfl

/-- Parentheses keep the tree that they enclose. -/
theorem complete_group {inner : List Lexeme}
    (complete : Complete kernel lookup length .additive inner tree) :
    Complete kernel lookup length .primary (.sign .lParen :: (inner ++ [.sign .rParen])) tree := by
  intro fuel text rest scans room _
  obtain ⟨inside, read, scans, shorter⟩ := nextToken_sign length scans
  obtain ⟨behind, scansInner, scansClose⟩ := scans.of_append
  have fits : inside.length < fuel := by omega
  have builds := complete.sum scansInner fits (stops_sign scansClose rfl)
  have closed : expect length .rParen ")" behind = .ok rest := expect_sign scansClose ")"
  rw [Builds, parsePrimary, read, ok_bind]
  change (parseExpr kernel lookup length fuel inside >>= fun inner => _) = _
  rw [builds]
  cases build kernel lookup tree with
  | error fault => rfl
  | ok exp =>
      change (expect length .rParen ")" behind >>= fun rest => _) = _
      rw [closed]
      rfl

theorem Lexeme.eq_minus_of_token {lexeme : Lexeme} (named : lexeme.token = .ok .minus) :
    lexeme = .sign .minus := by
  cases lexeme with
  | number digits =>
      obtain ⟨value, _, other⟩ := map_eq_ok.mp named
      cases other
  | name letters => cases named
  | sign mark => cases mark <;> first | rfl | cases named

/-- A primary expression starts with no minus sign. -/
theorem Derives.primary_head (derives : Derives .primary lexemes tree) :
    ∃ lexeme others, lexemes = lexeme :: others ∧ lexeme ≠ .sign .minus := by
  cases derives with
  | number digits | name letters | index letters _ | group _ =>
      refine ⟨_, _, rfl, fun same => ?_⟩
      cases same

/-- A primary never starts with a minus. -/
theorem peek_ne_minus (derives : Derives .primary lexemes tree)
    (scans : Scans Lexeme.extends text lexemes rest) {token : Token}
    (seen : peek length text = .ok token) : token ≠ .minus := by
  rintro rfl
  obtain ⟨behind, read⟩ := peek_eq_ok seen
  obtain ⟨lexeme, others, rfl, other⟩ := derives.primary_head
  cases scans with
  | next blank wellFormed ends scans =>
      rw [nextToken_lexeme blank wellFormed ends] at read
      obtain ⟨token, named, same⟩ := map_eq_ok.mp read
      cases same
      exact other (Lexeme.eq_minus_of_token named)

/-- Without a minus sign in front the operand is a primary expression. -/
theorem complete_primary (derives : Derives .primary lexemes tree)
    (complete : Complete kernel lookup length .primary lexemes tree) :
    Complete kernel lookup length .unary lexemes tree := by
  intro fuel text rest scans room stops steps fits
  have builds := complete fuel text rest scans room stops
  cases steps with
  | zero => exact absurd fits (Nat.not_lt_zero _)
  | succ steps =>
      cases seen : peek length text with
      | error fault =>
          have failed : nextToken length text = .error fault := by
            rw [peek] at seen
            cases read : nextToken length text with
            | error other =>
                rw [read] at seen
                exact congrArg _ (Except.error.inj seen)
            | ok next =>
                rw [read] at seen
                cases seen
          rw [Builds, ← builds, unaryLoop, seen, parsePrimary, failed]
          rfl
      | ok token =>
          rw [Builds, unaryLoop, seen, ok_bind, if_neg (peek_ne_minus derives scans seen)]
          exact builds

/-- A minus negates the operand that follows it. -/
theorem complete_neg {operand : Tree}
    (complete : Complete kernel lookup length .unary lexemes operand) :
    Complete kernel lookup length .unary (.sign .minus :: lexemes) (.neg operand) := by
  intro fuel text rest scans room stops steps fits
  obtain ⟨behind, read, scans, shorter⟩ := nextToken_sign length scans
  cases steps with
  | zero => exact absurd fits (Nat.not_lt_zero _)
  | succ steps =>
      have builds := complete fuel behind rest scans (by omega) stops steps (by omega)
      have seen : peek length text = .ok .minus := by
        rw [peek, read]
        rfl
      rw [Builds, unaryLoop, seen, ok_bind, if_pos rfl, read, ok_bind, build]
      change (unaryLoop kernel length _ steps behind >>= fun operand => _) = _
      rw [builds]
      cases build kernel lookup operand <;> rfl

/-- The parser builds what the tree of a text says, at every level of the grammar. -/
theorem derives_complete {level : Level} (derives : Derives level lexemes tree) :
    Complete kernel lookup length level lexemes tree := by
  induction derives with
  | number digits => exact complete_number digits
  | name letters => exact complete_name letters
  | index letters _ ih => exact complete_index letters ih
  | group _ ih => exact complete_group ih
  | primary derives ih => exact complete_primary derives ih
  | neg _ ih => exact complete_neg ih
  | unary _ ih =>
      intro fuel text rest scans room stops
      have builds := ih fuel text rest scans room stops (text.length + 1) (Nat.lt_succ_self _)
      exact Builds.pauses builds
  | @multiply first second left right mark named found _ _ ihLeft ihRight =>
      intro fuel text rest scans room stops
      obtain ⟨mid, scansLeft, scansRight⟩ := scans.of_append
      obtain ⟨behind, read, scansRight', shorter⟩ := nextToken_sign length scansRight
      have atSign : Stops length goesOnUnary mid := stops_sign scansRight (by
        cases mark <;> first | rfl | cases found)
      have left := ihLeft fuel text mid scansLeft room atSign
      have less := scansLeft.length_le
      have right := ihRight fuel behind rest scansRight' (by omega) stops (behind.length + 1)
        (Nat.lt_succ_self _)
      exact Pauses.join joins_multiplicative found left read right
        (lt_of_le_of_lt (Nat.le_of_add_right_le scansRight'.length_le) shorter)
  | multiplicative _ ih =>
      intro fuel text rest scans room stops
      exact Builds.pauses (Complete.product ih scans room stops)
  | @add first second left right mark named found _ _ ihLeft ihRight =>
      intro fuel text rest scans room stops
      obtain ⟨mid, scansLeft, scansRight⟩ := scans.of_append
      obtain ⟨behind, read, scansRight', shorter⟩ := nextToken_sign length scansRight
      have atSign : Stops length goesOnProduct mid := stops_sign scansRight (by
        cases mark <;> first | rfl | cases found)
      have left := ihLeft fuel text mid scansLeft room atSign
      have less := scansLeft.length_le
      have fits : behind.length ≤ fuel := by omega
      have right := Complete.product ihRight scansRight' fits stops
      exact Pauses.join joins_additive found left read right
        (lt_of_le_of_lt (Nat.le_of_add_right_le scansRight'.length_le) shorter)

theorem skipWs_blank {tail : List Char} (blank : ∀ letter ∈ tail, isSpace letter = true) :
    skipWs tail = [] := by
  rw [skipWs, List.dropWhile_eq_nil_iff]
  exact blank

theorem nextToken_blank {tail : List Char} (blank : ∀ letter ∈ tail, isSpace letter = true) :
    nextToken length tail = .ok (.eof, []) := by
  rw [nextToken, skipWs_blank blank]

/-- The parser builds the tree that the text writes. -/
theorem parseWhole_of_writes {text : List Char} (writes : Writes Lexeme.extends text tree) :
    parseWhole kernel lookup text = build kernel lookup tree := by
  obtain ⟨lexemes, tail, scans, blank, derives⟩ := writes
  have ended : peek text.length tail = .ok .eof := by
    rw [peek, nextToken_blank blank]
    rfl
  have complete : Complete kernel lookup text.length .additive lexemes tree :=
    derives_complete derives
  have builds := complete.sum scans (Nat.lt_succ_self _) ⟨.eof, ended, rfl⟩
  rw [parseWhole, builds]
  cases build kernel lookup tree with
  | error fault => rfl
  | ok exp =>
      change (peek text.length tail >>= fun token => _) = _
      rw [ended, ok_bind, if_pos rfl]

end Completeness

section Endings

variable {kernel : Kernel} {lookup : String → Except String Varinfo} {length : Nat}

theorem bind_ne_endless {α β : Type} {first : Except Fault α} {next : α → Except Fault β}
    (ends : first ≠ .error .endless)
    (goes : ∀ value, first = .ok value → next value ≠ .error .endless) :
    (first >>= next) ≠ .error .endless := by
  cases first with
  | error fault =>
      intro stuck
      exact ends (congrArg _ (Except.error.inj stuck))
  | ok value => exact goes value rfl

theorem mapError_ne_endless {α Error : Type} (result : Except Error α) (f : Error → Raised) :
    (result.mapError fun error => Fault.raised (f error)) ≠ .error .endless := by
  cases result with
  | error error =>
      intro stuck
      cases stuck
  | ok value =>
      intro stuck
      cases stuck

theorem nextToken_ne_endless (text : List Char) : nextToken length text ≠ .error .endless := by
  intro stuck
  rw [nextToken] at stuck
  cases skipped : skipWs text with
  | nil =>
      rw [skipped] at stuck
      cases stuck
  | cons letter rest =>
      rw [skipped] at stuck
      cases found : punctuation letter with
      | some token =>
          simp only [found] at stuck
          cases stuck
      | none =>
          simp only [found, intOfString] at stuck
          split_ifs at stuck <;> cases stuck

theorem peek_ne_endless (text : List Char) : peek length text ≠ .error .endless := by
  intro stuck
  rw [peek] at stuck
  cases read : nextToken length text with
  | error fault =>
      rw [read] at stuck
      have same : fault = .endless := Except.error.inj stuck
      exact nextToken_ne_endless text (same ▸ read)
  | ok next =>
      rw [read] at stuck
      cases stuck

theorem expect_ne_endless (token : Token) (shown : String) (text : List Char) :
    expect length token shown text ≠ .error .endless := by
  refine bind_ne_endless (nextToken_ne_endless text) fun next _ stuck => ?_
  split_ifs at stuck
  cases stuck

theorem indexed_ne_endless (name : String) (vi : Varinfo) (index : Exp) :
    indexed kernel name vi index ≠ .error .endless := by
  rw [indexed]
  split
  · intro stuck
    cases stuck
  · refine bind_ne_endless (mapError_ne_endless _ id) fun addr _ stuck => ?_
    cases stuck
  · intro stuck
    cases stuck

theorem Derives.filled {level : Level} {lexemes : List Lexeme} {tree : Tree}
    (derives : Derives level lexemes tree) : lexemes ≠ [] := by
  induction derives with
  | number digits | name letters | index letters _ _ | group _ _ | neg _ _ =>
      exact List.cons_ne_nil _ _
  | primary _ ih | unary _ ih | multiplicative _ ih => exact ih
  | multiply _ _ _ ih _ | add _ _ _ ih _ =>
      exact fun empty => ih (List.append_eq_nil_iff.mp empty).1

theorem Sound.shorter {level : Level} {parser : Parser} (sound : Sound kernel lookup level parser)
    {text rest : List Char} {exp : Exp} (parsed : parser text = .ok (exp, rest)) :
    rest.length < text.length := by
  obtain ⟨lexemes, tree, scans, derives, _⟩ := sound text exp rest parsed
  exact scans.length_lt derives.filled

theorem nextToken_shorter {text behind : List Char} {token : Token}
    (read : nextToken length text = .ok (token, behind)) (more : token ≠ .eof) :
    behind.length < text.length := by
  rcases nextToken_eq_ok read with ⟨ended, _, _⟩ | ⟨lexeme, _, scans⟩
  · exact absurd ended more
  · exact scans.length_lt (List.cons_ne_nil _ _)

/-- A parser ends on every text below this length. -/
def Ends (parser : Parser) (bound : Nat) : Prop :=
  ∀ text : List Char, text.length < bound → parser text ≠ .error .endless

/-- Each round of the loop takes at least an operator. -/
theorem joinLoop_ends {level below : Level} {operator : Token → Option BinOp}
    {signOf : Sign → Option Operator} {operand : Parser}
    (joins : Joins level below operator signOf) (sound : Sound kernel lookup below operand)
    {bound : Nat} (ends : Ends operand bound) (fuel : Nat) (left : Exp) (text : List Char)
    (room : text.length < fuel) (fits : text.length < bound) :
    joinLoop kernel length operator operand fuel left text ≠ .error .endless := by
  induction fuel generalizing left text with
  | zero => exact absurd room (Nat.not_lt_zero _)
  | succ fuel ih =>
      refine bind_ne_endless (peek_ne_endless text) fun token seen => ?_
      cases found : operator token with
      | none =>
          intro stuck
          cases stuck
      | some joined =>
          obtain ⟨mark, named, rfl, _, rfl⟩ := joins.sign token joined found
          refine bind_ne_endless (nextToken_ne_endless text) fun next read => ?_
          obtain ⟨behind, again⟩ := peek_eq_ok seen
          obtain rfl : (mark.token, behind) = next := Except.ok.inj (again.symm.trans read)
          have less := nextToken_shorter again (by cases mark <;> exact Token.noConfusion)
          refine bind_ne_endless (ends behind (by omega)) fun right parsed => ?_
          have lesser : right.2.length < behind.length := sound.shorter parsed
          refine bind_ne_endless (mapError_ne_endless _ id) fun whole _ => ?_
          exact ih whole right.2 (by omega) (by omega)

theorem parseLeft_ends {level below : Level} {operator : Token → Option BinOp}
    {signOf : Sign → Option Operator} {operand : Parser}
    (joins : Joins level below operator signOf) (sound : Sound kernel lookup below operand)
    {bound : Nat} (ends : Ends operand bound) :
    Ends (parseLeft kernel length operator operand) bound := by
  intro text fits
  refine bind_ne_endless (ends text fits) fun left parsed => ?_
  have less : left.2.length < text.length := sound.shorter parsed
  exact joinLoop_ends joins sound ends _ left.1 left.2 (Nat.lt_succ_self _) (less.trans fits)

theorem unaryLoop_ends {primary : Parser} {bound : Nat} (ends : Ends primary bound) (fuel : Nat)
    (text : List Char) (room : text.length < fuel) (fits : text.length < bound) :
    unaryLoop kernel length primary fuel text ≠ .error .endless := by
  induction fuel generalizing text with
  | zero => exact absurd room (Nat.not_lt_zero _)
  | succ fuel ih =>
      refine bind_ne_endless (peek_ne_endless text) fun token seen => ?_
      split_ifs with negated
      · subst negated
        obtain ⟨behind, again⟩ := peek_eq_ok seen
        refine bind_ne_endless (nextToken_ne_endless text) fun next read => ?_
        obtain rfl : (Token.minus, behind) = next := Except.ok.inj (again.symm.trans read)
        have less := nextToken_shorter again Token.noConfusion
        refine bind_ne_endless (ih behind (by omega) (by omega)) fun operand _ stuck => ?_
        cases stuck
      · exact ends text fits

theorem parsePrimary_ends {expr : Parser} {bound : Nat} (ends : Ends expr bound) :
    Ends (parsePrimary kernel lookup length expr) (bound + 1) := by
  intro text fits
  refine bind_ne_endless (nextToken_ne_endless text) fun next read => ?_
  obtain ⟨token, behind⟩ := next
  cases token with
  | int value =>
      intro stuck
      cases stuck
  | ident name =>
      have less := nextToken_shorter read Token.noConfusion
      refine bind_ne_endless (mapError_ne_endless _ Raised.failure) fun vi _ => ?_
      refine bind_ne_endless (peek_ne_endless behind) fun token seen => ?_
      split_ifs with opens
      · subst opens
        obtain ⟨inside, again⟩ := peek_eq_ok seen
        refine bind_ne_endless (nextToken_ne_endless behind) fun bracket opened => ?_
        obtain rfl : (Token.lBracket, inside) = bracket := Except.ok.inj (again.symm.trans opened)
        have lesser : inside.length < behind.length := nextToken_shorter again Token.noConfusion
        refine bind_ne_endless (ends inside (by omega)) fun index _ => ?_
        refine bind_ne_endless (expect_ne_endless _ _ _) fun rest _ => ?_
        refine bind_ne_endless (indexed_ne_endless _ _ _) fun element _ stuck => ?_
        cases stuck
      · intro stuck
        cases stuck
  | lParen =>
      have less := nextToken_shorter read Token.noConfusion
      refine bind_ne_endless (ends behind (by omega)) fun inner _ => ?_
      refine bind_ne_endless (expect_ne_endless _ _ _) fun rest _ stuck => ?_
      cases stuck
  | plus | minus | star | slash | percent | lBracket | rBracket | rParen | eof =>
      intro stuck
      cases stuck

/-- The parser ends on every text that is shorter than its fuel. -/
theorem parseExpr_ends (fuel : Nat) : Ends (parseExpr kernel lookup length fuel) fuel := by
  induction fuel with
  | zero =>
      intro text fits
      exact absurd fits (Nat.not_lt_zero _)
  | succ fuel ih =>
      have unary : Ends (parseUnary kernel lookup length (parseExpr kernel lookup length fuel))
          (fuel + 1) := fun text fits =>
        unaryLoop_ends (parsePrimary_ends ih) _ text (Nat.lt_succ_self _) fits
      have sound : Sound kernel lookup .unary
          (parseUnary kernel lookup length (parseExpr kernel lookup length fuel)) :=
        fun text => unaryLoop_sound (parsePrimary_sound (parseExpr_sound fuel)) _ text
      exact parseLeft_ends joins_additive (parseLeft_sound joins_multiplicative sound)
        (parseLeft_ends joins_multiplicative sound unary)

theorem parseWhole_ne_endless (text : List Char) :
    parseWhole kernel lookup text ≠ .error .endless := by
  refine bind_ne_endless (parseExpr_ends _ text (Nat.lt_succ_self _)) fun parsed _ => ?_
  refine bind_ne_endless (peek_ne_endless _) fun token _ stuck => ?_
  split_ifs at stuck
  cases stuck

end Endings

section Decrement

/-- Two minus signs side by side are one lexeme of C. -/
def NoDecrement (text : List Char) : Prop :=
  text.IsChain fun letter next => ¬ (letter = '-' ∧ next = '-')

def Lexeme.isStart : Lexeme → Bool
  | .number _ | .name _ | .sign .lParen | .sign .minus => true
  | .sign _ => false

def Lexeme.isEnd : Lexeme → Bool
  | .number _ | .name _ | .sign .rParen | .sign .rBracket => true
  | .sign _ => false

/-- An operand comes before a sign and everything else comes before an operand. -/
def Follows (lexeme next : Lexeme) : Prop :=
  (lexeme.isEnd = true → ∃ mark, next = .sign mark) ∧
    (lexeme.isEnd = false → next.isStart = true)

/-- The lexemes of an expression follow each other from an operand to an operand. -/
structure Shape (lexemes : List Lexeme) : Prop where
  filled : lexemes ≠ []
  starts : ∀ lexeme ∈ lexemes.head?, lexeme.isStart = true
  stops : ∀ lexeme ∈ lexemes.getLast?, lexeme.isEnd = true
  chain : lexemes.IsChain Follows

theorem Shape.join {first second : List Lexeme} {mark : Sign} (former : Shape first)
    (latter : Shape second) (operator : (Lexeme.sign mark).isEnd = false) :
    Shape (first ++ .sign mark :: second) where
  filled empty := former.filled (List.append_eq_nil_iff.mp empty).1
  starts lexeme member := by
    rw [List.head?_append_of_ne_nil _ former.filled] at member
    exact former.starts lexeme member
  stops lexeme member := by
    rw [List.getLast?_append_of_ne_nil _ (List.cons_ne_nil _ _),
      List.getLast?_cons_of_ne_nil latter.filled] at member
    exact latter.stops lexeme member
  chain := by
    refine former.chain.append (latter.chain.cons fun next member => ?_)
      fun last member next first => ?_
    · exact ⟨fun ended => absurd ended (by simp [operator]), fun _ => latter.starts next member⟩
    · obtain rfl : Lexeme.sign mark = next := Option.some.inj first
      exact ⟨fun _ => ⟨mark, rfl⟩, fun open_ => absurd (former.stops last member) (by simp [open_])⟩

/-- A bracket before an operand and one behind it make an operand. -/
theorem Shape.enclose {inner : List Lexeme} (shape : Shape inner) {opening closing : Sign}
    (opens : (Lexeme.sign opening).isEnd = false) (closes : (Lexeme.sign closing).isEnd = true) :
    (Lexeme.sign opening :: (inner ++ [.sign closing])).IsChain Follows ∧
      ∀ lexeme ∈ (Lexeme.sign opening :: (inner ++ [.sign closing])).getLast?,
        lexeme.isEnd = true := by
  constructor
  · refine List.IsChain.cons (shape.chain.append (.singleton _) fun last member next first => ?_)
      fun next first => ?_
    · obtain rfl : Lexeme.sign closing = next := Option.some.inj first
      exact ⟨fun _ => ⟨closing, rfl⟩,
        fun open_ => absurd (shape.stops last member) (by simp [open_])⟩
    · rw [List.head?_append_of_ne_nil _ shape.filled] at first
      exact ⟨fun ended => absurd ended (by simp [opens]), fun _ => shape.starts next first⟩
  · intro lexeme member
    rw [← List.cons_append, List.getLast?_append_of_ne_nil _ (List.cons_ne_nil _ _)] at member
    obtain rfl : Lexeme.sign closing = lexeme := Option.some.inj member
    exact closes

theorem isEnd_of_multiplicative {mark : Sign} {operator : Operator}
    (found : multiplicativeSign mark = some operator) : (Lexeme.sign mark).isEnd = false := by
  cases mark <;> first | rfl | cases found

theorem isEnd_of_additive {mark : Sign} {operator : Operator}
    (found : additiveSign mark = some operator) : (Lexeme.sign mark).isEnd = false := by
  cases mark <;> first | rfl | cases found

theorem shape_singleton {lexeme : Lexeme} (starts : lexeme.isStart = true)
    (stops : lexeme.isEnd = true) : Shape [lexeme] where
  filled := List.cons_ne_nil _ _
  starts _ member := Option.some.inj member ▸ starts
  stops _ member := Option.some.inj member ▸ stops
  chain := .singleton _

variable {lexemes : List Lexeme}

/-- The lexemes of a tree start and end as operands do. -/
theorem Derives.shape {level : Level} {tree : Tree} (derives : Derives level lexemes tree) :
    Shape lexemes := by
  induction derives with
  | number digits => exact shape_singleton rfl rfl
  | name letters => exact shape_singleton rfl rfl
  | index letters _ ih =>
      obtain ⟨chain, stops⟩ := @Shape.enclose _ ih .lBracket .rBracket rfl rfl
      exact {
        filled := List.cons_ne_nil _ _
        starts := fun lexeme first => Option.some.inj first ▸ rfl
        stops := fun lexeme last => stops lexeme (by rwa [List.getLast?_cons_cons] at last)
        chain := chain.cons fun next first => Option.some.inj first ▸
          ⟨fun _ => ⟨.lBracket, rfl⟩, fun open_ => by cases open_⟩ }
  | group _ ih =>
      obtain ⟨chain, stops⟩ := @Shape.enclose _ ih .lParen .rParen rfl rfl
      exact {
        filled := List.cons_ne_nil _ _
        starts := fun lexeme first => Option.some.inj first ▸ rfl
        stops := stops
        chain := chain }
  | primary _ ih | unary _ ih | multiplicative _ ih => exact ih
  | neg _ ih =>
      exact {
        filled := List.cons_ne_nil _ _
        starts := fun lexeme first => Option.some.inj first ▸ rfl
        stops := fun lexeme last => ih.stops lexeme
          (by rwa [List.getLast?_cons_of_ne_nil ih.filled] at last)
        chain := ih.chain.cons fun next first =>
          ⟨fun ended => (by cases ended), fun _ => ih.starts next first⟩ }
  | multiply found _ _ former latter => exact former.join latter (isEnd_of_multiplicative found)
  | add found _ _ former latter => exact former.join latter (isEnd_of_additive found)

theorem joins_space (lexeme : Lexeme) {letter : Char} (space : isSpace letter = true) :
    lexeme.joins letter = false := by
  simp only [isSpace, Bool.or_eq_true, beq_iff_eq] at space
  rcases space with ((rfl | rfl) | rfl) | rfl <;>
    rcases lexeme with _ | _ | mark <;> first | rfl | (cases mark <;> rfl)

theorem joins_of_extends {lexeme : Lexeme} {letter : Char} (more : lexeme.extends letter = true) :
    lexeme.joins letter = true := by
  cases lexeme with
  | number digits => exact Bool.or_eq_true_iff.mpr (.inl (isAlnum_of_isDigit more))
  | name letters => exact more
  | sign mark => cases more

theorem Scans.extends {text rest : List Char} (scans : Scans Lexeme.joins text lexemes rest) :
    Scans Lexeme.extends text lexemes rest := by
  induction scans with
  | done text => exact .done text
  | next blank wellFormed ends _ ih =>
      refine .next blank wellFormed (fun letter first => ?_) ih
      by_contra more
      have joined := joins_of_extends (eq_true_of_ne_false more)
      rw [ends letter first] at joined
      cases joined

theorem joins_sign (mark : Sign) (lexeme : Lexeme) (ended : lexeme.isEnd = true) :
    lexeme.joins mark.letter = false := by
  cases lexeme with
  | number digits | name letters => cases mark <;> rfl
  | sign other => cases other <;> first | rfl | cases ended

theorem joins_alnum {lexeme : Lexeme} (before : lexeme.isEnd = false) {letter : Char}
    (word : Ghost.isAlnum letter = true) : lexeme.joins letter = false := by
  by_contra joined
  rw [Bool.not_eq_false] at joined
  cases lexeme with
  | number digits | name letters => cases before
  | sign mark =>
      have other : letter ∈ ['+', '=', '-', '>', '/', '*', ':'] := by
        cases mark <;> simp [Lexeme.joins] at joined ⊢ <;> tauto
      simp only [List.mem_cons, List.not_mem_nil, or_false] at other
      rcases other with rfl | rfl | rfl | rfl | rfl | rfl | rfl <;> exact absurd word (by decide)

/-- Only two minus signs could be read as one sign. -/
theorem joins_head {lexeme next : Lexeme} (follows : Follows lexeme next)
    (wellFormed : next.WellFormed) {letter : Char} (behind : List Char)
    (first : letter ∈ (next.text ++ behind).head?) (joined : lexeme.joins letter = true) :
    lexeme = .sign .minus ∧ letter = '-' := by
  cases ended : lexeme.isEnd with
  | true =>
      obtain ⟨mark, rfl⟩ := follows.1 ended
      obtain rfl : mark.letter = letter := Option.some.inj first
      rw [joins_sign mark lexeme ended] at joined
      cases joined
  | false =>
      have starts := follows.2 ended
      cases next with
      | number digits =>
          obtain ⟨filled, all⟩ := wellFormed
          cases digits with
          | nil => exact absurd rfl filled
          | cons digit digits =>
              obtain rfl : digit = letter := Option.some.inj first
              rw [joins_alnum ended (isAlnum_of_isDigit (all digit List.mem_cons_self))] at joined
              cases joined
      | name letters =>
          obtain ⟨⟨head, rest, rfl, alpha⟩, _⟩ := wellFormed
          obtain rfl : head = letter := Option.some.inj first
          rw [joins_alnum ended (isAlnum_of_isAlpha alpha)] at joined
          cases joined
      | sign mark =>
          obtain rfl : mark.letter = letter := Option.some.inj first
          cases lexeme with
          | number digits | name letters => cases ended
          | sign other =>
              cases mark <;> cases starts <;> cases other <;>
                first | exact ⟨rfl, rfl⟩ | cases joined

/-- Without a decrement C ends the lexemes of an expression where the parser does. -/
theorem scans_joins {text tail : List Char} (scans : Scans Lexeme.extends text lexemes tail)
    (blank : ∀ letter ∈ tail, isSpace letter = true) (chain : lexemes.IsChain Follows)
    (apart : NoDecrement text) : Scans Lexeme.joins text lexemes tail := by
  induction scans with
  | done text => exact .done text
  | @next lead behind _ lexeme lexemes spaces wellFormed ends scans ih =>
      have later : NoDecrement behind := apart.right_of_append.right_of_append
      refine .next spaces wellFormed (fun letter first => ?_) (ih blank chain.tail later)
      by_contra joined
      rw [Bool.not_eq_false] at joined
      have black : isSpace letter ≠ true := fun space => by
        rw [joins_space lexeme space] at joined
        cases joined
      cases scans with
      | done => exact black (blank letter (List.mem_of_mem_head? first))
      | @next between others _ next _ spaces' wellFormed' _ _ =>
          cases between with
          | cons space between =>
              exact black (Option.some.inj first ▸ spaces' space List.mem_cons_self)
          | nil =>
              have follows := List.isChain_cons_cons.mp chain
              obtain ⟨rfl, rfl⟩ := joins_head follows.1 wellFormed' others first joined
              have pair := (List.isChain_append.mp apart.right_of_append).2.2 '-' rfl '-' first
              exact pair ⟨rfl, rfl⟩

theorem noDecrement_of_notMem {text : List Char} (other : '-' ∉ text) : NoDecrement text := by
  induction text with
  | nil => exact .nil
  | cons letter rest ih =>
      have apart : letter ≠ '-' := fun same => other (same ▸ List.mem_cons_self)
      exact (ih fun member => other (List.mem_cons_of_mem _ member)).cons
        fun _ _ pair => apart pair.1

theorem Lexeme.eq_minus_of_mem {lexeme : Lexeme} (wellFormed : lexeme.WellFormed)
    (member : '-' ∈ lexeme.text) : lexeme = .sign .minus := by
  cases lexeme with
  | number digits => exact absurd (wellFormed.2 '-' member) (by decide)
  | name letters => exact absurd (wellFormed.2 '-' member) (by decide)
  | sign mark => cases mark <;> first | rfl | exact absurd member (by decide)

/-- C reads a decrement in no text that it takes apart into the lexemes of the grammar. -/
theorem noDecrement_of_scans {text tail : List Char} (scans : Scans Lexeme.joins text lexemes tail)
    (blank : ∀ letter ∈ tail, isSpace letter = true) : NoDecrement text := by
  have space_ne : ∀ letters : List Char, (∀ letter ∈ letters, isSpace letter = true) →
      '-' ∉ letters := fun letters all member => absurd (all '-' member) (by decide)
  induction scans with
  | done text => exact noDecrement_of_notMem (space_ne text blank)
  | @next lead behind _ lexeme _ spaces wellFormed ends _ ih =>
      have own : NoDecrement lexeme.text := by
        by_cases member : '-' ∈ lexeme.text
        · rw [Lexeme.eq_minus_of_mem wellFormed member]
          exact .singleton _
        · exact noDecrement_of_notMem member
      refine (noDecrement_of_notMem (space_ne lead spaces)).append (own.append (ih blank) ?_) ?_
      · rintro letter last next first ⟨rfl, rfl⟩
        obtain rfl := Lexeme.eq_minus_of_mem wellFormed (List.mem_of_mem_getLast? last)
        cases ends '-' first
      · rintro letter last next _ ⟨rfl, _⟩
        exact space_ne lead spaces (List.mem_of_mem_getLast? last)

/-- C finds this tree in a text exactly if the parser does and no two minus signs meet. -/
theorem writes_joins_iff {text : List Char} {tree : Tree} :
    Writes Lexeme.joins text tree ↔ NoDecrement text ∧ Writes Lexeme.extends text tree := by
  constructor
  · rintro ⟨lexemes, tail, scans, blank, derives⟩
    exact ⟨noDecrement_of_scans scans blank, lexemes, tail, scans.extends, blank, derives⟩
  · rintro ⟨apart, lexemes, tail, scans, blank, derives⟩
    exact ⟨lexemes, tail, scans_joins scans blank derives.shape.chain apart, blank, derives⟩

end Decrement

section Uniqueness

variable {lexeme : Lexeme} {lexemes : List Lexeme}

theorem Lexeme.head_alnum (wellFormed : lexeme.WellFormed) (other : ∀ mark, lexeme ≠ .sign mark) :
    ∃ letter rest, lexeme.text = letter :: rest ∧ Ghost.isAlnum letter = true := by
  cases lexeme with
  | number digits =>
      obtain ⟨filled, all⟩ := wellFormed
      cases digits with
      | nil => exact absurd rfl filled
      | cons digit digits =>
          exact ⟨digit, digits, rfl, isAlnum_of_isDigit (all digit List.mem_cons_self)⟩
  | name letters =>
      obtain ⟨⟨first, rest, rfl, alpha⟩, _⟩ := wellFormed
      exact ⟨first, rest, rfl, isAlnum_of_isAlpha alpha⟩
  | sign mark => exact absurd rfl (other mark)

theorem sign_eq_of_letter {mark other : Sign} (same : mark.letter = other.letter) :
    mark = other := by
  have tokens := punctuation_letter mark
  rw [same, punctuation_letter] at tokens
  cases mark <;> cases other <;> first | rfl | cases tokens

theorem number_ne_name {digits letters first second : List Char}
    (number : (Lexeme.number digits).WellFormed) (name : (Lexeme.name letters).WellFormed) :
    digits ++ first ≠ letters ++ second := by
  obtain ⟨filled, all⟩ := number
  obtain ⟨⟨head, rest, rfl, alpha⟩, _⟩ := name
  intro same
  cases digits with
  | nil => exact filled rfl
  | cons digit digits =>
      obtain rfl : digit = head := (List.cons.inj same).1
      have other := isDigit_of_isAlpha alpha
      rw [all digit List.mem_cons_self] at other
      cases other

theorem word_ne_sign (wellFormed : lexeme.WellFormed) (other : ∀ mark, lexeme ≠ .sign mark)
    (mark : Sign) (first second : List Char) : lexeme.text ++ first ≠ mark.letter :: second := by
  obtain ⟨letter, rest, spelled, word⟩ := Lexeme.head_alnum wellFormed other
  intro same
  rw [spelled] at same
  obtain rfl : letter = mark.letter := (List.cons.inj same).1
  rw [sign_isAlnum] at word
  cases word

/-- A text starts with one lexeme only. -/
theorem Lexeme.eq_of_text {lexeme other : Lexeme} {behind rest : List Char}
    (wellFormed : lexeme.WellFormed) (wellFormed' : other.WellFormed)
    (ends : ∀ letter ∈ behind.head?, lexeme.extends letter = false)
    (ends' : ∀ letter ∈ rest.head?, other.extends letter = false)
    (same : lexeme.text ++ behind = other.text ++ rest) : lexeme = other ∧ behind = rest := by
  have cancel : lexeme = other → lexeme = other ∧ behind = rest := fun equal =>
    ⟨equal, List.append_cancel_left (equal ▸ same)⟩
  cases lexeme with
  | number digits =>
      cases other with
      | number digits' =>
          apply cancel
          have read := congrArg (List.takeWhile isDigit) same
          rw [Lexeme.text, Lexeme.text, takeWhile_append_of_all wellFormed.2 ends,
            takeWhile_append_of_all wellFormed'.2 ends'] at read
          rw [read]
      | name letters => exact absurd same (number_ne_name wellFormed wellFormed')
      | sign mark =>
          exact absurd same (word_ne_sign wellFormed (fun _ => Lexeme.noConfusion) mark _ _)
  | name letters =>
      cases other with
      | number digits => exact absurd same.symm (number_ne_name wellFormed' wellFormed)
      | name letters' =>
          apply cancel
          have read := congrArg (List.takeWhile Ghost.isAlnum) same
          rw [Lexeme.text, Lexeme.text, takeWhile_append_of_all wellFormed.2 ends,
            takeWhile_append_of_all wellFormed'.2 ends'] at read
          rw [read]
      | sign mark =>
          exact absurd same (word_ne_sign wellFormed (fun _ => Lexeme.noConfusion) mark _ _)
  | sign mark =>
      cases other with
      | number digits | name letters =>
          exact absurd same.symm (word_ne_sign wellFormed' (fun _ => Lexeme.noConfusion) mark _ _)
      | sign mark' =>
          apply cancel
          rw [sign_eq_of_letter (List.cons.inj same).1]

theorem Scans.wellFormed {goesOn : Lexeme → Char → Bool} {text rest : List Char}
    (scans : Scans goesOn text lexemes rest) : ∀ lexeme ∈ lexemes, lexeme.WellFormed := by
  induction scans with
  | done => exact fun _ member => absurd member List.not_mem_nil
  | next _ wellFormed _ _ ih =>
      intro lexeme member
      rcases List.mem_cons.mp member with rfl | later
      · exact wellFormed
      · exact ih lexeme later

theorem Scans.skipWs_eq {text rest : List Char}
    (scans : Scans Lexeme.extends text (lexeme :: lexemes) rest) :
    ∃ behind, skipWs text = lexeme.text ++ behind ∧ lexeme.WellFormed ∧
      (∀ letter ∈ behind.head?, lexeme.extends letter = false) ∧
      Scans Lexeme.extends behind lexemes rest := by
  cases scans with
  | next blank wellFormed ends scans =>
      exact ⟨_, skipWs_lead blank wellFormed _, wellFormed, ends, scans⟩

theorem Scans.not_blank {text rest : List Char}
    (scans : Scans Lexeme.extends text (lexeme :: lexemes) rest)
    (blank : ∀ letter ∈ text, isSpace letter = true) : False := by
  obtain ⟨behind, skipped, wellFormed, _⟩ := scans.skipWs_eq
  rw [skipWs_blank blank] at skipped
  have filled := Lexeme.text_length_pos wellFormed
  rw [(List.append_eq_nil_iff.mp skipped.symm).1] at filled
  exact absurd filled (Nat.lt_irrefl 0)

/-- A text falls into lexemes in one way only. -/
theorem Scans.unique {text tail tail' : List Char} {lexemes lexemes' : List Lexeme}
    (scans : Scans Lexeme.extends text lexemes tail)
    (blank : ∀ letter ∈ tail, isSpace letter = true)
    (scans' : Scans Lexeme.extends text lexemes' tail')
    (blank' : ∀ letter ∈ tail', isSpace letter = true) : lexemes = lexemes' := by
  induction lexemes generalizing text lexemes' with
  | nil =>
      cases scans
      cases lexemes' with
      | nil => rfl
      | cons lexeme others => exact (scans'.not_blank blank).elim
  | cons lexeme lexemes ih =>
      cases lexemes' with
      | nil =>
          cases scans'
          exact (scans.not_blank blank').elim
      | cons other others =>
          obtain ⟨behind, skipped, wellFormed, ends, scans⟩ := scans.skipWs_eq
          obtain ⟨rest, skipped', wellFormed', ends', scans'⟩ := scans'.skipWs_eq
          obtain ⟨rfl, rfl⟩ := Lexeme.eq_of_text wellFormed wellFormed' ends ends'
            (skipped.symm.trans skipped')
          rw [ih scans scans']

/-- The first letter keeps the numbers and the names apart. -/
def Lexeme.rename : Lexeme → Lexeme
  | .number digits => .name ('n' :: digits)
  | .name letters => .name ('v' :: letters)
  | .sign mark => .sign mark

def Tree.rename : Tree → Tree
  | .number digits => .name (String.ofList ('n' :: digits))
  | .name word => .name (String.ofList ('v' :: word.toList))
  | .index word position => .index (String.ofList ('v' :: word.toList)) position.rename
  | .neg operand => .neg operand.rename
  | .binary operator left right => .binary operator left.rename right.rename

/-- A tree keeps its derivation when its words get other letters. -/
theorem Derives.rename {level : Level} {tree : Tree} (derives : Derives level lexemes tree) :
    Derives level (lexemes.map Lexeme.rename) tree.rename := by
  induction derives with
  | number digits => exact .name _
  | name letters =>
      rw [Tree.rename, String.toList_ofList]
      exact .name _
  | index letters _ ih =>
      rw [Tree.rename, String.toList_ofList, List.map_cons, List.map_cons, List.map_append]
      exact .index _ ih
  | group _ ih =>
      rw [List.map_cons, List.map_append]
      exact .group ih
  | primary _ ih => exact .primary ih
  | neg _ ih => exact .neg ih
  | unary _ ih => exact .unary ih
  | multiply found _ _ former latter =>
      rw [List.map_append, List.map_cons]
      exact .multiply found former latter
  | multiplicative _ ih => exact .multiplicative ih
  | add found _ _ former latter =>
      rw [List.map_append, List.map_cons]
      exact .add found former latter

theorem Lexeme.rename_wellFormed (wellFormed : lexeme.WellFormed) : lexeme.rename.WellFormed := by
  cases lexeme with
  | number digits =>
      refine ⟨⟨'n', digits, rfl, by decide⟩, fun letter member => ?_⟩
      rcases List.mem_cons.mp member with rfl | later
      · decide
      · exact isAlnum_of_isDigit (wellFormed.2 letter later)
  | name letters =>
      refine ⟨⟨'v', letters, rfl, by decide⟩, fun letter member => ?_⟩
      rcases List.mem_cons.mp member with rfl | later
      · decide
      · exact wellFormed.2 letter later
  | sign mark => exact trivial

/-- The lexemes are set apart by spaces. -/
def spaced (lexemes : List Lexeme) : List Char := lexemes.flatMap fun lexeme => ' ' :: lexeme.text

theorem scans_spaced (lexemes : List Lexeme)
    (wellFormed : ∀ lexeme ∈ lexemes, lexeme.WellFormed) :
    Scans Lexeme.extends (spaced lexemes) lexemes [] := by
  induction lexemes with
  | nil => exact .done []
  | cons lexeme lexemes ih =>
      have later := ih fun other member => wellFormed other (List.mem_cons_of_mem _ member)
      have first : Scans Lexeme.extends ([' '] ++ (lexeme.text ++ spaced lexemes))
          (lexeme :: lexemes) [] := by
        refine .next (List.forall_mem_singleton.mpr rfl) (wellFormed lexeme List.mem_cons_self)
          (fun letter head => ?_) later
        cases lexemes with
        | nil => cases head
        | cons other others =>
            obtain rfl : ' ' = letter := Option.some.inj head
            cases lexeme <;> rfl
      simpa [spaced] using first

/-- The nodes of an expression show the tree that it is built for. -/
def shadowKernel : Kernel where
  vtype _ := .array (.int .int) none
  integer value := .const value .int
  mkBinop operator left right := .ok (.binOp operator left right (.int .int))

def shadowVar (name : String) : Varinfo := { vid := 0, vname := name }

def shadow : Tree → Exp
  | .number digits => .lval (.var (shadowVar (String.ofList ('n' :: digits)))) .noOffset
  | .name name => .lval (.var (shadowVar (String.ofList ('v' :: name.toList)))) .noOffset
  | .index name position =>
      .lval (.var (shadowVar (String.ofList ('v' :: name.toList))))
        (.index (shadow position) .noOffset)
  | .neg operand => .neg (shadow operand) (typeOf shadowKernel.vtype (shadow operand))
  | .binary operator left right =>
      .binOp (binOpOf operator) (shadow left) (shadow right) (.int .int)

/-- The shadow of a tree is what it builds to after the renaming. -/
theorem build_rename (tree : Tree) :
    build shadowKernel (fun name => .ok (shadowVar name)) tree.rename = .ok (shadow tree) := by
  induction tree with
  | number digits | name name => rfl
  | index name position ih =>
      rw [Tree.rename, build, ih]
      rfl
  | neg operand ih =>
      rw [Tree.rename, build, ih]
      rfl
  | binary operator left right ihLeft ihRight =>
      rw [Tree.rename, build, ihLeft, ihRight]
      rfl

theorem binOpOf_injective {operator other : Operator} (same : binOpOf operator = binOpOf other) :
    operator = other := by
  cases operator <;> cases other <;> first | rfl | cases same

theorem shadowVar_injective {first second : List Char}
    (same : shadowVar (String.ofList first) = shadowVar (String.ofList second)) :
    first = second :=
  String.ofList_injective (congrArg Varinfo.vname same)

/-- No two trees have one shadow. -/
theorem shadow_injective {tree other : Tree} (same : shadow tree = shadow other) :
    tree = other := by
  induction tree generalizing other with
  | number digits =>
      cases other with
      | number digits' =>
          have names := shadowVar_injective (Lhost.var.inj (Exp.lval.inj same).1)
          rw [(List.cons.inj names).2]
      | name name =>
          have names := shadowVar_injective (Lhost.var.inj (Exp.lval.inj same).1)
          exact absurd (List.cons.inj names).1 (by decide)
      | index _ _ => cases (Exp.lval.inj same).2
      | neg _ | binary _ _ _ => cases same
  | name name =>
      cases other with
      | name name' =>
          have names := shadowVar_injective (Lhost.var.inj (Exp.lval.inj same).1)
          rw [String.toList_injective (List.cons.inj names).2]
      | number digits =>
          have names := shadowVar_injective (Lhost.var.inj (Exp.lval.inj same).1)
          exact absurd (List.cons.inj names).1 (by decide)
      | index _ _ => cases (Exp.lval.inj same).2
      | neg _ | binary _ _ _ => cases same
  | index name position ih =>
      cases other with
      | index name' position' =>
          obtain ⟨host, offset⟩ := Exp.lval.inj same
          have names := shadowVar_injective (Lhost.var.inj host)
          rw [String.toList_injective (List.cons.inj names).2, ih (Offset.index.inj offset).1]
      | number _ | name _ => cases (Exp.lval.inj same).2
      | neg _ | binary _ _ _ => cases same
  | neg operand ih =>
      cases other with
      | neg operand' => rw [ih (Exp.neg.inj same).1]
      | number _ | name _ | index _ _ | binary _ _ _ => cases same
  | binary operator left right ihLeft ihRight =>
      cases other with
      | binary operator' left' right' =>
          obtain ⟨named, first, second, _⟩ := Exp.binOp.inj same
          rw [binOpOf_injective named, ihLeft first, ihRight second]
      | number _ | name _ | index _ _ | neg _ => cases same

/-- A text writes one tree, since the parser builds the shadow of each that it writes. -/
theorem writes_unique {text : List Char} {tree other : Tree}
    (writes : Writes Lexeme.extends text tree) (writes' : Writes Lexeme.extends text other) :
    tree = other := by
  obtain ⟨lexemes, tail, scans, blank, derives⟩ := writes
  obtain ⟨lexemes', tail', scans', blank', derives'⟩ := writes'
  obtain rfl := scans.unique blank scans' blank'
  have renamed : ∀ lexeme ∈ lexemes.map Lexeme.rename, lexeme.WellFormed := by
    intro lexeme member
    obtain ⟨former, among, rfl⟩ := List.mem_map.mp member
    exact Lexeme.rename_wellFormed (scans.wellFormed former among)
  have parsed : ∀ tree : Tree, Derives .additive lexemes tree →
      parseWhole shadowKernel (fun name => .ok (shadowVar name))
        (spaced (lexemes.map Lexeme.rename)) = .ok (shadow tree) := by
    intro tree derives
    rw [parseWhole_of_writes ⟨_, [], scans_spaced _ renamed, List.forall_mem_nil _, derives.rename⟩,
      build_rename]
  have shadows := (parsed tree derives).symm.trans (parsed other derives')
  exact shadow_injective (Except.ok.inj shadows)

end Uniqueness

end FramaCMcp.GhostExpr
