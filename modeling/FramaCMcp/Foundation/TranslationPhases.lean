/-
This file gives the first translation phases of C and finds the directives behind them.
-/

import Mathlib.Data.List.Infix

namespace TranslationPhases

abbrev Bytes := List UInt8

/-- The end of a line is a line feed or a carriage return with a line feed. -/
def endLines : Bytes → Bytes
  | [] => []
  | [byte] => [byte]
  | byte :: next :: rest =>
      if byte = 13 ∧ next = 10 then endLines (next :: rest) else byte :: endLines (next :: rest)

/-- These bytes stand for others behind two question marks. -/
def trigraphTable : List (UInt8 × UInt8) :=
  [(61, 35), (40, 91), (47, 92), (41, 93), (39, 94), (60, 123), (33, 124), (62, 125), (45, 126)]

def trigraph (byte : UInt8) : Option UInt8 := trigraphTable.lookup byte

def replaceTrigraphs : Bytes → Bytes
  | first :: second :: third :: rest =>
      match (trigraph third).filter fun _ => first == 63 && second == 63 with
      | some byte => byte :: replaceTrigraphs rest
      | none => first :: replaceTrigraphs (second :: third :: rest)
  | short => short

/-- Each byte says whether a spliced line ends right before it. -/
def spliceLines (joined : Bool) : Bytes → List (UInt8 × Bool)
  | [] => []
  | [byte] => [(byte, joined)]
  | byte :: next :: rest =>
      if byte = 92 ∧ next = 10 then spliceLines true rest
      else (byte, joined) :: spliceLines false (next :: rest)

/-- These are the first two phases. -/
def phases (bytes : Bytes) : List (UInt8 × Bool) :=
  spliceLines false (replaceTrigraphs (endLines bytes))

/-- A directive opens with the number sign or with its digraph, and a spliced line can stand inside
the digraph. -/
inductive Opener where
  | sign
  | digraph (split : Bool)
  deriving DecidableEq, Repr

/-- A place says what stands before on the line. A comment counts as a blank. -/
inductive Place where
  | lineStart
  | startSlash
  | startPercent
  | code
  | codeSlash
  | lineComment
  | comment (atStart : Bool)
  | commentStar (atStart : Bool)
  | quoted (quote : UInt8)
  | escaped (quote : UInt8)
  deriving DecidableEq, Repr

def isBlank (byte : UInt8) : Bool := [9, 11, 12, 13, 32].contains byte

def codePlace (byte : UInt8) : Place :=
  if byte = 10 then .lineStart
  else if byte = 47 then .codeSlash
  else if byte = 34 ∨ byte = 39 then .quoted byte
  else .code

/-- A directive opens only where nothing but blanks and comments stand before on the line. -/
def place (joined : Bool) (byte : UInt8) : Place → Place × Option Opener
  | .lineStart =>
      if isBlank byte then (.lineStart, none)
      else if byte = 35 then (.code, some .sign)
      else if byte = 37 then (.startPercent, none)
      else if byte = 47 then (.startSlash, none)
      else (codePlace byte, none)
  | .startSlash =>
      if byte = 42 then (.comment true, none)
      else if byte = 47 then (.lineComment, none)
      else (codePlace byte, none)
  | .startPercent =>
      if byte = 58 then (.code, some (.digraph joined)) else (codePlace byte, none)
  | .code => (codePlace byte, none)
  | .codeSlash =>
      if byte = 42 then (.comment false, none)
      else if byte = 47 then (.lineComment, none)
      else (codePlace byte, none)
  | .lineComment => (if byte = 10 then .lineStart else .lineComment, none)
  | .comment atStart => (if byte = 42 then .commentStar atStart else .comment atStart, none)
  | .commentStar atStart =>
      if byte = 47 then (if atStart then .lineStart else .code, none)
      else (if byte = 42 then .commentStar atStart else .comment atStart, none)
  | .quoted quote =>
      if byte = 10 then (.lineStart, none)
      else if byte = 92 then (.escaped quote, none)
      else (if byte = quote then .code else .quoted quote, none)
  | .escaped quote => (if byte = 10 then .lineStart else .quoted quote, none)

/-- These are the openers of the directives. -/
def openers : Place → List (UInt8 × Bool) → List Opener
  | _, [] => []
  | before, (byte, joined) :: rest =>
      (place joined byte before).2.toList ++ openers (place joined byte before).1 rest

/-- These directives stand in the source behind the first two phases. -/
def directives (bytes : Bytes) : List Opener := openers .lineStart (phases bytes)

/-- The spellings of the number sign stand unbroken in the source. -/
def Spelled (bytes : Bytes) : Prop :=
  [35] <:+: bytes ∨ [37, 58] <:+: bytes ∨ [63, 63, 61] <:+: bytes

section Phases

variable {pattern bytes : Bytes}

/-- A pattern without a line feed stands where it stood before. -/
theorem prefix_of_endLines (plain : 10 ∉ pattern) (found : pattern <+: endLines bytes) :
    pattern <+: bytes := by
  induction bytes using endLines.induct generalizing pattern with
  | case1 => exact found
  | case2 => exact found
  | case3 byte next rest returned ih =>
      rw [endLines, if_pos returned, returned.2] at found
      cases pattern with
      | nil => exact List.nil_prefix
      | cons head tail =>
          obtain ⟨more, same⟩ : ∃ more, endLines (10 :: rest) = 10 :: more := by
            cases rest <;> simp [endLines]
          rw [same] at found
          exact absurd ((List.cons_prefix_cons.mp found).1 ▸ List.mem_cons_self) plain
  | case4 byte next rest kept ih =>
      rw [endLines, if_neg kept] at found
      cases pattern with
      | nil => exact List.nil_prefix
      | cons head tail =>
          obtain ⟨rfl, later⟩ := List.cons_prefix_cons.mp found
          exact List.cons_prefix_cons.mpr
            ⟨rfl, ih (fun member => plain (List.mem_cons_of_mem _ member)) later⟩

theorem infix_of_endLines (plain : 10 ∉ pattern) (found : pattern <:+: endLines bytes) :
    pattern <:+: bytes := by
  induction bytes using endLines.induct with
  | case1 => exact found
  | case2 => exact found
  | case3 byte next rest returned ih =>
      rw [endLines, if_pos returned] at found
      exact List.infix_cons_iff.mpr (Or.inr (ih found))
  | case4 byte next rest kept ih =>
      have whole := found
      rw [endLines, if_neg kept] at found
      rcases List.infix_cons_iff.mp found with here | later
      · refine (prefix_of_endLines plain ?_).isInfix
        rwa [endLines, if_neg kept]
      · exact List.infix_cons_iff.mpr (Or.inr (ih later))

/-- A trigraph gives none of the letters of the digraph, and the number sign only from its own one. -/
theorem trigraph_spec {byte result : UInt8} (found : trigraph byte = some result) :
    result ≠ 37 ∧ result ≠ 58 ∧ (result = 35 → byte = 61) := by
  obtain ⟨before, after, listed, -⟩ := List.lookup_eq_some_iff.mp found
  have member : (byte, result) ∈ trigraphTable := by
    rw [listed]
    exact List.mem_append_right _ List.mem_cons_self
  have all : (trigraphTable.all fun entry =>
      entry.2 != 37 && entry.2 != 58 && (entry.2 != 35 || entry.1 == 61)) = true := by decide
  have here := List.all_eq_true.mp all _ member
  simp only [Bool.and_eq_true, bne_iff_ne, Bool.or_eq_true, beq_iff_eq] at here
  exact ⟨here.1.1, here.1.2, fun sign => here.2.resolve_left (not_not_intro sign)⟩

theorem replaceTrigraphs_of_some {first second third result : UInt8} (rest : Bytes)
    (replaced : ((trigraph third).filter fun _ => first == 63 && second == 63) = some result) :
    first = 63 ∧ second = 63 ∧ trigraph third = some result ∧
      replaceTrigraphs (first :: second :: third :: rest) = result :: replaceTrigraphs rest := by
  obtain ⟨three, marks⟩ := Option.filter_eq_some_iff.mp replaced
  rw [Bool.and_eq_true, beq_iff_eq, beq_iff_eq] at marks
  exact ⟨marks.1, marks.2, three, by rw [replaceTrigraphs, replaced]⟩

theorem replaceTrigraphs_of_none {first second third : UInt8} {rest : Bytes}
    (kept : ((trigraph third).filter fun _ => first == 63 && second == 63) = none) :
    replaceTrigraphs (first :: second :: third :: rest) =
      first :: replaceTrigraphs (second :: third :: rest) := by
  rw [replaceTrigraphs, kept]

theorem head_replaceTrigraphs {byte : UInt8} (letter : byte = 37 ∨ byte = 58)
    (found : (replaceTrigraphs bytes).head? = some byte) : bytes.head? = some byte := by
  cases bytes using replaceTrigraphs.fun_cases with
  | case1 first second third rest result replaced =>
      obtain ⟨-, -, three, shown⟩ := replaceTrigraphs_of_some rest replaced
      rw [shown] at found
      obtain rfl := Option.some.inj found
      obtain ⟨percent, colon, -⟩ := trigraph_spec three
      exact letter.elim (absurd · percent) (absurd · colon)
  | case2 first second third rest kept =>
      rw [replaceTrigraphs_of_none kept] at found
      exact found
  | case3 short small =>
      rwa [replaceTrigraphs.eq_2 _ small] at found

/-- The number sign stands in the source or comes from its trigraph. -/
theorem sign_of_replaceTrigraphs (found : 35 ∈ replaceTrigraphs bytes) :
    35 ∈ bytes ∨ [63, 63, 61] <:+: bytes := by
  induction bytes using replaceTrigraphs.induct with
  | case1 first second third rest result replaced ih =>
      obtain ⟨rfl, rfl, three, shown⟩ := replaceTrigraphs_of_some rest replaced
      rw [shown] at found
      rcases List.mem_cons.mp found with sign | later
      · obtain rfl := (trigraph_spec three).2.2 sign.symm
        exact Or.inr ⟨[], rest, rfl⟩
      · refine (ih later).imp (fun member => ?_) fun part => ?_
        · exact List.mem_cons_of_mem _ (List.mem_cons_of_mem _ (List.mem_cons_of_mem _ member))
        · exact part.trans ⟨[63, 63, third], [], by simp⟩
  | case2 first second third rest kept ih =>
      rw [replaceTrigraphs_of_none kept] at found
      rcases List.mem_cons.mp found with rfl | later
      · exact Or.inl List.mem_cons_self
      · exact (ih later).imp (List.mem_cons_of_mem _) fun part =>
          List.infix_cons_iff.mpr (Or.inr part)
  | case3 short small =>
      rw [replaceTrigraphs.eq_2 _ small] at found
      exact Or.inl found

/-- The digraph stands in the source. -/
theorem digraph_of_replaceTrigraphs (found : [37, 58] <:+: replaceTrigraphs bytes) :
    [37, 58] <:+: bytes := by
  induction bytes using replaceTrigraphs.induct with
  | case1 first second third rest result replaced ih =>
      obtain ⟨-, -, three, shown⟩ := replaceTrigraphs_of_some rest replaced
      rw [shown] at found
      rcases List.infix_cons_iff.mp found with here | later
      · exact absurd (List.cons_prefix_cons.mp here).1.symm (trigraph_spec three).1
      · exact (ih later).trans ⟨[first, second, third], [], by simp⟩
  | case2 first second third rest kept ih =>
      rw [replaceTrigraphs_of_none kept] at found
      rcases List.infix_cons_iff.mp found with here | later
      · obtain ⟨rfl, ⟨more, same⟩⟩ := List.cons_prefix_cons.mp here
        have colon := head_replaceTrigraphs (Or.inr rfl)
          (congrArg List.head? same.symm)
        obtain rfl := Option.some.inj colon
        exact ⟨[], third :: rest, rfl⟩
      · exact List.infix_cons_iff.mpr (Or.inr (ih later))
  | case3 short small =>
      rwa [replaceTrigraphs.eq_2 _ small] at found

variable {joined : Bool}

theorem mem_of_spliceLines {byte : UInt8} (found : byte ∈ (spliceLines joined bytes).map Prod.fst) :
    byte ∈ bytes := by
  induction joined, bytes using spliceLines.induct with
  | case1 => exact found
  | case2 => simpa [spliceLines] using found
  | case3 joined byte next rest spliced ih =>
      rw [spliceLines, if_pos spliced] at found
      exact List.mem_cons_of_mem _ (List.mem_cons_of_mem _ (ih found))
  | case4 joined byte next rest kept ih =>
      rw [spliceLines, if_neg kept, List.map_cons] at found
      exact (List.mem_cons.mp found).elim (fun same => same ▸ List.mem_cons_self)
        fun later => List.mem_cons_of_mem _ (ih later)

/-- A byte without a spliced line before it comes first. -/
theorem head_spliceLines {byte : UInt8}
    (found : (spliceLines joined bytes).head? = some (byte, false)) :
    joined = false ∧ bytes.head? = some byte := by
  induction joined, bytes using spliceLines.induct with
  | case1 => cases found
  | case2 joined head =>
      cases found
      exact ⟨rfl, rfl⟩
  | case3 joined head next rest spliced ih =>
      rw [spliceLines, if_pos spliced] at found
      exact absurd (ih found).1 (by decide)
  | case4 joined head next rest kept ih =>
      rw [spliceLines, if_neg kept] at found
      cases found
      exact ⟨rfl, rfl⟩

/-- Two bytes without a spliced line between them stand together in the source. -/
theorem pair_of_spliceLines {first second : UInt8} {before : Bool}
    (found : [(first, before), (second, false)] <:+: spliceLines joined bytes) :
    [first, second] <:+: bytes := by
  induction joined, bytes using spliceLines.induct with
  | case1 => simp [spliceLines] at found
  | case2 joined byte =>
      have short := found.length_le
      simp [spliceLines] at short
  | case3 joined byte next rest spliced ih =>
      rw [spliceLines, if_pos spliced] at found
      exact (ih found).trans ⟨[byte, next], [], by simp⟩
  | case4 joined byte next rest kept ih =>
      rw [spliceLines, if_neg kept] at found
      rcases List.infix_cons_iff.mp found with here | later
      · obtain ⟨same, ⟨more, shown⟩⟩ := List.cons_prefix_cons.mp here
        cases same
        obtain ⟨-, follows⟩ := head_spliceLines (congrArg List.head? shown.symm)
        cases follows
        exact ⟨[], rest, rfl⟩
      · exact List.infix_cons_iff.mpr (Or.inr (ih later))

end Phases

section Directives

variable {before : Place} {joined : Bool} {byte : UInt8} {text : List (UInt8 × Bool)}

/-- A directive opens at the start of a line only. -/
theorem place_cases (joined : Bool) (byte : UInt8) (before : Place) :
    (place joined byte before).2 = none ∨
      (byte = 35 ∧ (place joined byte before).2 = some .sign) ∨
      (before = .startPercent ∧ byte = 58 ∧
        (place joined byte before).2 = some (.digraph joined)) := by
  cases before <;> grind [place]

theorem place_sign (opens : (place joined byte before).2 = some .sign) : byte = 35 := by
  rcases place_cases joined byte before with none | ⟨sign, -⟩ | ⟨-, -, other⟩
  · rw [opens] at none
    cases none
  · exact sign
  · rw [opens] at other
    cases other

theorem place_digraph {split : Bool} (opens : (place joined byte before).2 = some (.digraph split)) :
    before = .startPercent ∧ byte = 58 ∧ split = joined := by
  rcases place_cases joined byte before with none | ⟨-, other⟩ | ⟨start, colon, same⟩
  · rw [opens] at none
    cases none
  · rw [opens] at other
    cases other
  · rw [opens] at same
    cases same
    exact ⟨start, colon, rfl⟩

theorem place_percent (next : (place joined byte before).1 = .startPercent) : byte = 37 := by
  cases before <;> grind [place, codePlace]

/-- A sign opens a directive only where it stands in the text. -/
theorem sign_of_openers (opens : .sign ∈ openers before text) : 35 ∈ text.map Prod.fst := by
  induction text generalizing before with
  | nil => cases opens
  | cons head rest ih =>
      obtain ⟨byte, joined⟩ := head
      rcases List.mem_append.mp opens with here | later
      · obtain rfl := place_sign (Option.mem_toList.mp here)
        exact List.mem_cons_self
      · exact List.mem_cons_of_mem _ (ih later)

/-- A digraph opens a directive only where its two letters follow each other. -/
theorem digraph_of_openers {split : Bool} (opens : .digraph split ∈ openers before text) :
    (before = .startPercent ∧ text.head? = some (58, split)) ∨
      ∃ first, [(37, first), (58, split)] <:+: text := by
  induction text generalizing before with
  | nil => cases opens
  | cons head rest ih =>
      obtain ⟨byte, joined⟩ := head
      rcases List.mem_append.mp opens with here | later
      · obtain ⟨place, rfl, rfl⟩ := place_digraph (Option.mem_toList.mp here)
        exact Or.inl ⟨place, rfl⟩
      · right
        rcases ih later with ⟨next, follows⟩ | ⟨first, part⟩
        · obtain rfl := place_percent next
          obtain ⟨more, rfl⟩ := List.head?_eq_some_iff.mp follows
          exact ⟨joined, [], more, rfl⟩
        · exact ⟨first, List.infix_cons_iff.mpr (Or.inr part)⟩

/-- A directive whose opener is not split shows an unbroken spelling in the source. -/
theorem spelled_of_directives {bytes : Bytes} {opener : Opener} (opens : opener ∈ directives bytes)
    (whole : opener ≠ .digraph true) : Spelled bytes := by
  have sign (found : (35 : UInt8) ∈ replaceTrigraphs (endLines bytes)) : Spelled bytes := by
    rcases sign_of_replaceTrigraphs found with member | part
    · obtain ⟨before, after, split⟩ := List.append_of_mem member
      have alone : [35] <:+: endLines bytes := ⟨before, after, by rw [split, List.append_assoc]; rfl⟩
      exact Or.inl (infix_of_endLines (by decide) alone)
    · exact Or.inr (Or.inr (infix_of_endLines (by decide) part))
  cases opener with
  | sign => exact sign (mem_of_spliceLines (sign_of_openers opens))
  | digraph split =>
      cases split with
      | true => exact absurd rfl whole
      | false =>
          rcases digraph_of_openers opens with ⟨start, -⟩ | ⟨first, part⟩
          · cases start
          · exact Or.inr (Or.inl (infix_of_endLines (by decide)
              (digraph_of_replaceTrigraphs (pair_of_spliceLines part))))

end Directives

end TranslationPhases
