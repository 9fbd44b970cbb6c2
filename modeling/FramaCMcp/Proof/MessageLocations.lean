/-
This file says which locations stand on the lines of a log and of a batch run.
-/

import FramaCMcp.Construction.ParseDiagnostics

namespace FramaCMcp.BatchMessages

open ParseDiagnostics

section Trimming

variable {text : Line}

theorem trimSource_append {lead : Line} (white : ∀ letter ∈ lead, Text.isWhitespace letter = true)
    (rest : Line) : trimSource (lead ++ rest) = trimSource rest := by
  have same : Line.trim (lead ++ rest) = Line.trim rest := by
    rw [Line.trim, Line.trimStart_append white, Line.trim]
  rw [trimSource, same, trimSource]

/-- What stands around a location is white space, or colons behind it. -/
def Loose (letter : Char) : Prop := Text.isWhitespace letter = true ∨ letter = ':'

theorem trimSource_split (text : Line) : ∃ lead tail, text = lead ++ trimSource text ++ tail ∧
    (∀ letter ∈ lead, Text.isWhitespace letter = true) ∧ ∀ letter ∈ tail, Loose letter := by
  obtain ⟨outer, outerTail, first, outerFront, outerBack⟩ := Line.trim_split text
  obtain ⟨colons, second, colon⟩ := Line.append_reverse_dropWhile (· == ':') (Line.trim text)
  obtain ⟨inner, innerTail, third, innerFront, innerBack⟩ :=
    Line.trim_split (WpPrint.trimColons (Line.trim text))
  rw [← trimSource] at third
  refine ⟨outer ++ inner, innerTail ++ colons ++ outerTail, ?_, ?_, ?_⟩
  · conv_lhs => rw [first, second, ← WpPrint.trimColons, third]
    simp only [List.append_assoc]
  · intro letter member
    exact (List.mem_append.mp member).elim (outerFront letter) (innerFront letter)
  · intro letter member
    rcases List.mem_append.mp member with member | late
    · rcases List.mem_append.mp member with early | middle
      · exact .inl (innerBack letter early)
      · exact .inr (beq_iff_eq.mp (colon letter middle))
    · exact .inl (outerBack letter late)

end Trimming

section Locations

variable {source head digits before : Line} {number : Nat}

/-- These are the letters of a number. -/
def Numeral (letter : Char) : Prop := letter.isDigit = true ∨ letter = '+'

theorem numeral_of_parseU64 {text : Line} (read : parseU64 text = some number) :
    text ≠ [] ∧ (∀ letter ∈ text, Numeral letter) ∧
      ∀ letter ∈ text.getLast?, letter.isDigit = true := by
  rw [parseU64] at read
  generalize shape : (if text.head? = some '+' then text.drop 1 else text) = rest at read
  rw [Option.ite_none_right_eq_some] at read
  obtain ⟨⟨filled, digits, -⟩, -⟩ := read
  rw [List.all_eq_true] at digits
  subst shape
  cases text with
  | nil => exact absurd (by simp) filled
  | cons first rest =>
      by_cases plus : first = '+'
      · subst plus
        simp only [List.head?_cons, if_true, List.drop_succ_cons, List.drop_zero] at filled digits
        refine ⟨List.cons_ne_nil _ _, ?_, ?_⟩
        · intro letter member
          exact (List.mem_cons.mp member).elim .inr fun later => .inl (digits letter later)
        · intro letter last
          rw [List.getLast?_cons_of_ne_nil filled] at last
          exact digits letter (List.mem_of_getLast? last)
      · rw [List.head?_cons, if_neg (by simpa using plus)] at digits
        exact ⟨List.cons_ne_nil _ _, fun letter member => .inl (digits letter member),
          fun letter last => digits letter (List.mem_of_getLast? last)⟩

/-- The number stands behind a colon at the end. -/
theorem trailingNumber_split (read : trailingNumber source = some (head, number)) :
    ∃ digits, source = head ++ ':' :: digits ∧ digits ≠ [] ∧ (∀ letter ∈ digits, Numeral letter) ∧
      ∀ letter ∈ digits.getLast?, letter.isDigit = true := by
  obtain ⟨start, found, parsed⟩ := Option.bind_eq_some_iff.mp read
  obtain ⟨value, valid, same⟩ := Option.map_eq_some_iff.mp parsed
  obtain ⟨rfl, rfl⟩ := Prod.mk.inj same
  have cut : Utf8.splitOnce [':'] source.reverse =
      some (source.reverse.take start, source.reverse.drop (start + 1)) := by
    rw [Utf8.splitOnce, found]
    rfl
  have whole := (Utf8.splitOnce_some cut).1
  refine ⟨(source.reverse.take start).reverse, ?_, numeral_of_parseU64 valid⟩
  have turned := congrArg List.reverse whole
  rw [List.reverse_reverse] at turned
  exact turned.trans (by simp)

/-- The reader of the log trims a location twice. -/
def place (before : Line) : Line := trimSource (trimSource before)

/-- The reader of the log takes this file and this line off the text before a marker. -/
def locationOf (before : Line) : Option (Line × Nat) :=
  (splitLocation (place before)).2.1.map fun number => ((splitLocation (place before)).1, number)

theorem locationOf_eq_some_iff {found : Line × Nat} : locationOf before = some found ↔
    (splitLocation (place before)).1 = found.1 ∧
      (splitLocation (place before)).2.1 = some found.2 := by
  rw [locationOf, Option.map_eq_some_iff]
  generalize splitLocation (place before) = parts
  constructor
  · rintro ⟨number, read, rfl⟩
    exact ⟨rfl, read⟩
  · rintro ⟨file, read⟩
    exact ⟨found.2, read, Prod.ext file rfl⟩

/-- A location is optional. -/
def IsPlace (before : Line) : Prop := place before = [] ∨ (locationOf before).isSome = true

theorem place_split (text : Line) : ∃ lead tail, text = lead ++ place text ++ tail ∧
    (∀ letter ∈ lead, Text.isWhitespace letter = true) ∧ ∀ letter ∈ tail, Loose letter := by
  obtain ⟨outer, outerTail, first, outerFront, outerBack⟩ := trimSource_split text
  obtain ⟨inner, innerTail, second, innerFront, innerBack⟩ := trimSource_split (trimSource text)
  rw [← place] at second
  refine ⟨outer ++ inner, innerTail ++ outerTail, ?_, ?_, ?_⟩
  · conv_lhs => rw [first, second]
    simp only [List.append_assoc]
  · intro letter member
    exact (List.mem_append.mp member).elim (outerFront letter) (innerFront letter)
  · intro letter member
    exact (List.mem_append.mp member).elim (innerBack letter) (outerBack letter)

theorem loose_of_place_eq_nil (blank : place before = []) : ∀ letter ∈ before, Loose letter := by
  obtain ⟨lead, tail, split, front, back⟩ := place_split before
  rw [blank, List.append_nil] at split
  intro letter member
  rw [split, List.mem_append] at member
  exact member.elim (fun early => .inl (front letter early)) (back letter)

theorem locationOf_eq_none (missing : trailingNumber (place before) = none) :
    locationOf before = none := by
  rw [locationOf, splitLocation, missing]
  rfl

theorem trailingNumber_isSome_of_locationOf {found : Line × Nat}
    (read : locationOf before = some found) :
    ∃ head number, trailingNumber (place before) = some (head, number) := by
  cases last : trailingNumber (place before) with
  | none =>
      rw [locationOf_eq_none last] at read
      cases read
  | some parts => exact ⟨parts.1, parts.2, rfl⟩

/-- The file stands in front, and only the line and the column stand behind it. -/
theorem locationOf_split {file : Line} (read : locationOf before = some (file, number)) :
    ∃ lead rest, before = lead ++ file ++ ':' :: rest ∧
      (∀ letter ∈ lead, Text.isWhitespace letter = true) ∧
      ∀ letter ∈ rest, Numeral letter ∨ Loose letter := by
  obtain ⟨lead, tail, split, front, back⟩ := place_split before
  obtain ⟨head, last, ends⟩ := trailingNumber_isSome_of_locationOf read
  obtain ⟨digits, shape, -, numeral, -⟩ := trailingNumber_split ends
  rw [locationOf, splitLocation, ends] at read
  cases again : trailingNumber head with
  | none =>
      simp only [again, Option.map_some, Option.some.injEq, Prod.mk.injEq] at read
      obtain ⟨rfl, -⟩ := read
      refine ⟨lead, digits ++ tail, ?_, front, fun letter member => ?_⟩
      · rw [split, shape]
        simp only [List.append_assoc, List.cons_append]
      · exact (List.mem_append.mp member).imp (numeral letter) (back letter)
  | some parts =>
      simp only [again, Option.map_some, Option.some.injEq, Prod.mk.injEq] at read
      obtain ⟨rfl, -⟩ := read
      obtain ⟨inner, innerShape, -, innerNumeral, -⟩ := trailingNumber_split again
      refine ⟨lead, inner ++ ':' :: (digits ++ tail), ?_, front, fun letter member => ?_⟩
      · rw [split, shape, innerShape]
        simp only [List.append_assoc, List.cons_append]
      · rcases List.mem_append.mp member with early | later
        · exact .inl (innerNumeral letter early)
        · rcases List.mem_cons.mp later with colon | later
          · exact .inr (.inr colon)
          · exact (List.mem_append.mp later).imp (numeral letter) (back letter)

theorem locationOf_ends {found : Line × Nat} (read : locationOf before = some found) :
    ∃ front digit tail, before = front ++ digit :: tail ∧ digit.isDigit = true ∧
      ∀ letter ∈ tail, Loose letter := by
  obtain ⟨lead, tail, split, -, back⟩ := place_split before
  obtain ⟨head, last, ends⟩ := trailingNumber_isSome_of_locationOf read
  obtain ⟨digits, shape, filled, -, final⟩ := trailingNumber_split ends
  refine ⟨lead ++ head ++ ':' :: digits.dropLast, digits.getLast filled, tail, ?_,
    final _ (List.getLast?_eq_getLast_of_ne_nil filled), back⟩
  conv_lhs => rw [split, shape, ← List.dropLast_append_getLast filled]
  simp only [List.append_assoc, List.cons_append, List.nil_append]

end Locations

section CliLocations

variable {before head : Line} {number : Nat}

/-- The location of the message is trimmed once. -/
abbrev cliLocation (before : Line) : Line := WpPrint.trimColons (Line.trim before)

/-- Neither white space before the colons at the end nor a column is there. -/
def Plain (before : Line) : Prop :=
  place before = [] ∨
    ((∀ letter ∈ (cliLocation before).getLast?, Text.isWhitespace letter = false) ∧
      ∀ head number, trailingNumber (place before) = some (head, number) →
        trailingNumber head = none)

theorem cliLocation_split (before : Line) : ∃ lead tail, before = lead ++ cliLocation before ++ tail ∧
    (∀ letter ∈ lead, Text.isWhitespace letter = true) ∧ ∀ letter ∈ tail, Loose letter := by
  obtain ⟨lead, tail, split, front, back⟩ := Line.trim_split before
  obtain ⟨colons, rest, colon⟩ := Line.append_reverse_dropWhile (· == ':') (Line.trim before)
  refine ⟨lead, colons ++ tail, ?_, front, ?_⟩
  · conv_lhs => rw [split, rest]
    simp only [cliLocation, WpPrint.trimColons, List.append_assoc]
  · intro letter member
    exact (List.mem_append.mp member).elim (fun early => .inr (beq_iff_eq.mp (colon letter early)))
      fun late => .inl (back letter late)

theorem head_cliLocation : ∀ letter ∈ (cliLocation before).head?,
    Text.isWhitespace letter = false := by
  intro letter first
  obtain ⟨colons, rest, -⟩ := Line.append_reverse_dropWhile (· == ':') (Line.trim before)
  obtain ⟨tail, whole, -⟩ :=
    Line.append_reverse_dropWhile Text.isWhitespace (Line.trimStart before)
  rw [← WpPrint.trimColons] at rest
  rw [← Line.trimEnd, ← Line.trim, rest, List.append_assoc] at whole
  have filled : WpPrint.trimColons (Line.trim before) ≠ [] := by
    intro none
    rw [cliLocation, none] at first
    cases first
  have shared : (Line.trimStart before).head? = some letter := by
    rw [whole, List.head?_append_of_ne_nil _ filled]
    exact first
  exact Line.head_trimStart shared

theorem place_eq_cliLocation
    (tight : ∀ letter ∈ (cliLocation before).getLast?, Text.isWhitespace letter = false) :
    place before = cliLocation before := by
  have trimmed : Line.trim (cliLocation before) = cliLocation before :=
    Line.trim_eq_self head_cliLocation tight
  have stopped : ∀ letter ∈ (cliLocation before).getLast?, (letter == ':') = false := by
    intro letter last
    have other := Line.last_reverse_dropWhile last
    exact other
  have colons : WpPrint.trimColons (cliLocation before) = cliLocation before :=
    Line.reverse_dropWhile_of_last stopped
  have once : trimSource before = cliLocation before := trimmed
  rw [place, once, trimSource, trimmed, colons, trimmed]

theorem isWhitespace_of_isDigit {letter : Char} (digit : letter.isDigit = true) :
    Text.isWhitespace letter = false ∧ letter ≠ ':' := by
  have range : 48 ≤ letter.toNat ∧ letter.toNat ≤ 57 := by
    simpa [Char.isDigit, UInt32.le_iff_toNat_le] using digit
  constructor
  · rw [Text.isWhitespace, decide_eq_false_iff_not]
    simp only [List.mem_cons, List.not_mem_nil, or_false]
    omega
  · rintro rfl
    exact absurd range (by decide)

theorem tight_of_trailingNumber
    (read : trailingNumber (cliLocation before) = some (head, number)) :
    ∀ letter ∈ (cliLocation before).getLast?, Text.isWhitespace letter = false := by
  obtain ⟨digits, shape, filled, -, final⟩ := trailingNumber_split read
  intro letter last
  rw [shape, List.getLast?_append_of_ne_nil _ (List.cons_ne_nil _ _),
    List.getLast?_cons_of_ne_nil filled] at last
  exact (isWhitespace_of_isDigit (final letter last)).1

/-- The two readings of a location agree where it is plain. -/
theorem plain_iff (isPlace : IsPlace before) :
    Plain before ↔ trailingNumber (cliLocation before) = locationOf before := by
  constructor
  · rintro (blank | ⟨tight, single⟩)
    · have missing : locationOf before = none :=
        locationOf_eq_none (by rw [blank]; rfl)
      rw [missing, Option.eq_none_iff_forall_not_mem]
      intro found read
      obtain ⟨digits, shape, filled, -, final⟩ := trailingNumber_split (Option.mem_def.mp read)
      obtain ⟨lead, tail, split, -⟩ := cliLocation_split before
      have digit := final _ (List.getLast?_eq_getLast_of_ne_nil filled)
      have member : digits.getLast filled ∈ before := by
        rw [split, shape]
        simp
      have plain := isWhitespace_of_isDigit digit
      rcases loose_of_place_eq_nil blank _ member with white | colon
      · rw [plain.1] at white
        cases white
      · exact plain.2 colon
    · have same := place_eq_cliLocation tight
      rw [same] at single
      cases read : trailingNumber (cliLocation before) with
      | none => exact (locationOf_eq_none (by rw [same, read])).symm
      | some parts => simp [locationOf, splitLocation, same, read, single parts.1 parts.2 read]
  · intro same
    rcases isPlace with blank | found
    · exact .inl blank
    · right
      obtain ⟨found, read⟩ := Option.isSome_iff_exists.mp found
      rw [read] at same
      have tight := tight_of_trailingNumber same
      refine ⟨tight, fun head number ends => ?_⟩
      rw [← place_eq_cliLocation tight, ends, Option.some.injEq] at same
      subst same
      cases again : trailingNumber head with
      | none => rfl
      | some parts =>
          obtain ⟨digits, shape, -⟩ := trailingNumber_split again
          simp only [locationOf, splitLocation, ends, again, Option.map_some, Option.some.injEq,
            Prod.mk.injEq] at read
          have length := congrArg List.length shape
          rw [read.1, List.length_append, List.length_cons] at length
          omega

theorem isPlace_of_trailingNumber (read : (trailingNumber (cliLocation before)).isSome = true) :
    IsPlace before := by
  obtain ⟨found, read⟩ := Option.isSome_iff_exists.mp read
  have same := place_eq_cliLocation (tight_of_trailingNumber read)
  right
  rw [locationOf, splitLocation, same, read, Option.isSome_map]
  dsimp only
  cases trailingNumber found.1 with
  | none => rfl
  | some parts => rfl

end CliLocations

end FramaCMcp.BatchMessages
