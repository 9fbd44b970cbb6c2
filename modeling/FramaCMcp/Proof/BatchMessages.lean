/-
This file shows when the messages of a batch run are those that its output tells.
-/

import FramaCMcp.Proof.MessageLocations
import FramaCMcp.Proof.WarningTags

namespace FramaCMcp.BatchMessages

open ParseDiagnostics

section Specification

def kindOf (marker : Line) : String := if marker = warningMarker then "WARNING" else "ERROR"

def IsMarker (marker : Line) : Prop := marker = warningMarker ∨ marker = errorMarker

/-- The first marker that only a location separates from the tag. -/
structure FirstPlace (text before marker head : Line) : Prop where
  split : text = before ++ marker ++ head
  marker : IsMarker marker
  place : IsPlace before
  first : ∀ early other late, text = early ++ other ++ late → IsMarker other → IsPlace early →
    before.length ≤ early.length

structure IsHeader (line tag before marker head : Line) : Prop where
  closed : ']' ∉ tag
  marked : ∃ rest, line = '[' :: (tag ++ ']' :: rest) ∧
    FirstPlace (Line.trimStart rest) before marker head

def joined (pieces : List Line) : Line := [' '].intercalate (pieces.dropWhile List.isEmpty)

def textOf (head : Line) (following : List Line) : Line :=
  joined ((head :: following.takeWhile continues).map Line.trim)

def Message.tag (message : Message) : Line :=
  message.plugin ++ (message.category.map (':' :: ·)).getD []

/-- The header and the lines behind it tell this message. -/
structure IsMessage (line : Line) (following : List Line) (message : Message) : Prop where
  header : ∃ before marker head, IsHeader line message.tag before marker head ∧
    message.kind = kindOf marker ∧ message.message = textOf head following ∧
    message.source = locationOf before
  plugin : ':' ∉ message.plugin
  filled : message.message ≠ []

inductive MessagesOf : Nat → List Line → List (Nat × Message) → Prop
  | nil (index : Nat) : MessagesOf index [] []
  | message {index : Nat} {line : Line} {rest : List Line} {message : Message}
      {messages : List (Nat × Message)} (told : IsMessage line rest message)
      (others : MessagesOf (index + 1) rest messages) :
      MessagesOf index (line :: rest) ((index, message) :: messages)
  | none {index : Nat} {line : Line} {rest : List Line} {messages : List (Nat × Message)}
      (silent : ∀ message, ¬ IsMessage line rest message)
      (others : MessagesOf (index + 1) rest messages) :
      MessagesOf index (line :: rest) messages

/-- What the reader of the log takes off the header is the same. -/
def Agrees (line : Line) (message : Message) : Prop :=
  ∀ category source, warningLineFields line = some (some (category, source)) →
    category = message.tag ∧ (message.source = none → trimSource source = []) ∧
      ∀ found, message.source = some found →
        (splitLocation (trimSource source)).1 = found.1 ∧
          (splitLocation (trimSource source)).2.1 = some found.2

structure ReadsCompletely (text : String) : Prop where
  each : MessagesOf 0 (WpPrint.lines text) (numberedMessages text)
  agree : ∀ entry ∈ numberedMessages text, ∀ line,
    (WpPrint.lines text)[entry.1]? = some line → Agrees line entry.2

end Specification

section Conditions

def Blank (head : Line) (following : List Line) : Prop :=
  ∀ piece ∈ head :: following.takeWhile continues, Line.trim piece = []

/-- The tag is one for the reader of the log too. -/
def Separate (tag rest before : Line) : Prop :=
  ':' ∈ tag ∧ (∀ letter ∈ tag, Text.isWhitespace letter = false) ∧
    (before = [] ∨ ∃ letter ∈ rest.head?, Text.isWhitespace letter = true)

/-- Only a location stands before the marker, no error with this stands before it, and no second
error stands right behind it. -/
structure Foremost (before marked : Line) : Prop where
  place : IsPlace before
  first : ∀ early late, before ++ marked = early ++ errorMarker ++ late →
    early.length < before.length → ¬ IsPlace early
  single : ¬ errorMarker ++ errorMarker <+: marked

/-- Where a marker stands behind the tag, the first one is the right one and the location is plain, or
there is no text and nothing to tell. -/
def ReadsLine (line : Line) (following : List Line) : Prop :=
  ∀ tag rest before marked, splitTag line = some (tag, rest) →
    cutAtKind (Line.trimStart rest) = some (before, marked) →
    (Foremost before marked ∧ (Blank (kindAndHead marked).2 following ∨
      Plain before ∧ (Separate tag rest before ∨ warningLineFields line = some none))) ∨
    (Blank (kindAndHead marked).2 following ∧
      ∀ early other late, before ++ marked = early ++ other ++ late → IsMarker other →
        ¬ IsPlace early)

end Conditions

section Texts

variable {head piece : Line} {pieces following : List Line}

theorem joined_cons_of_ne_nil (filled : piece ≠ []) (pieces : List Line) :
    joined (piece :: pieces) = piece ++ pieces.flatMap (' ' :: ·) := by
  rw [joined, List.dropWhile_cons_of_neg (by simpa using filled)]
  clear filled
  induction pieces generalizing piece with
  | nil => simp [List.intercalate]
  | cons next rest ih =>
      rw [List.intercalate_cons_cons, ih, List.flatMap_cons]
      simp

theorem joined_cons_nil (pieces : List Line) : joined ([] :: pieces) = joined pieces := by
  rw [joined, List.dropWhile_cons_of_pos rfl, joined]

/-- The body of a message is its text. -/
theorem bodyOf_eq_joined (head : Line) (wrapped : List Line) :
    bodyOf head wrapped = joined ((head :: wrapped).map Line.trim) := by
  rw [bodyOf, List.map_cons]
  generalize Line.trim head = body
  induction wrapped generalizing body with
  | nil =>
      cases body with
      | nil => rfl
      | cons letter rest => simp [joined_cons_of_ne_nil]
  | cons next rest ih =>
      rw [List.foldl_cons, ih, List.map_cons, extendBody]
      by_cases empty : body = []
      · rw [if_pos empty, empty, List.nil_append, joined_cons_nil]
      · rw [if_neg empty, joined_cons_of_ne_nil empty, joined_cons_of_ne_nil (by simp),
          List.flatMap_cons]
        simp

theorem joined_eq_nil_iff : joined pieces = [] ↔ ∀ piece ∈ pieces, piece = [] := by
  induction pieces with
  | nil => simp [joined]
  | cons piece rest ih =>
      rw [List.forall_mem_cons]
      by_cases empty : piece = []
      · rw [empty, joined_cons_nil, ih, and_iff_right rfl]
      · rw [joined_cons_of_ne_nil empty]
        simp [empty]

theorem textOf_eq_nil_iff : textOf head following = [] ↔ Blank head following := by
  rw [textOf, joined_eq_nil_iff, List.forall_mem_map]
  rfl

theorem length_joined_le (piece : Line) (pieces : List Line) :
    (joined (piece :: pieces)).length ≤ piece.length + (pieces.flatMap (' ' :: ·)).length := by
  induction pieces generalizing piece with
  | nil =>
      cases piece with
      | nil => simp [joined]
      | cons letter rest => rw [joined_cons_of_ne_nil (List.cons_ne_nil _ _), List.length_append]
  | cons next rest ih =>
      by_cases empty : piece = []
      · have shorter := ih next
        rw [empty, joined_cons_nil, List.flatMap_cons, List.length_append]
        simp only [List.length_cons, List.length_nil]
        omega
      · rw [joined_cons_of_ne_nil empty, List.length_append]

/-- A longer first piece gives another text. -/
theorem joined_ne_of_length_lt {other : Line} (longer : other.length < piece.length) :
    joined (other :: pieces) ≠ joined (piece :: pieces) := by
  intro same
  have filled : piece ≠ [] := by
    rintro rfl
    exact absurd longer (Nat.not_lt_zero _)
  have bound := length_joined_le other pieces
  rw [same, joined_cons_of_ne_nil filled, List.length_append] at bound
  omega

end Texts

section Cuts

variable {line tag rest text before marked marker after : Line}

theorem stripLead_eq_some_iff (line : Line) (lead : String) :
    WpPrint.stripLead line lead = some rest ↔ line = lead.toList ++ rest := by
  rw [WpPrint.stripLead, Option.ite_none_right_eq_some, Line.startsWith, Option.some.injEq,
    List.isPrefixOf_iff_prefix]
  constructor
  · rintro ⟨⟨tail, rfl⟩, rfl⟩
    rw [List.drop_left]
  · rintro rfl
    exact ⟨List.prefix_append _ _, List.drop_left ..⟩

theorem splitTag_eq_some_iff :
    splitTag line = some (tag, rest) ↔ line = '[' :: (tag ++ ']' :: rest) ∧ ']' ∉ tag := by
  rw [splitTag, Option.bind_eq_some_iff]
  constructor
  · rintro ⟨inner, opened, closed⟩
    rw [(stripLead_eq_some_iff line "[").mp opened, (Utf8.splitOnce_some closed).1]
    exact ⟨by simp, Utf8.notMem_of_splitOnce closed⟩
  · rintro ⟨rfl, absent⟩
    refine ⟨_, (stripLead_eq_some_iff _ "[").mpr rfl, ?_⟩
    cases closes : Utf8.splitOnce [']'] (tag ++ ']' :: rest) with
    | none => exact absurd (by simp) (Utf8.notMem_of_splitOnce_none closes)
    | some parts =>
        have whole := (Utf8.splitOnce_some closes).1
        rw [List.append_assoc, List.singleton_append] at whole
        obtain ⟨rfl, rfl⟩ :=
          Utf8.append_cons_unique absent (Utf8.notMem_of_splitOnce closes) whole
        rfl

theorem cutAt_eq_some (found : cutAt marker text = some (before, marked)) :
    ∃ after, marked = marker ++ after ∧ text = before ++ marker ++ after ∧
      ∀ early late, text = early ++ marker ++ late → before.length ≤ early.length := by
  obtain ⟨parts, split, same⟩ := Option.map_eq_some_iff.mp found
  obtain ⟨rfl, rfl⟩ := Prod.mk.inj same
  exact ⟨parts.2, rfl, Utf8.splitOnce_some split⟩

theorem cutAt_eq_none (missing : cutAt marker text = none) (early late : Line) :
    text ≠ early ++ marker ++ late :=
  Utf8.splitOnce_none (Option.map_eq_none_iff.mp missing) early late

/-- The first warning is taken, or the first error of a text without one. -/
inductive Cut (text before : Line) : Line → Prop
  | warning {head : Line} (split : text = before ++ warningMarker ++ head)
      (first : ∀ early late, text = early ++ warningMarker ++ late →
        before.length ≤ early.length) : Cut text before (warningMarker ++ head)
  | error {head : Line} (split : text = before ++ errorMarker ++ head)
      (first : ∀ early late, text = early ++ errorMarker ++ late → before.length ≤ early.length)
      (clear : ∀ early late, text ≠ early ++ warningMarker ++ late) :
      Cut text before (errorMarker ++ head)

theorem cut_of_cutAtKind (found : cutAtKind text = some (before, marked)) :
    Cut text before marked := by
  rw [cutAtKind] at found
  cases warning : cutAt warningMarker text with
  | some parts =>
      rw [warning, Option.some_or, Option.some.injEq] at found
      subst found
      obtain ⟨head, rfl, split, first⟩ := cutAt_eq_some warning
      exact .warning split first
  | none =>
      rw [warning, Option.none_or] at found
      obtain ⟨head, rfl, split, first⟩ := cutAt_eq_some found
      exact .error split first (cutAt_eq_none warning)

theorem Cut.split (cut : Cut text before marked) : text = before ++ marked := by
  cases cut with
  | warning split _ => rw [split, List.append_assoc]
  | error split _ _ => rw [split, List.append_assoc]

theorem unmarked_of_cutAtKind (missing : cutAtKind text = none) (marked : IsMarker marker)
    (early late : Line) : text ≠ early ++ marker ++ late := by
  rw [cutAtKind, Option.or_eq_none_iff] at missing
  rcases marked with rfl | rfl
  · exact cutAt_eq_none missing.1 early late
  · exact cutAt_eq_none missing.2 early late

end Cuts

section Lines

variable {line : Line} {rest lines following : List Line} {message : Message} {index : Nat}

def messageAt (line : Line) (following : List Line) : Option Message :=
  (readHeader line).bind fun header => header.message (following.takeWhile continues)

/-- Each line is read with the lines behind it. -/
def eachLine (index : Nat) : List Line → List (Nat × Message)
  | [] => []
  | line :: rest =>
      ((messageAt line rest).map fun message => (index, message)).toList ++ eachLine (index + 1) rest

theorem readHeader_of_continues (indented : continues line = true) : readHeader line = none := by
  rw [continues, Bool.and_eq_true] at indented
  obtain ⟨tail, rfl⟩ := List.isPrefixOf_iff_prefix.mp indented.1
  rfl

/-- No line of a body is a header. -/
theorem eachLine_wrapped (index : Nat) (rest : List Line) : eachLine index rest =
    eachLine (index + (rest.takeWhile continues).length) (rest.dropWhile continues) := by
  induction rest generalizing index with
  | nil => rfl
  | cons line rest ih =>
      by_cases indented : continues line = true
      · rw [List.takeWhile_cons_of_pos indented, List.dropWhile_cons_of_pos indented, eachLine,
          messageAt, readHeader_of_continues indented, ih, List.length_cons]
        simp [Nat.add_assoc, Nat.add_comm 1]
      · rw [List.takeWhile_cons_of_neg indented, List.dropWhile_cons_of_neg indented]
        rfl

theorem messagesFrom_eq_eachLine (index : Nat) (lines : List Line) :
    messagesFrom index lines = eachLine index lines := by
  fun_induction messagesFrom index lines with
  | case1 => rfl
  | case2 index line rest none ih => simp [eachLine, messageAt, none, ih]
  | case3 index line rest header found wrapped ih =>
      rw [eachLine, messageAt, found, Option.bind_some, ih, eachLine_wrapped (index + 1)]

theorem mem_eachLine_iff {entry : Nat × Message} : entry ∈ eachLine index lines ↔
    ∃ lead line rest, lines = lead ++ line :: rest ∧ entry.1 = index + lead.length ∧
      messageAt line rest = some entry.2 := by
  induction lines generalizing index with
  | nil => simp [eachLine]
  | cons first rest ih =>
      rw [eachLine, List.mem_append, ih, Option.mem_toList, Option.map_eq_some_iff]
      constructor
      · rintro (⟨message, read, rfl⟩ | ⟨lead, line, following, rfl, place, read⟩)
        · exact ⟨[], first, rest, rfl, rfl, read⟩
        · refine ⟨first :: lead, line, following, rfl, ?_, read⟩
          rw [place, List.length_cons]
          omega
      · rintro ⟨_ | ⟨letter, lead⟩, line, following, split, place, read⟩
        · obtain ⟨rfl, rfl⟩ := List.cons.inj split
          exact .inl ⟨entry.2, read, Prod.ext place.symm rfl⟩
        · refine .inr ⟨lead, line, following, (List.cons.inj split).2, ?_, read⟩
          rw [place, List.length_cons]
          omega

theorem le_of_mem_eachLine {entry : Nat × Message} (member : entry ∈ eachLine index lines) :
    index ≤ entry.1 := by
  obtain ⟨lead, -, -, -, place, -⟩ := mem_eachLine_iff.mp member
  omega

/-- The line tells what is read off it. -/
def Told (line : Line) (following : List Line) : Option Message → Prop
  | some message => IsMessage line following message
  | none => ∀ message, ¬ IsMessage line following message

theorem MessagesOf.le {messages : List (Nat × Message)} (run : MessagesOf index lines messages) :
    ∀ entry ∈ messages, index ≤ entry.1 := by
  induction run with
  | nil => exact fun entry member => absurd member List.not_mem_nil
  | message told others ih =>
      rw [List.forall_mem_cons]
      exact ⟨le_rfl, fun entry member => Nat.le_of_succ_le (ih entry member)⟩
  | none silent others ih => exact fun entry member => Nat.le_of_succ_le (ih entry member)

theorem messagesOf_cons_iff {messages : List (Nat × Message)}
    (later : ∀ entry ∈ messages, index + 1 ≤ entry.1) (read : Option Message) :
    MessagesOf index (line :: rest)
        ((read.map fun message => (index, message)).toList ++ messages) ↔
      Told line rest read ∧ MessagesOf (index + 1) rest messages := by
  cases read with
  | none =>
      constructor
      · intro run
        cases run with
        | message told others => exact absurd (later _ List.mem_cons_self) (by simp)
        | none silent others => exact ⟨silent, others⟩
      · rintro ⟨silent, others⟩
        exact .none silent others
  | some message =>
      constructor
      · intro run
        generalize shape :
          ((some message).map fun message => (index, message)).toList ++ messages = all at run
        cases run with
        | message told others =>
            obtain ⟨same, rfl⟩ := List.cons.inj shape
            exact ⟨(Prod.mk.inj same).2 ▸ told, others⟩
        | none silent others =>
            have member : (index, message) ∈ all := by
              rw [← shape]
              exact List.mem_cons_self
            exact absurd (others.le _ member) (Nat.not_succ_le_self index)
      · rintro ⟨told, others⟩
        exact .message told others

theorem messagesOf_eachLine_iff (index : Nat) (lines : List Line) :
    MessagesOf index lines (eachLine index lines) ↔ ∀ lead line rest, lines = lead ++ line :: rest →
      Told line rest (messageAt line rest) := by
  induction lines generalizing index with
  | nil =>
      exact ⟨fun _ lead line rest split => absurd split (by simp), fun _ => .nil index⟩
  | cons first rest ih =>
      rw [eachLine, messagesOf_cons_iff (fun entry member => le_of_mem_eachLine member), ih]
      constructor
      · rintro ⟨here, later⟩ (_ | ⟨letter, lead⟩) line following split
        · obtain ⟨rfl, rfl⟩ := List.cons.inj split
          exact here
        · exact later lead line following (List.cons.inj split).2
      · intro all
        exact ⟨all [] first rest rfl, fun lead line following split =>
          all (first :: lead) line following (congrArg (first :: ·) split)⟩

/-- The claims about the lines are claims about each line with the lines behind it. -/
theorem readsCompletely_iff_lines (text : String) :
    ReadsCompletely text ↔ ∀ lead line rest, WpPrint.lines text = lead ++ line :: rest →
      Told line rest (messageAt line rest) ∧
        ∀ message, messageAt line rest = some message → Agrees line message := by
  have same : numberedMessages text = eachLine 0 (WpPrint.lines text) :=
    messagesFrom_eq_eachLine 0 _
  constructor
  · rintro ⟨each, agree⟩ lead line rest split
    rw [same, messagesOf_eachLine_iff] at each
    refine ⟨each lead line rest split, fun message read => ?_⟩
    apply agree (lead.length, message) _ line (by rw [split]; simp)
    rw [same, mem_eachLine_iff]
    exact ⟨lead, line, rest, split, (Nat.zero_add _).symm, read⟩
  · intro all
    constructor
    · rw [same, messagesOf_eachLine_iff]
      exact fun lead line rest split => (all lead line rest split).1
    · intro entry member line found
      rw [same, mem_eachLine_iff] at member
      obtain ⟨lead, other, rest, split, place, read⟩ := member
      rw [place, Nat.zero_add, split, List.getElem?_append_right le_rfl, Nat.sub_self,
        List.getElem?_cons_zero, Option.some.injEq] at found
      exact found ▸ (all lead other rest split).2 entry.2 read

end Lines

section Markers

variable {text before marker head early other late marked : Line}

theorem marker_unique (first : IsMarker marker) (second : IsMarker other)
    (same : marker ++ head = other ++ late) : marker = other ∧ head = late := by
  rcases first with rfl | rfl <;> rcases second with rfl | rfl
  · exact ⟨rfl, List.append_cancel_left same⟩
  · cases same
  · cases same
  · exact ⟨rfl, List.append_cancel_left same⟩

/-- The first letter of a marker tells it from white space. -/
theorem IsMarker.starts (isMarker : IsMarker marker) :
    ∃ letter rest, marker = letter :: rest ∧ ¬ Loose letter := by
  rcases isMarker with rfl | rfl
  · exact ⟨'W', _, rfl, by rw [Loose]; decide⟩
  · exact ⟨'E', _, rfl, by rw [Loose]; decide⟩

theorem IsMarker.noDigit (isMarker : IsMarker marker) :
    ∀ letter ∈ marker, letter.isDigit = false := by
  have clear : marker.all (fun letter => !letter.isDigit) = true := by
    rcases isMarker with rfl | rfl
    · rfl
    · rfl
  intro letter member
  simpa using List.all_eq_true.mp clear letter member

theorem FirstPlace.unique (first : FirstPlace text before marker head)
    (second : FirstPlace text early other late) : before = early ∧ marker = other ∧ head = late := by
  have same := first.split.symm.trans second.split
  have length := Nat.le_antisymm
    (first.first early other late second.split second.marker second.place)
    (second.first before marker head first.split first.marker first.place)
  rw [List.append_assoc, List.append_assoc] at same
  obtain ⟨rfl, rest⟩ := List.append_inj same length
  exact ⟨rfl, marker_unique first.marker second.marker rest⟩

/-- One of the markers behind a location is the first. -/
theorem exists_firstPlace (split : text = early ++ other ++ late) (isMarker : IsMarker other)
    (isPlace : IsPlace early) : ∃ before marker head, FirstPlace text before marker head := by
  generalize bound : early.length = length
  induction length using Nat.strong_induction_on generalizing early other late with
  | _ length ih =>
      by_cases least : ∀ lead mark rest, text = lead ++ mark ++ rest → IsMarker mark →
          IsPlace lead → early.length ≤ lead.length
      · exact ⟨early, other, late, split, isMarker, isPlace, least⟩
      · push Not at least
        obtain ⟨lead, mark, rest, whole, isMark, placed, shorter⟩ := least
        exact ih lead.length (bound ▸ shorter) whole isMark placed rfl

theorem trimStartMatches_split (marker : Line) (steps : Nat) (text : Line) :
    ∃ taken, text = taken ++ trimStartMatches marker steps text ∧ ∀ letter ∈ taken, letter ∈ marker := by
  induction steps generalizing text with
  | zero => exact ⟨[], rfl, fun letter member => absurd member List.not_mem_nil⟩
  | succ steps ih =>
      rw [trimStartMatches]
      split
      · rename_i starts
        obtain ⟨rest, rfl⟩ := List.isPrefixOf_iff_prefix.mp starts
        rw [List.drop_left]
        obtain ⟨taken, split, letters⟩ := ih rest
        refine ⟨marker ++ taken, by rw [List.append_assoc, ← split], fun letter member => ?_⟩
        exact (List.mem_append.mp member).elim id (letters letter)
      · exact ⟨[], rfl, fun letter member => absurd member List.not_mem_nil⟩

theorem kindAndHead_warning (head : Line) :
    kindAndHead (warningMarker ++ head) = ("WARNING", head) := by
  have read : WpPrint.stripLead (warningMarker ++ head) "Warning:" = some head :=
    (stripLead_eq_some_iff _ _).mpr rfl
  rw [kindAndHead, read]

theorem kindAndHead_error (head : Line) : kindAndHead (errorMarker ++ head) =
    ("ERROR", trimStartMatches errorMarker (head.length + 5) head) := by
  have read : WpPrint.stripLead (errorMarker ++ head) "Warning:" = none := rfl
  have length : (errorMarker ++ head).length = head.length + 5 + 1 := by
    rw [List.length_append, Nat.add_comm]
    rfl
  rw [kindAndHead, read, length, trimStartMatches,
    if_pos (List.isPrefixOf_iff_prefix.mpr (List.prefix_append _ _)), List.drop_left]

theorem kindAndHead_error_single (single : ¬ errorMarker <+: head) :
    kindAndHead (errorMarker ++ head) = ("ERROR", head) := by
  rw [kindAndHead_error, trimStartMatches, if_neg (mt List.isPrefixOf_iff_prefix.mp single)]

/-- Only letters of the marker stand between it and the text that is read. -/
theorem Cut.split_head (cut : Cut text before marked) :
    ∃ taken, marked = taken ++ (kindAndHead marked).2 ∧
      ∀ letter ∈ taken, letter ∈ warningMarker ∨ letter ∈ errorMarker := by
  cases cut with
  | @warning head split first =>
      rw [kindAndHead_warning]
      exact ⟨warningMarker, rfl, fun letter => .inl⟩
  | @error head split first clear =>
      obtain ⟨taken, rest, letters⟩ := trimStartMatches_split errorMarker (head.length + 5) head
      rw [kindAndHead_error]
      refine ⟨errorMarker ++ taken, by rw [List.append_assoc, ← rest], fun letter member => .inr ?_⟩
      exact (List.mem_append.mp member).elim id (letters letter)

theorem Cut.starts (cut : Cut text before marked) : ∃ marker head, IsMarker marker ∧
    marked = marker ++ head := by
  cases cut with
  | warning split first => exact ⟨_, _, .inl rfl, rfl⟩
  | error split first clear => exact ⟨_, _, .inr rfl, rfl⟩

end Markers

section Foremost

variable {text before marker head marked : Line} {following : List Line}

/-- What is read off a line is what the place of a marker tells. -/
structure SameAs (before marked : Line) (following : List Line) (place marker head : Line) :
    Prop where
  text : textOf (kindAndHead marked).2 following = textOf head following
  rest : textOf (kindAndHead marked).2 following ≠ [] →
    (kindAndHead marked).1 = kindOf marker ∧
      trailingNumber (cliLocation before) = locationOf place

theorem Foremost.firstPlace (foremost : Foremost before marked) (cut : Cut text before marked) :
    ∃ marker head, FirstPlace text before marker head ∧
      kindAndHead marked = (kindOf marker, head) := by
  have whole := cut.split
  cases cut with
  | @warning head split first =>
      refine ⟨warningMarker, head, ⟨split, .inl rfl, foremost.place, ?_⟩, kindAndHead_warning head⟩
      rintro early other late marked (rfl | rfl) isPlace
      · exact first early late marked
      · by_contra shorter
        exact foremost.first early late (whole.symm.trans marked) (Nat.not_le.mp shorter) isPlace
  | @error head split first clear =>
      have single : ¬ errorMarker <+: head := fun starts =>
        foremost.single ((List.prefix_append_right_inj errorMarker).mpr starts)
      refine ⟨errorMarker, head, ⟨split, .inr rfl, foremost.place, ?_⟩,
        kindAndHead_error_single single⟩
      rintro early other late marked (rfl | rfl) isPlace
      · exact absurd marked (clear early late)
      · exact first early late marked

theorem trim_ne_nil {letter : Char} {piece : Line} (member : letter ∈ piece)
    (black : Text.isWhitespace letter = false) : Line.trim piece ≠ [] := by
  intro empty
  obtain ⟨lead, tail, split, front, back⟩ := Line.trim_split piece
  rw [empty, List.append_nil] at split
  rw [split, List.mem_append] at member
  rcases member with early | late
  · rw [front letter early] at black
    cases black
  · rw [back letter late] at black
    cases black

theorem textOf_ne_nil {letter : Char} (member : letter ∈ head)
    (black : Text.isWhitespace letter = false) (following : List Line) :
    textOf head following ≠ [] := fun empty =>
  trim_ne_nil member black (textOf_eq_nil_iff.mp empty head List.mem_cons_self)

/-- An earlier place of a marker is told as an error but read as a warning. -/
theorem not_earlier (cut : Cut text before marked) {early other late : Line}
    (placed : FirstPlace text early other late)
    (same : SameAs before marked following early other late) : ¬ early.length < before.length := by
  intro shorter
  cases cut with
  | @warning head split first =>
      rcases placed.marker with rfl | rfl
      · exact absurd (first early late placed.split) (Nat.not_le.mpr shorter)
      · have whole := split.symm.trans placed.split
        rw [List.append_assoc, List.append_assoc] at whole
        obtain ⟨middle, rfl⟩ : early <+: before :=
          List.prefix_of_prefix_length_le ⟨_, whole.symm⟩ ⟨_, rfl⟩ (Nat.le_of_lt shorter)
        rw [List.append_assoc, List.append_cancel_left_eq] at whole
        have member : 'W' ∈ errorMarker ++ late := by
          rw [← whole, warningMarker_eq]
          simp
        have later : 'W' ∈ late := (List.mem_append.mp member).resolve_left (by decide)
        have filled : textOf (kindAndHead (warningMarker ++ head)).2 following ≠ [] := by
          rw [same.text]
          exact textOf_ne_nil later (by decide) following
        have kinds := (same.rest filled).1
        rw [kindAndHead_warning] at kinds
        have apart : "WARNING" ≠ kindOf errorMarker := by decide
        exact apart kinds
  | @error head split first clear =>
      rcases placed.marker with rfl | rfl
      · exact clear early late placed.split
      · exact absurd (first early late placed.split) (Nat.not_le.mpr shorter)

/-- A later place of a marker has another location. -/
theorem not_later (cut : Cut text before marked) {early other late : Line}
    (placed : FirstPlace text early other late)
    (same : SameAs before marked following early other late) : ¬ before.length < early.length := by
  intro longer
  have whole := cut.split.symm.trans placed.split
  rw [List.append_assoc] at whole
  obtain ⟨middle, rfl⟩ : before <+: early :=
    List.prefix_of_prefix_length_le ⟨_, whole⟩ ⟨_, rfl⟩ (Nat.le_of_lt longer)
  rw [List.append_assoc, List.append_cancel_left_eq] at whole
  -- The piece between the two places starts with a letter of a marker.
  obtain ⟨marker, head, isMarker, shape⟩ := cut.starts
  obtain ⟨letter, others, rfl, tight⟩ := isMarker.starts
  obtain ⟨inner, rfl⟩ : ∃ inner, middle = letter :: inner := by
    cases middle with
    | nil => simp at longer
    | cons first inner =>
        rw [shape] at whole
        exact ⟨inner, congrArg (· :: inner) (List.cons.inj whole).1.symm⟩
  have inside : letter ∈ before ++ letter :: inner := by simp
  have located : (locationOf (before ++ letter :: inner)).isSome = true :=
    placed.place.resolve_left fun blank => tight (loose_of_place_eq_nil blank letter inside)
  obtain ⟨found, read⟩ := Option.isSome_iff_exists.mp located
  have filled : textOf (kindAndHead marked).2 following ≠ [] := by
    intro empty
    obtain ⟨taken, rest, letters⟩ := cut.split_head
    obtain ⟨front, digit, tail, split, isDigit, loose⟩ := locationOf_ends read
    have outside : digit ∉ marked := by
      intro member
      rw [rest, List.mem_append] at member
      rcases member with early | late
      · have noDigit : digit.isDigit = false :=
          (letters digit early).elim (IsMarker.noDigit (.inl rfl) digit)
            (IsMarker.noDigit (.inr rfl) digit)
        rw [noDigit] at isDigit
        cases isDigit
      · exact trim_ne_nil late (isWhitespace_of_isDigit isDigit).1
          (textOf_eq_nil_iff.mp empty _ List.mem_cons_self)
    rcases List.append_eq_append_iff.mp split with ⟨between, -, back⟩ | ⟨between, -, back⟩
    · apply outside
      rw [whole, back]
      simp
    · cases between with
      | nil =>
          apply outside
          rw [whole, ← List.nil_append (letter :: inner), ← back]
          simp
      | cons first between =>
          apply tight
          apply loose
          rw [(List.cons.inj back).2]
          simp
  have readable := (same.rest filled).2
  rw [read] at readable
  have isPlace : IsPlace before := by
    apply isPlace_of_trailingNumber
    rw [readable]
    rfl
  have least := placed.first before _ head (by rw [cut.split, shape, List.append_assoc]) isMarker
    isPlace
  exact absurd least (Nat.not_le.mpr longer)

theorem length_trim_lt_of_twice (rest : Line) (steps : Nat) :
    (Line.trim (trimStartMatches errorMarker (steps + 1) (errorMarker ++ rest))).length <
      (Line.trim (errorMarker ++ rest)).length := by
  have starts : ∀ letter ∈ errorMarker.head?, Text.isWhitespace letter = false := by
    intro letter first
    obtain rfl : 'E' = letter := Option.some.inj first
    rfl
  have stops : ∀ letter ∈ errorMarker.getLast?, Text.isWhitespace letter = false := by
    intro letter last
    obtain rfl : ':' = letter := Option.some.inj last
    rfl
  obtain ⟨taken, split, -⟩ := trimStartMatches_split errorMarker steps rest
  obtain ⟨lead, tail, around, -, white⟩ :=
    Line.trim_split (trimStartMatches errorMarker steps rest)
  rw [trimStartMatches, if_pos (List.isPrefixOf_iff_prefix.mpr (List.prefix_append _ _)),
    List.drop_left, Line.trim_append (by decide) starts stops, List.length_append]
  generalize trimStartMatches errorMarker steps rest = inner at split around ⊢
  have kept : (Line.trim inner).length ≤ (Line.trimEnd rest).length := by
    cases last : (Line.trim inner).getLast? with
    | none => simp [List.getLast?_eq_none_iff.mp last]
    | some letter =>
        have stopped : ∀ other ∈ (taken ++ lead ++ Line.trim inner).getLast?,
            Text.isWhitespace other = false := by
          intro other same
          rw [List.getLast?_append, last, Option.some_or] at same
          cases same
          exact Line.last_reverse_dropWhile last
        have whole : rest = taken ++ lead ++ Line.trim inner ++ tail := by
          rw [split, List.append_assoc taken, List.append_assoc taken, ← around]
        rw [whole, Line.trimEnd, Line.reverse_dropWhile_append stopped]
        simp only [List.length_append]
        omega
  have length : errorMarker.length = 6 := rfl
  omega

/-- The marker that is read stands at the place of the first one. -/
theorem foremost_of_sameAs (cut : Cut text before marked) {early other late : Line}
    (placed : FirstPlace text early other late)
    (same : SameAs before marked following early other late) :
    early = before ∧ Foremost before marked := by
  have length : early.length = before.length :=
    Nat.le_antisymm (Nat.not_lt.mp (not_later cut placed same))
      (Nat.not_lt.mp (not_earlier cut placed same))
  have whole := placed.split.symm.trans cut.split
  rw [List.append_assoc] at whole
  obtain ⟨rfl, rest⟩ := List.append_inj whole length
  refine ⟨rfl, placed.place, fun lead tail marked shorter isPlace => ?_, ?_⟩
  · have least := placed.first lead errorMarker tail (cut.split.trans marked) (.inr rfl) isPlace
    exact absurd least (Nat.not_le.mpr shorter)
  · rintro ⟨tail, rfl⟩
    rw [List.append_assoc] at rest same
    obtain ⟨rfl, rfl⟩ := marker_unique placed.marker (.inr rfl) rest
    have texts := same.text
    rw [kindAndHead_error] at texts
    exact joined_ne_of_length_lt (length_trim_lt_of_twice tail _) texts

end Foremost

section Told

variable {line tag rest before marked : Line} {following : List Line}

theorem splitCategory_spec (tag : Line) : ':' ∉ (splitCategory tag).1 ∧
    (splitCategory tag).1 ++ ((splitCategory tag).2.map (':' :: ·)).getD [] = tag := by
  rw [splitCategory]
  cases found : Utf8.splitOnce [':'] tag with
  | none => exact ⟨Utf8.notMem_of_splitOnce_none found, List.append_nil _⟩
  | some parts =>
      refine ⟨Utf8.notMem_of_splitOnce found, ?_⟩
      have whole := (Utf8.splitOnce_some found).1
      rw [List.append_assoc] at whole
      exact whole.symm

def messageOf (tag : Line) (kind : String) (text : Line) (source : Option (Line × Nat)) :
    Message where
  plugin := (splitCategory tag).1
  kind := kind
  message := text
  category := (splitCategory tag).2
  source := source

@[simp] theorem messageOf_tag (tag : Line) (kind : String) (text : Line)
    (source : Option (Line × Nat)) : (messageOf tag kind text source).tag = tag :=
  (splitCategory_spec tag).2

@[simp] theorem messageOf_source (tag : Line) (kind : String) (text : Line)
    (source : Option (Line × Nat)) : (messageOf tag kind text source).source = source := rfl

/-- A message that is put together is told by a header with the same parts. -/
theorem isMessage_messageOf_iff (kind : String) (text : Line) (source : Option (Line × Nat)) :
    IsMessage line following (messageOf tag kind text source) ↔
      (∃ place marker head, IsHeader line tag place marker head ∧ kind = kindOf marker ∧
        text = textOf head following ∧ source = locationOf place) ∧ text ≠ [] := by
  constructor
  · intro told
    obtain ⟨place, marker, head, header, parts⟩ := told.header
    rw [messageOf_tag] at header
    exact ⟨⟨place, marker, head, header, parts⟩, told.filled⟩
  · rintro ⟨⟨place, marker, head, header, parts⟩, filled⟩
    refine ⟨⟨place, marker, head, ?_, parts⟩, (splitCategory_spec tag).1, filled⟩
    rwa [messageOf_tag]

theorem messageAt_eq (tagged : splitTag line = some (tag, rest))
    (found : cutAtKind (Line.trimStart rest) = some (before, marked)) :
    messageAt line following =
      if textOf (kindAndHead marked).2 following = [] then none
      else some (messageOf tag (kindAndHead marked).1 (textOf (kindAndHead marked).2 following)
        (trailingNumber (cliLocation before))) := by
  rw [messageAt, readHeader, tagged, Option.bind_some, found, Option.map_some, Option.bind_some,
    Header.message]
  dsimp only
  rw [bodyOf_eq_joined, ← textOf]
  rfl

theorem isHeader_iff (tagged : splitTag line = some (tag, rest)) {name place marker head : Line} :
    IsHeader line name place marker head ↔
      name = tag ∧ FirstPlace (Line.trimStart rest) place marker head := by
  obtain ⟨split, closed⟩ := splitTag_eq_some_iff.mp tagged
  constructor
  · rintro ⟨clear, other, whole, placed⟩
    have same := (List.cons.inj (split.symm.trans whole)).2
    obtain ⟨rfl, rfl⟩ := Utf8.append_cons_unique closed clear same
    exact ⟨rfl, placed⟩
  · rintro ⟨rfl, placed⟩
    exact ⟨closed, rest, split, placed⟩

theorem told_iff (tagged : splitTag line = some (tag, rest))
    (found : cutAtKind (Line.trimStart rest) = some (before, marked)) :
    Told line following (messageAt line following) ↔
      (∃ place marker head, FirstPlace (Line.trimStart rest) place marker head ∧
        SameAs before marked following place marker head) ∨
      ((∀ place marker head, ¬ FirstPlace (Line.trimStart rest) place marker head) ∧
        textOf (kindAndHead marked).2 following = []) := by
  rw [messageAt_eq tagged found]
  by_cases empty : textOf (kindAndHead marked).2 following = []
  · rw [if_pos empty]
    constructor
    · intro silent
      by_cases placed : ∃ place marker head, FirstPlace (Line.trimStart rest) place marker head
      · obtain ⟨place, marker, head, placed⟩ := placed
        refine .inl ⟨place, marker, head, placed, ?_, fun filled => absurd empty filled⟩
        by_contra differ
        apply silent (messageOf tag (kindOf marker) (textOf head following) (locationOf place))
        rw [isMessage_messageOf_iff]
        exact ⟨⟨place, marker, head, (isHeader_iff tagged).mpr ⟨rfl, placed⟩, rfl, rfl, rfl⟩,
          fun none => differ (empty.trans none.symm)⟩
      · exact .inr ⟨fun place marker head here => placed ⟨place, marker, head, here⟩, empty⟩
    · rintro (⟨place, marker, head, placed, same⟩ | ⟨unplaced, -⟩) message told
      · obtain ⟨early, other, late, header, -, text, -⟩ := told.header
        obtain ⟨-, rfl, rfl⟩ := ((isHeader_iff tagged).mp header).2.unique placed
        exact told.filled (text.trans (same.text.symm.trans empty))
      · obtain ⟨early, other, late, header, -⟩ := told.header
        exact unplaced early other late ((isHeader_iff tagged).mp header).2
  · rw [if_neg empty, Told, isMessage_messageOf_iff]
    constructor
    · rintro ⟨⟨place, marker, head, header, kind, text, source⟩, -⟩
      exact .inl ⟨place, marker, head, ((isHeader_iff tagged).mp header).2, text,
        fun _ => ⟨kind, source⟩⟩
    · rintro (⟨place, marker, head, placed, same⟩ | ⟨-, none⟩)
      · obtain ⟨kind, source⟩ := same.rest empty
        exact ⟨⟨place, marker, head, (isHeader_iff tagged).mpr ⟨rfl, placed⟩, kind, same.text,
          source⟩, empty⟩
      · exact absurd none empty

end Told

section Agreement

variable {line tag rest before marked head late : Line} {following : List Line}

/-- A marker with a bracket before it stands behind the tag. -/
theorem marker_position (tagged : splitTag line = some (tag, rest))
    (shown : line = head ++ warningMarker ++ late) (closed : ']' ∈ head) :
    ∃ lead middle, rest = lead ++ Line.trimStart rest ∧
      (∀ letter ∈ lead, Text.isWhitespace letter = true) ∧
      head = '[' :: (tag ++ ']' :: (lead ++ middle)) ∧
      Line.trimStart rest = middle ++ warningMarker ++ late := by
  obtain ⟨split, absent⟩ := splitTag_eq_some_iff.mp tagged
  obtain ⟨early, tail, rfl, clear⟩ := List.eq_append_cons_of_mem closed
  have opened : ']' ∉ '[' :: tag := by
    rw [List.mem_cons, not_or]
    exact ⟨by decide, absent⟩
  have whole : early ++ ']' :: (tail ++ (warningMarker ++ late)) = '[' :: tag ++ ']' :: rest := by
    rw [List.cons_append, ← split, shown]
    simp
  obtain ⟨rfl, behind⟩ := Utf8.append_cons_unique clear opened whole
  obtain ⟨lead, blank, white⟩ := Line.append_trimStart rest
  have same : tail ++ (warningMarker ++ late) = lead ++ Line.trimStart rest := behind.trans blank
  rcases List.append_eq_append_iff.mp same with ⟨between, rfl, inner⟩ | ⟨middle, rfl, inner⟩
  · cases between with
    | nil =>
        refine ⟨tail ++ [], [], blank, white, by simp, ?_⟩
        rw [List.nil_append, inner, List.nil_append]
    | cons letter between =>
        have first : 'W' = letter := (List.cons.inj inner).1
        have wrong := white letter (by simp)
        rw [← first] at wrong
        exact absurd wrong (by decide)
  · refine ⟨lead, middle, blank, white, by simp, ?_⟩
    rw [inner, List.append_assoc]

theorem head_before (cut : Cut (Line.trimStart rest) before marked) :
    ∀ letter ∈ before.head?, Text.isWhitespace letter = false := by
  intro letter first
  have whole := cut.split
  cases before with
  | nil => cases first
  | cons other inner =>
      have here : (Line.trimStart rest).head? = some letter := by
        rw [whole]
        exact first
      exact Line.head_trimStart here

/-- A text that starts with another letter has no white space in front of its location. -/
theorem lead_eq_nil {text lead tail : Line}
    (started : ∀ letter ∈ text.head?, Text.isWhitespace letter = false)
    (split : text = lead ++ tail) (white : ∀ letter ∈ lead, Text.isWhitespace letter = true) :
    lead = [] := by
  cases lead with
  | nil => rfl
  | cons letter inner =>
      have black := started letter (by rw [split]; rfl)
      rw [white letter List.mem_cons_self] at black
      cases black

/-- Two locations around one tag are not the same. -/
theorem location_ne {early middle after : Line} {found : Line × Nat} (absent : ']' ∉ tag)
    (split : '[' :: (tag ++ ']' :: (before ++ middle)) = early ++ '[' :: (tag ++ ']' :: after))
    (beforeStarts : ∀ letter ∈ before.head?, Text.isWhitespace letter = false)
    (earlyStarts : ∀ letter ∈ early.head?, Text.isWhitespace letter = false)
    (first : locationOf before = some found) : locationOf early ≠ some found := by
  intro second
  obtain ⟨lead, rest, shape, white, -⟩ := locationOf_split first
  obtain ⟨other, tail, twin, blank, numeral⟩ := locationOf_split second
  rw [List.append_assoc] at shape twin
  obtain rfl := lead_eq_nil beforeStarts shape white
  obtain rfl := lead_eq_nil earlyStarts twin blank
  rw [List.nil_append] at shape twin
  -- The file is followed by the tag in one reading and stands behind it in the other one.
  have outer : '[' :: tag ++ [']'] ++ found.1 <+: '[' :: (tag ++ ']' :: (before ++ middle)) := by
    rw [shape]
    exact ⟨':' :: rest ++ middle, by simp⟩
  have inner : found.1 ++ (':' :: tail ++ '[' :: tag) <+:
      '[' :: (tag ++ ']' :: (before ++ middle)) := by
    rw [split, twin]
    exact ⟨']' :: after, by simp⟩
  have short : ('[' :: tag ++ [']'] ++ found.1).length ≤
      (found.1 ++ (':' :: tail ++ '[' :: tag)).length := by
    simp only [List.length_append, List.length_cons, List.length_nil]
    omega
  have counts := (List.prefix_of_prefix_length_le outer inner short).sublist.count_le ']'
  have unclosed : List.count ']' tail = 0 := by
    rw [List.count_eq_zero]
    intro member
    have wrong := numeral ']' member
    unfold Numeral Loose at wrong
    exact absurd wrong (by decide)
  simp only [List.count_append, List.count_cons, List.count_nil, List.count_eq_zero.mpr absent,
    unclosed, beq_iff_eq, Char.reduceEq, if_false, if_true] at counts
  omega

theorem trimSource_ne_nil {text : Line} {letter : Char} (member : letter ∈ text)
    (tight : ¬ Loose letter) : trimSource text ≠ [] := by
  intro blank
  obtain ⟨lead, tail, split, front, back⟩ := trimSource_split text
  rw [blank, List.append_nil] at split
  rw [split, List.mem_append] at member
  exact member.elim (fun early => tight (.inl (front letter early))) fun later =>
    tight (back letter later)

theorem not_loose_bracket : ¬ Loose '[' := by
  rw [Loose]
  decide

/-- The tag of the header is the one that the reader of the log takes. -/
theorem Separate.located (separate : Separate tag rest before)
    (tagged : splitTag line = some (tag, rest)) (cut : Cut (Line.trimStart rest) before marked)
    {category source : Line} (located : Located line (some (category, source))) :
    category = tag ∧ source = trimSource before := by
  obtain ⟨head, late, early, after, shows_, firstTag, source_eq⟩ := located
  dsimp only at shows_ firstTag source_eq
  have closed : ']' ∈ head := by
    rw [firstTag.tag.split]
    simp
  obtain ⟨lead, middle, blank, white, rfl, behind⟩ := marker_position tagged shows_.split closed
  obtain ⟨split, absent⟩ := splitTag_eq_some_iff.mp tagged
  obtain ⟨colon, spaceless, apart⟩ := separate
  have isTag : IsTag ('[' :: (tag ++ ']' :: (lead ++ before))) [] tag (lead ++ before) := by
    refine ⟨rfl, absent, colon, spaceless, fun letter last => absurd last (by simp), ?_⟩
    intro letter first
    cases lead with
    | cons other inner =>
        obtain rfl : other = letter := Option.some.inj first
        exact white other List.mem_cons_self
    | nil =>
        rw [List.nil_append] at first blank
        rcases apart with rfl | ⟨other, start, space⟩
        · cases first
        · rw [blank] at start
          rw [Line.head_trimStart start] at space
          cases space
  have same : middle = before := by
    cases cut with
    | error whole first clear => exact absurd behind (clear middle late)
    | @warning head whole first =>
        have shape : line = '[' :: (tag ++ ']' :: (lead ++ before)) ++ warningMarker ++ head := by
          rw [split, blank, whole]
          simp
        have least := first middle late behind
        have length : middle.length = before.length := by
          refine Nat.le_antisymm (Nat.not_lt.mp fun shorter => ?_) least
          refine shows_.first _ head shape ?_ [] tag (lead ++ before) isTag
          simp only [List.length_cons, List.length_append]
          omega
        have rests := behind.symm.trans whole
        rw [List.append_assoc, List.append_assoc] at rests
        exact (List.append_inj rests length).1
  subst same
  have atStart : early = [] := List.length_eq_zero_iff.mp
    (Nat.le_zero.mp (firstTag.first [] tag (lead ++ middle) isTag))
  subst atStart
  obtain ⟨-, rfl, rfl⟩ := firstTag.tag.unique isTag rfl
  refine ⟨rfl, ?_⟩
  rw [source_eq, if_pos (by rfl), trimSource_append white]

/-- A tag of its own that the reader of the log takes is separate. -/
theorem separate_of_located (tagged : splitTag line = some (tag, rest))
    (cut : Cut (Line.trimStart rest) before marked) {source : Line}
    (located : Located line (some (tag, source)))
    (absent : locationOf before = none → trimSource source = [])
    (present : ∀ found, locationOf before = some found →
      (splitLocation (trimSource source)).1 = found.1 ∧
        (splitLocation (trimSource source)).2.1 = some found.2) : Separate tag rest before := by
  obtain ⟨head, late, early, after, shows_, firstTag, source_eq⟩ := located
  dsimp only at shows_ firstTag source_eq
  have closed : ']' ∈ head := by
    rw [firstTag.tag.split]
    simp
  obtain ⟨lead, middle, blank, white, rfl, behind⟩ := marker_position tagged shows_.split closed
  obtain ⟨split, unclosed⟩ := splitTag_eq_some_iff.mp tagged
  refine ⟨firstTag.tag.colon, firstTag.tag.spaceless, ?_⟩
  by_contra apart
  rw [not_or] at apart
  obtain ⟨filled, tight⟩ := apart
  obtain rfl : lead = [] := by
    cases lead with
    | nil => rfl
    | cons letter inner =>
        exact absurd ⟨letter, by rw [blank]; rfl, white letter List.mem_cons_self⟩ tight
  rw [List.nil_append] at shows_ firstTag
  have starts := head_before cut
  obtain ⟨inner, rfl⟩ : before <+: middle := by
    cases cut with
    | error whole first clear => exact absurd behind (clear middle late)
    | warning whole first =>
        have rests := whole.symm.trans behind
        rw [List.append_assoc, List.append_assoc] at rests
        exact List.prefix_of_prefix_length_le ⟨_, rests⟩ ⟨_, rfl⟩ (first middle late behind)
  have shape := firstTag.tag.split
  by_cases atStart : early = []
  · subst atStart
    have same := (List.cons.inj shape).2
    obtain ⟨-, rfl⟩ := Utf8.append_cons_unique unclosed firstTag.tag.closed same
    obtain ⟨letter, others, rfl⟩ := List.exists_cons_of_ne_nil filled
    have space := firstTag.tag.right letter rfl
    rw [starts letter rfl] at space
    cases space
  · obtain ⟨letter, others, rfl⟩ := List.exists_cons_of_ne_nil atStart
    obtain rfl : '[' = letter := (List.cons.inj shape).1
    have member : '[' ∈ '[' :: others := List.mem_cons_self
    rw [if_neg (trimSource_ne_nil member not_loose_bracket)] at source_eq
    subst source_eq
    cases read : locationOf before with
    | none =>
        have empty : place ('[' :: others) = [] := absent read
        exact not_loose_bracket (loose_of_place_eq_nil empty '[' member)
    | some found =>
        obtain ⟨file, number⟩ := present found read
        rw [← place] at file number
        have other : locationOf ('[' :: others) = some found :=
          locationOf_eq_some_iff.mpr ⟨file, number⟩
        refine location_ne unclosed shape starts ?_ read other
        intro letter first
        obtain rfl : '[' = letter := Option.some.inj first
        decide

/-- What the reader of the log takes off a header is the same where the tag is one for it too. -/
theorem agrees_iff (tagged : splitTag line = some (tag, rest))
    (cut : Cut (Line.trimStart rest) before marked) (isPlace : IsPlace before) (kind : String)
    (text : Line) :
    Agrees line (messageOf tag kind text (locationOf before)) ↔
      Separate tag rest before ∨ warningLineFields line = some none := by
  simp only [Agrees, messageOf_tag, messageOf_source]
  constructor
  · intro agrees
    obtain ⟨answer, read⟩ : ∃ answer, warningLineFields line = some answer :=
      ⟨_, warningLineFields_eq line⟩
    have located := located_of_warningLineFields read
    cases answer with
    | none => exact .inr read
    | some fields =>
        obtain ⟨same, absent, present⟩ := agrees fields.1 fields.2 read
        refine .inl (separate_of_located tagged cut ?_ absent present)
        rw [← same]
        exact located
  · rintro (separate | none) category source read
    · obtain ⟨rfl, rfl⟩ := separate.located tagged cut (located_of_warningLineFields read)
      refine ⟨rfl, fun none => ?_, fun found located => ?_⟩
      · refine isPlace.resolve_right fun located => ?_
        rw [none] at located
        cases located
      · rw [← place]
        exact locationOf_eq_some_iff.mp located
    · rw [none] at read
      cases read

end Agreement

section Completeness

variable {line : Line} {following : List Line}

theorem readsLine_iff_of_cut {tag rest before marked : Line}
    (tagged : splitTag line = some (tag, rest))
    (found : cutAtKind (Line.trimStart rest) = some (before, marked)) :
    (Told line following (messageAt line following) ∧
      ∀ message, messageAt line following = some message → Agrees line message) ↔
      ReadsLine line following := by
  have cut := cut_of_cutAtKind found
  have single : ReadsLine line following ↔
      (Foremost before marked ∧ (Blank (kindAndHead marked).2 following ∨
        Plain before ∧ (Separate tag rest before ∨ warningLineFields line = some none))) ∨
      (Blank (kindAndHead marked).2 following ∧
        ∀ early other late, before ++ marked = early ++ other ++ late → IsMarker other →
          ¬ IsPlace early) := by
    constructor
    · intro reads
      exact reads tag rest before marked tagged found
    · intro condition name other early late again cuts
      rw [tagged, Option.some.injEq, Prod.mk.injEq] at again
      obtain ⟨rfl, rfl⟩ := again
      rw [found, Option.some.injEq, Prod.mk.injEq] at cuts
      obtain ⟨rfl, rfl⟩ := cuts
      exact condition
  rw [single, told_iff tagged found, ← textOf_eq_nil_iff, ← cut.split]
  constructor
  · rintro ⟨⟨place, marker, head, placed, same⟩ | ⟨unplaced, empty⟩, agrees⟩
    · obtain ⟨rfl, foremost⟩ := foremost_of_sameAs cut placed same
      refine .inl ⟨foremost, or_iff_not_imp_left.mpr fun filled => ?_⟩
      have source := (same.rest filled).2
      refine ⟨(plain_iff placed.place).mpr source, (agrees_iff tagged cut placed.place
        (kindAndHead marked).1 (textOf (kindAndHead marked).2 following)).mp ?_⟩
      apply agrees
      rw [messageAt_eq tagged found, if_neg filled, source]
    · refine .inr ⟨empty, fun early other late split isMarker isPlace => ?_⟩
      obtain ⟨place, marker, head, placed⟩ := exists_firstPlace split isMarker isPlace
      exact unplaced place marker head placed
  · rintro (⟨foremost, legible⟩ | ⟨empty, unplaced⟩)
    · obtain ⟨marker, head, placed, parts⟩ := foremost.firstPlace cut
      have source (filled : textOf (kindAndHead marked).2 following ≠ []) :
          trailingNumber (cliLocation before) = locationOf before :=
        (plain_iff placed.place).mp (legible.resolve_left filled).1
      refine ⟨.inl ⟨before, marker, head, placed, by rw [parts], fun filled =>
        ⟨by rw [parts], source filled⟩⟩, fun message read => ?_⟩
      rw [messageAt_eq tagged found, Option.ite_none_left_eq_some, Option.some.injEq] at read
      obtain ⟨filled, rfl⟩ := read
      rw [source filled]
      exact (agrees_iff tagged cut placed.place _ _).mpr (legible.resolve_left filled).2
    · refine ⟨.inr ⟨fun place marker head placed => ?_, empty⟩, fun message read => ?_⟩
      · exact unplaced place marker head placed.split placed.marker placed.place
      · rw [messageAt_eq tagged found, if_pos empty] at read
        cases read

/-- One line is read completely where its condition holds. -/
theorem readsLine_iff (line : Line) (following : List Line) :
    (Told line following (messageAt line following) ∧
      ∀ message, messageAt line following = some message → Agrees line message) ↔
      ReadsLine line following := by
  cases tagged : splitTag line with
  | none =>
      have silent : messageAt line following = none := by
        rw [messageAt, readHeader, tagged]
        rfl
      rw [silent]
      constructor
      · intro _ tag rest before marked found
        rw [tagged] at found
        cases found
      · intro _
        refine ⟨fun message told => ?_, nofun⟩
        obtain ⟨place, marker, head, ⟨closed, rest, split, -⟩, -⟩ := told.header
        rw [splitTag_eq_some_iff.mpr ⟨split, closed⟩] at tagged
        cases tagged
  | some parts =>
      obtain ⟨tag, rest⟩ := parts
      cases found : cutAtKind (Line.trimStart rest) with
      | none =>
          have silent : messageAt line following = none := by
            rw [messageAt, readHeader, tagged, Option.bind_some, found]
            rfl
          rw [silent]
          constructor
          · intro _ name other before marked again cut
            rw [tagged, Option.some.injEq, Prod.mk.injEq] at again
            rw [← again.2, found] at cut
            cases cut
          · intro _
            refine ⟨fun message told => ?_, nofun⟩
            obtain ⟨place, marker, head, header, -⟩ := told.header
            have placed := ((isHeader_iff tagged).mp header).2
            exact unmarked_of_cutAtKind found placed.marker place head placed.split
      | some cuts =>
          exact readsLine_iff_of_cut tagged found

/-- The output is read completely where each of its lines meets the condition. -/
theorem readsCompletely_iff (text : String) :
    ReadsCompletely text ↔ ∀ lead line rest, WpPrint.lines text = lead ++ line :: rest →
      ReadsLine line rest := by
  rw [readsCompletely_iff_lines]
  exact forall₄_congr fun lead line rest _ => readsLine_iff line rest

/-- An error that quotes the other marker is told as a warning. -/
theorem not_readsCompletely : ¬ ReadsCompletely "[wp] a.c:3: Error: bad Warning: x" := by
  rw [readsCompletely_iff_lines]
  intro reads
  have lines : WpPrint.lines "[wp] a.c:3: Error: bad Warning: x" =
      ["[wp] a.c:3: Error: bad Warning: x".toList] := by decide
  have here := (readsLine_iff _ []).mp (reads [] _ [] lines)
  rcases here "wp".toList " a.c:3: Error: bad Warning: x".toList "a.c:3: Error: bad ".toList
    "Warning: x".toList (by decide) (by decide) with ⟨foremost, -⟩ | ⟨blank, -⟩
  · apply foremost.first "a.c:3: ".toList " bad Warning: x".toList (by decide) (by decide)
    exact .inr (by decide)
  · exact absurd (blank _ List.mem_cons_self) (by decide)

end Completeness

end FramaCMcp.BatchMessages
