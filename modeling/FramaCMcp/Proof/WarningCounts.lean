/-
This file says when the summary of a parse log counts its warnings.
-/

import FramaCMcp.Proof.ParseDiagnostics

namespace FramaCMcp.ParseDiagnostics

section Printing

/-- A category has a colon, and nothing in it ends its tag. -/
structure Category where
  text : Line
  colon : ':' ∈ text
  closed : ']' ∉ text
  spaceless : ∀ letter ∈ text, Text.isWhitespace letter = false

def Category.name (category : Category) : String := String.ofList category.text

/-- The front end prints a warning with its location on one side of its tag. The location and the
message are any texts. Everything else is no warning. -/
inductive LogLine where
  | tagFirst (category : Category) (location message : Line)
  | locationFirst (category : Category) (location message : Line)
  | other (text : Line)

def Category.printed (category : Category) (rest : Line) : Line :=
  '[' :: (category.text ++ ']' :: ' ' :: rest)

def LogLine.text : LogLine → Line
  | .tagFirst category location message => category.printed (location ++ warningMarker ++ message)
  | .locationFirst category location message =>
      location ++ [' '] ++ category.printed (warningMarker ++ message)
  | .other text => text

/-- A warning carries the tag of its category. -/
def LogLine.category : LogLine → Option String
  | .tagFirst category _ _ => some category.name
  | .locationFirst category _ _ => some category.name
  | .other _ => none

end Printing

section Windows

open Classical in
/-- These lines look like warnings of the category and are none. -/
noncomputable def feigned (window : List LogLine) (key : String) : Nat :=
  window.countP fun line => decide (Shows line.text key.toList ∧ line.category ≠ some key)

open Classical in
/-- These warnings of the category look like something else. -/
noncomputable def hidden (window : List LogLine) (key : String) : Nat :=
  window.countP fun line => decide (line.category = some key ∧ ¬ Shows line.text key.toList)

open Classical in
/-- As many lines look like warnings of the category as there are ones where as many are feigned as
are hidden. -/
theorem countP_shows_eq_iff (window : List LogLine) (key : String) :
    (window.countP fun line => decide (Shows line.text key.toList)) =
        (window.countP fun line => line.category = some key) ↔
      feigned window key = hidden window key := by
  have balance : (window.countP fun line => decide (Shows line.text key.toList)) +
      hidden window key = (window.countP fun line => line.category = some key) +
        feigned window key := by
    rw [feigned, hidden]
    induction window with
    | nil => rfl
    | cons line rest ih =>
        by_cases shown : Shows line.text key.toList
        · by_cases own : line.category = some key
          · simp only [List.countP_cons, shown, own, decide_true, ite_true, not_true_eq_false,
              and_false, decide_false, ne_eq] at ih ⊢
            omega
          · simp [shown, own] at ih ⊢
            omega
        · by_cases own : line.category = some key
          · simp [shown, own] at ih ⊢
            omega
          · simp [shown, own] at ih ⊢
            omega
  constructor
  · intro same
    omega
  · intro same
    omega

end Windows

section Results

/-- The summary counts the warnings of each category and reports unknown attributes. -/
structure TellsAll (summary : Json) (window : List LogLine) : Prop where
  sites : ∀ key ≠ attrsUnknown,
    countOf summary key = window.countP fun line => line.category = some key
  attributes : (∃ line ∈ window, line.category = some attrsUnknown) →
    0 < countOf summary attrsUnknown

variable (cwd : OsPath) (log : List UInt8) (stop : Nat) (window : List LogLine)

/-- The locations that are kept can be written. -/
def AllPlaced (lines : List Line) : Prop :=
  ∀ key, ∀ source ∈ (sourcesOf key lines).take astDiagnosticSample, Placed cwd source

open Classical in
theorem tellsAll_iff {categories : OrderedMap String (Sample Json)} {lines : List Line}
    (tallied : Tallied (eventsOf cwd lines) categories)
    (printed : lines = window.map LogLine.text) :
    TellsAll (summaryOf categories) window ↔
      (∀ key ≠ attrsUnknown, feigned window key = hidden window key) ∧
      ((∃ line ∈ window, line.category = some attrsUnknown) →
        ∃ line ∈ window, Tells line.text) := by
  have sites (key : String) (other : key ≠ attrsUnknown) :
      countOf (summaryOf categories) key =
        (window.countP fun line => line.category = some key) ↔
      feigned window key = hidden window key := by
    rw [countOf_summaryOf tallied, length_sitesOf cwd other, printed, List.countP_map]
    exact countP_shows_eq_iff window key
  have attributes : 0 < countOf (summaryOf categories) attrsUnknown ↔
      ∃ line ∈ window, Tells line.text := by
    rw [countOf_summaryOf tallied, attributes_counted_iff, printed]
    simp
  constructor
  · intro tells
    exact ⟨fun key other => (sites key other).mp (tells.sites key other),
      fun carried => attributes.mp (tells.attributes carried)⟩
  · rintro ⟨balanced, told⟩
    exact ⟨fun key other => (sites key other).mpr (balanced key other),
      fun carried => attributes.mpr (told carried)⟩

/-- The summary tells all warnings of the window where its locations can be written, as many
warnings are feigned as hidden, and a line names an attribute. -/
theorem astParseDiagnostics_tellsAll_iff (printed : linesOf log stop = window.map LogLine.text) :
    (∃ summary, astParseDiagnostics log stop cwd = some summary ∧ TellsAll summary window) ↔
      AllPlaced cwd (linesOf log stop) ∧
      (∀ key ≠ attrsUnknown, feigned window key = hidden window key) ∧
      ((∃ line ∈ window, line.category = some attrsUnknown) →
        ∃ line ∈ window, Tells line.text) := by
  rcases astParseDiagnostics_cases cwd log stop with
    ⟨categories, tallied, answer⟩ | ⟨failed, key, unplaced⟩
  · have placed : AllPlaced cwd (linesOf log stop) := by
      intro key source member
      by_contra missing
      exact (tallied key).none_notMem ((none_mem_take_iff cwd key _).mpr ⟨source, member, missing⟩)
    rw [answer, ← tellsAll_iff cwd window tallied printed]
    constructor
    · rintro ⟨summary, same, tells⟩
      exact ⟨placed, Option.some.inj same ▸ tells⟩
    · rintro ⟨_, tells⟩
      exact ⟨_, rfl, tells⟩
  · obtain ⟨source, member, missing⟩ := (none_mem_take_iff cwd key _).mp unplaced
    rw [failed]
    constructor
    · rintro ⟨summary, none, _⟩
      cases none
    · rintro ⟨placed, _⟩
      exact absurd (placed key source member) missing

end Results

section Instances

def ascii (text : String) : List UInt8 := text.toList.map fun letter => UInt8.ofNat letter.toNat

def attributeCategory : Category where
  text := "kernel:attrs:unknown".toList
  colon := by decide
  closed := by decide
  spaceless := by
    have plain : "kernel:attrs:unknown".toList.all (fun letter => !Text.isWhitespace letter) =
        true := by decide
    intro letter member
    exact Bool.not_eq_true' _ |>.mp (List.all_eq_true.mp plain letter member)

/-- The text of the warning is wrapped between two of its words. -/
def wrappedLog : List UInt8 :=
  ascii "[kernel:attrs:unknown] a.c:1: Warning: Ignoring unknown\n  attribute: q\n"

def wrappedWindow : List LogLine :=
  [.tagFirst attributeCategory "a.c:1: ".toList " Ignoring unknown".toList,
    .other "  attribute: q".toList]

theorem wrappedWindow_printed : linesOf wrappedLog 100 = wrappedWindow.map LogLine.text := by
  decide +kernel

theorem astParseDiagnostics_tellsAll_iff_wrapped :
    (∃ summary, astParseDiagnostics wrappedLog 100 (.text "/work") = some summary ∧
      TellsAll summary wrappedWindow) ↔
      AllPlaced (.text "/work") (linesOf wrappedLog 100) ∧
      (∀ key ≠ attrsUnknown, feigned wrappedWindow key = hidden wrappedWindow key) ∧
      ((∃ line ∈ wrappedWindow, line.category = some attrsUnknown) →
        ∃ line ∈ wrappedWindow, Tells line.text) :=
  astParseDiagnostics_tellsAll_iff (.text "/work") wrappedLog 100 wrappedWindow
    wrappedWindow_printed

/-- The name of the attribute stands on a line without the whole text. -/
theorem not_astParseDiagnostics_tellsAll :
    ¬ ∀ (cwd : OsPath) (log : List UInt8) (stop : Nat) (window : List LogLine),
      linesOf log stop = window.map LogLine.text →
      ∃ summary, astParseDiagnostics log stop cwd = some summary ∧ TellsAll summary window := by
  intro tells
  obtain ⟨summary, answer, all⟩ :=
    tells (.text "/work") wrappedLog 100 wrappedWindow wrappedWindow_printed
  have counted := all.attributes ⟨_, List.mem_cons_self, by decide⟩
  rcases astParseDiagnostics_cases (.text "/work") wrappedLog 100 with
    ⟨categories, tallied, same⟩ | ⟨failed, _⟩
  · obtain rfl := Option.some.inj (answer.symm.trans same)
    rw [countOf_summaryOf tallied, attributes_counted_iff, wrappedWindow_printed] at counted
    obtain ⟨line, member, told⟩ := counted
    have broken : ∀ line ∈ wrappedWindow.map LogLine.text,
        (Utf8.splitOnce attributePrefix line).isSome = false := by decide
    rw [tells_iff, broken line member] at told
    cases told.1
  · rw [failed] at answer
    cases answer

end Instances

end FramaCMcp.ParseDiagnostics
