/-
This file shows that the range scan cuts no letter and what it reads at each occurrence.
-/

import FramaCMcp.Construction.ResultRange

namespace FramaCMcp.ResultRange

theorem sliced_some (part : Line) : sliced (some part) = .ok part := rfl

section Literals

/-- A text ends in digits, and a minus before them can belong to them. -/
def literalParts (head : Line) : Line × Line :=
  let lead := (head.reverse.dropWhile Char.isDigit).reverse
  let digits := (head.reverse.takeWhile Char.isDigit).reverse
  if lead.getLast? = some '-' ∧
      (lead.dropLast.getLast?.all fun letter => !letter.isAlphanum && letter != ')') = true then
    (lead.dropLast, '-' :: digits)
  else (lead, digits)

def standsAlone (lead : Line) : Bool :=
  (Line.trimEnd lead).getLast?.all fun letter => !endsOperand letter

/-- This is the literal at the end of a text. -/
def literalBefore (before : Line) : Option Int :=
  let parts := literalParts (Line.trimEnd before)
  if standsAlone parts.1 then parseI64 parts.2 else none

/-- This is the literal at the start of a text. -/
def literalAfter (after : Line) : Option Int := parseI64 (leadingDigits (Line.trimStart after))

theorem lead_append_digits (head : Line) :
    (head.reverse.dropWhile Char.isDigit).reverse ++ (head.reverse.takeWhile Char.isDigit).reverse =
      head := by
  rw [← List.reverse_append, List.takeWhile_append_dropWhile, List.reverse_reverse]

theorem literalParts_append (head : Line) :
    (literalParts head).1 ++ (literalParts head).2 = head := by
  rw [literalParts]
  split_ifs with glued
  · have filled : (head.reverse.dropWhile Char.isDigit).reverse ≠ [] := by
      intro empty
      rw [empty] at glued
      cases glued.1
    have last := List.getLast?_eq_some_getLast filled ▸ glued.1
    conv_rhs => rw [← lead_append_digits head, ← List.dropLast_append_getLast filled]
    rw [Option.some.inj last, List.append_assoc]
    rfl
  · exact lead_append_digits head

theorem rfindOther_nil {head : Line} (digits : (head.reverse.dropWhile Char.isDigit).reverse = []) :
    rfindOther head = none := by
  have whole := lead_append_digits head
  rw [digits, List.nil_append] at whole
  rw [rfindOther, if_pos]
  rw [← List.length_reverse, whole]

theorem rfindOther_concat {head lead : Line} {letter : Char}
    (split : (head.reverse.dropWhile Char.isDigit).reverse = lead ++ [letter]) :
    rfindOther head = some (Utf8.size lead) := by
  have whole := lead_append_digits head
  have length := congrArg List.length whole
  rw [split] at whole length
  simp only [List.length_append, List.length_reverse, List.length_singleton] at length
  rw [rfindOther, if_neg (by omega)]
  congr 2
  rw [show head.length - (head.reverse.takeWhile Char.isDigit).length - 1 = lead.length by omega]
  conv_lhs => rw [← whole, List.append_assoc, List.take_left]

theorem literalStart_eq (head : Line) :
    literalStart head = .ok (Utf8.size (literalParts head).1) := by
  rcases List.eq_nil_or_concat' (head.reverse.dropWhile Char.isDigit).reverse with
    empty | ⟨lead, letter, split⟩
  · rw [literalStart, rfindOther_nil empty, literalParts, empty, if_neg (by rintro ⟨last, _⟩; cases last)]
    rfl
  · have whole := lead_append_digits head
    rw [split, List.append_assoc, List.singleton_append] at whole
    rw [literalStart, rfindOther_concat split, literalParts, split]
    dsimp only
    conv_lhs => rw [← whole]
    rw [Utf8.dropTo_append, Utf8.takeTo_append, sliced_some, sliced_some]
    simp only [bind, Except.bind, List.getLast?_concat, List.dropLast_concat]
    by_cases glued : some letter = some '-' ∧
        (lead.getLast?.all fun letter => !letter.isAlphanum && letter != ')') = true
    · rw [if_pos glued, if_pos (by rw [List.head?_cons]; exact glued)]
      rfl
    · rw [if_neg glued, if_neg (by rw [List.head?_cons]; exact glued), Utf8.size_append,
        Utf8.size_cons, Utf8.size_nil, Nat.add_zero]
      rfl

theorem literalStandsAlone_eq (lead rest : Line) :
    literalStandsAlone (lead ++ rest) (Utf8.size lead) = .ok (standsAlone lead) := by
  rw [literalStandsAlone, Utf8.takeTo_append, sliced_some]
  rfl

/-- The literal before an offset is the one at the end of the text before it. -/
theorem intLiteralBefore_eq (before after : Line) :
    intLiteralBefore (before ++ after) (Utf8.size before) = .ok (literalBefore before) := by
  have whole := literalParts_append (Line.trimEnd before)
  have alone := literalStandsAlone_eq (literalParts (Line.trimEnd before)).1
    (literalParts (Line.trimEnd before)).2
  have dropped := Utf8.dropTo_append (literalParts (Line.trimEnd before)).1
    (literalParts (Line.trimEnd before)).2
  rw [whole] at alone dropped
  rw [intLiteralBefore, Utf8.takeTo_append, sliced_some, literalBefore]
  simp only [bind, Except.bind, pure, Except.pure, literalStart_eq, alone, dropped, sliced_some]
  split_ifs <;> rfl

theorem leadingDigits_prefix (tail : Line) : ∃ rest, tail = leadingDigits tail ++ rest := by
  rw [leadingDigits.eq_def]
  split
  · rename_i rest
    exact ⟨rest.dropWhile Char.isDigit, by rw [List.cons_append, List.takeWhile_append_dropWhile]⟩
  · exact ⟨tail.dropWhile Char.isDigit, by rw [List.takeWhile_append_dropWhile]⟩

theorem intLiteralAfter_eq (before after : Line) :
    intLiteralAfter (before ++ after) (Utf8.size before) = .ok (literalAfter after) := by
  obtain ⟨rest, whole⟩ := leadingDigits_prefix (Line.trimStart after)
  have taken := Utf8.takeTo_append (leadingDigits (Line.trimStart after)) rest
  rw [← whole] at taken
  rw [intLiteralAfter, Utf8.dropTo_append, sliced_some, literalAfter]
  simp only [bind, Except.bind, pure, Except.pure, taken, sliced_some]

end Literals

section Scan

theorem resultWord_once : resultWord = '\\' :: "result".toList ∧ '\\' ∉ "result".toList :=
  ⟨rfl, by decide⟩

/-- These are the parts around the occurrences of the word. -/
def splits (text : Line) : List (Line × Line) :=
  Utf8.splits resultWord (text.length + 1) [] text

theorem mem_splits {text before after : Line} :
    (before, after) ∈ splits text ↔ text = before ++ resultWord ++ after := by
  rw [splits, resultWord_once.1, Utf8.mem_splits resultWord_once.2 (Nat.lt_succ_self _)]
  simp

variable {State : Type} {text : Line} {body : Nat → Nat → State → Except Fault State}
  {step : State → Line × Line → Except Fault State}

/-- The body at the offsets is a step over the parts. -/
def Steps (text : Line) (body : Nat → Nat → State → Except Fault State)
    (step : State → Line × Line → Except Fault State) : Prop :=
  ∀ before after state, text = before ++ resultWord ++ after →
    body (Utf8.size before) (Utf8.size (before ++ resultWord)) state = step state (before, after)

theorem eachResult_from (steps : Steps text body step) {fuel : Nat} {passed rest : Line}
    (whole : text = passed ++ rest) (enough : rest.length < fuel) (state : State) :
    eachResult text body fuel (Utf8.size passed) state =
      (Utf8.splits resultWord fuel passed rest).foldlM step state := by
  induction fuel generalizing passed rest state with
  | zero => omega
  | succ fuel ih =>
      rw [eachResult, Utf8.splits]
      conv_lhs => rw [whole, Utf8.dropTo_append, sliced_some, ← whole]
      simp only [bind, Except.bind, Utf8.find]
      cases found : Utf8.splitOnce resultWord rest with
      | none => rfl
      | some parts =>
          obtain ⟨before, after⟩ := parts
          have inRest := (Utf8.splitOnce_some found).1
          have split : text = passed ++ before ++ resultWord ++ after := by
            rw [whole, inRest]
            simp
          have shorter : after.length < fuel := by
            have length := congrArg List.length inRest
            rw [List.length_append, List.length_append] at length
            have filled : resultWord.length = 7 := rfl
            omega
          have stop : Utf8.size passed + Utf8.size before + Utf8.size resultWord =
              Utf8.size (passed ++ before ++ resultWord) := by
            rw [Utf8.size_append, Utf8.size_append]
          simp only [Option.map_some]
          rw [List.foldlM_cons, ← steps (passed ++ before) after state split, stop,
            ← Utf8.size_append passed before]
          simp only [bind, Except.bind]
          cases body (Utf8.size (passed ++ before)) (Utf8.size (passed ++ before ++ resultWord)) state with
          | error fault => rfl
          | ok later => exact ih split shorter later

/-- The scan takes one step at each occurrence, in their order. -/
theorem eachResult_eq (steps : Steps text body step) (state : State) :
    eachResult text body (text.length + 1) 0 state = (splits text).foldlM step state :=
  eachResult_from steps (show text = [] ++ text from rfl) (Nat.lt_succ_self _) state

end Scan

section Readings

/-- A literal next to the result bounds it from one side. -/
structure Reading where
  literal : Int
  strictBy : Int
  isLow : Bool
  deriving DecidableEq

def Reading.value (reading : Reading) : Int :=
  if reading.isLow then reading.literal + reading.strictBy else reading.literal - reading.strictBy

/-- The operator stands between a literal and the result. -/
def leftLiteral (comparison : Comparison) (before : Line) : Option Int :=
  let lhs := Line.trimEnd before
  if comparison.operator.isSuffixOf lhs then
    literalBefore (lhs.take (lhs.length - comparison.operator.length))
  else none

/-- The operator stands between the result and a literal. -/
def rightLiteral (comparison : Comparison) (after : Line) : Option Int :=
  let rhs := Line.trimStart after
  let strictPrefixOfLax := Utf8.size comparison.operator == 1 && (rhs.drop 1).head? == some '='
  if comparison.operator.isPrefixOf rhs && !strictPrefixOfLax then
    literalAfter (rhs.drop comparison.operator.length)
  else none

def readingsOf (parts : Line × Line) (comparison : Comparison) : List Reading :=
  ((leftLiteral comparison parts.1).map fun literal =>
      ⟨literal, comparison.strictBy, comparison.leftIsLow⟩).toList ++
    ((rightLiteral comparison parts.2).map fun literal =>
      ⟨literal, comparison.strictBy, !comparison.leftIsLow⟩).toList

def readingsAt (parts : Line × Line) : List Reading := comparisons.flatMap (readingsOf parts)

/-- These are all the bounds that the scan finds, in its order. -/
def readings (texts : List Line) : List Reading :=
  texts.flatMap fun text => (splits text).flatMap readingsAt

def narrow (bounds : Bounds) (reading : Reading) : Except Fault Bounds :=
  tighten bounds reading.literal reading.strictBy reading.isLow

theorem tightenAny_eq (bounds : Bounds) (literal : Option Int) (strictBy : Int) (isLow : Bool) :
    tightenAny bounds literal strictBy isLow =
      ((literal.map fun literal => (⟨literal, strictBy, isLow⟩ : Reading)).toList).foldlM narrow
        bounds := by
  cases literal with
  | none => rfl
  | some literal =>
      rw [Option.map_some, Option.toList_some, List.foldlM_cons]
      change tighten bounds literal strictBy isLow = _ >>= pure
      rw [bind_pure]
      rfl

theorem readIf_before (operator : Line) {text before after : Line} (whole : text = before ++ after) :
    readIf (operator.isSuffixOf (Line.trimEnd before))
        (intLiteralBefore text (Utf8.size (Line.trimEnd before) - Utf8.size operator)) =
      .ok (if operator.isSuffixOf (Line.trimEnd before) then
        literalBefore ((Line.trimEnd before).take
          ((Line.trimEnd before).length - operator.length)) else none) := by
  rw [readIf]
  by_cases suffix : operator.isSuffixOf (Line.trimEnd before) = true
  · obtain ⟨lead, split⟩ := List.isSuffixOf_iff_suffix.mp suffix
    obtain ⟨tail, (trimmed : before = Line.trimEnd before ++ tail), -⟩ :=
      Line.append_reverse_dropWhile Text.isWhitespace before
    have length : (Line.trimEnd before).length - operator.length = lead.length := by
      rw [← split, List.length_append]
      omega
    have size : Utf8.size (Line.trimEnd before) - Utf8.size operator = Utf8.size lead := by
      rw [← split, Utf8.size_append]
      omega
    have shape : text = lead ++ (operator ++ (tail ++ after)) := by
      rw [whole]
      conv_lhs => rw [trimmed, ← split]
      simp
    rw [if_pos suffix, if_pos suffix, length, size, ← split, List.take_left, shape,
      intLiteralBefore_eq]
  · rw [if_neg suffix, if_neg suffix]

theorem readIf_after {operator text before after : Line} (whole : text = before ++ after)
    {found : Bool} (lead : found = true → operator <+: Line.trimStart after) :
    readIf found (intLiteralAfter text
        (Utf8.size before + (Utf8.size after - Utf8.size (Line.trimStart after)) +
          Utf8.size operator)) =
      .ok (if found then literalAfter ((Line.trimStart after).drop operator.length) else none) := by
  rw [readIf]
  by_cases there : found = true
  · obtain ⟨rest, split⟩ := lead there
    obtain ⟨space, trimmed, -⟩ := Line.append_trimStart after
    have size : Utf8.size after - Utf8.size (Line.trimStart after) = Utf8.size space := by
      conv_lhs => rw [trimmed, Utf8.size_append]
      conv_lhs => rw [← trimmed]
      omega
    have shape : text = before ++ space ++ operator ++ rest := by
      rw [whole]
      conv_lhs => rw [trimmed, ← split]
      simp
    rw [if_pos there, if_pos there, size, ← Utf8.size_append, ← Utf8.size_append, ← split,
      List.drop_left, shape, intLiteralAfter_eq]
  · rw [if_neg there, if_neg there]

/-- The scan narrows the bounds by the literals on both sides of the word. -/
theorem compareAt_eq {text before after : Line} (whole : text = before ++ resultWord ++ after)
    (bounds : Bounds) (comparison : Comparison) :
    compareAt text (Utf8.size before) (Utf8.size (before ++ resultWord)) bounds comparison =
      (readingsOf (before, after) comparison).foldlM narrow bounds := by
  have lead : Utf8.takeTo text (Utf8.size before) = some before := by
    rw [whole, List.append_assoc, Utf8.takeTo_append]
  have behind : Utf8.dropTo text (Utf8.size (before ++ resultWord)) = some after := by
    rw [whole, Utf8.dropTo_append]
  have starts (found : (comparison.operator.isPrefixOf (Line.trimStart after) &&
      !(Utf8.size comparison.operator == 1 &&
        ((Line.trimStart after).drop 1).head? == some '=')) = true) :
      comparison.operator <+: Line.trimStart after :=
    List.isPrefixOf_iff_prefix.mp (Bool.and_eq_true _ _ |>.mp found).1
  rw [compareAt, lead, behind]
  simp only [sliced_some, bind, Except.bind,
    readIf_before _ (whole.trans (List.append_assoc ..)), readIf_after whole starts, tightenAny_eq]
  rw [readingsOf, List.foldlM_append]
  rfl

theorem foldlM_flatMap {Item Part State : Type} (step : State → Part → Except Fault State)
    (parts : Item → List Part) (items : List Item) (state : State) :
    (items.flatMap parts).foldlM step state =
      items.foldlM (fun state item => (parts item).foldlM step state) state := by
  induction items generalizing state with
  | nil => rfl
  | cons item items ih =>
      rw [List.flatMap_cons, List.foldlM_append, List.foldlM_cons]
      exact congrArg (_ >>= ·) (funext ih)

theorem scanRange_eq (texts : List Line) : scanRange texts = (readings texts).foldlM narrow {} := by
  rw [scanRange, readings, foldlM_flatMap]
  congr 1
  funext bounds text
  rw [foldlM_flatMap]
  refine eachResult_eq (fun before after bounds whole => ?_) bounds
  rw [readingsAt, foldlM_flatMap]
  congr 1
  funext bounds comparison
  exact compareAt_eq whole bounds comparison

theorem mem_readings {texts : List Line} {reading : Reading} :
    reading ∈ readings texts ↔ ∃ before after, before ++ resultWord ++ after ∈ texts ∧
      reading ∈ readingsAt (before, after) := by
  rw [readings, List.mem_flatMap]
  constructor
  · rintro ⟨text, member, inside⟩
    obtain ⟨⟨before, after⟩, split, read⟩ := List.mem_flatMap.mp inside
    exact ⟨before, after, mem_splits.mp split ▸ member, read⟩
  · rintro ⟨before, after, member, read⟩
    exact ⟨_, member, List.mem_flatMap.mpr ⟨(before, after), mem_splits.mpr rfl, read⟩⟩

end Readings

section Determined

/-- These literals are compared with the result by an equality. -/
def equalLiterals (parts : Line × Line) : List Int :=
  let rhs := Line.trimStart parts.2
  let lhs := Line.trimEnd parts.1
  (if ['=', '='].isPrefixOf rhs && (rhs.drop 2).head? != some '>' then literalAfter (rhs.drop 2)
    else none).toList ++
  (if ['=', '='].isSuffixOf lhs then literalBefore (lhs.take (lhs.length - 2)) else none).toList

/-- Only the texts with an equivalence are read. -/
def determinedValues (texts : List Line) : List Int :=
  (texts.filter fun text => (Utf8.find "<==>".toList text).isSome).flatMap fun text =>
    (splits text).flatMap equalLiterals

theorem addAll_append (set : OrderedSet Int) (values others : List Int) :
    set.addAll (values ++ others) = (set.addAll values).addAll others := List.foldl_append ..

theorem equalAt_eq {text before after : Line} (whole : text = before ++ resultWord ++ after)
    (values : OrderedSet Int) :
    equalAt text (Utf8.size before) (Utf8.size (before ++ resultWord)) values =
      .ok (values.addAll (equalLiterals (before, after))) := by
  have lead : Utf8.takeTo text (Utf8.size before) = some before := by
    rw [whole, List.append_assoc, Utf8.takeTo_append]
  have behind : Utf8.dropTo text (Utf8.size (before ++ resultWord)) = some after := by
    rw [whole, Utf8.dropTo_append]
  have starts (found : (['=', '='].isPrefixOf (Line.trimStart after) &&
      ((Line.trimStart after).drop 2).head? != some '>') = true) :
      ['=', '='] <+: Line.trimStart after :=
    List.isPrefixOf_iff_prefix.mp (Bool.and_eq_true _ _ |>.mp found).1
  have two : Utf8.size ['=', '='] = 2 := rfl
  have left := readIf_before ['=', '='] (whole.trans (List.append_assoc ..))
  have right := readIf_after whole starts
  rw [two] at left right
  rw [equalAt, lead, behind]
  simp only [sliced_some, bind, Except.bind, left, right]
  rw [equalLiterals, addAll_append]
  rfl

theorem foldlM_addAll {Item : Type} (values : Item → List Int) (items : List Item)
    (set : OrderedSet Int) :
    items.foldlM (fun set item => (.ok (set.addAll (values item)) : Except Fault (OrderedSet Int)))
        set = .ok (set.addAll (items.flatMap values)) := by
  induction items generalizing set with
  | nil => rfl
  | cons item items ih =>
      rw [List.foldlM_cons, List.flatMap_cons, addAll_append]
      exact ih _

/-- The second scan always ends with the literals that it read. -/
theorem resultValuesDetermined_eq (texts : List Line) :
    resultValuesDetermined texts =
      .ok (OrderedSet.addAll OrderedMap.empty (determinedValues texts)) := by
  have scan (text : Line) (values : OrderedSet Int) :
      eachResult text (equalAt text) (text.length + 1) 0 values =
        .ok (values.addAll ((splits text).flatMap equalLiterals)) := by
    have steps : Steps text (equalAt text) fun values parts =>
        .ok (values.addAll (equalLiterals parts)) := fun before after values whole =>
      equalAt_eq whole values
    rw [eachResult_eq steps]
    exact foldlM_addAll equalLiterals _ _
  have filtered (texts : List Line) (values : OrderedSet Int) :
      texts.foldlM (fun values text =>
        if (Utf8.find "<==>".toList text).isSome then
          (.ok (values.addAll ((splits text).flatMap equalLiterals)) : Except Fault (OrderedSet Int))
        else .ok values) values = .ok (values.addAll (determinedValues texts)) := by
    induction texts generalizing values with
    | nil => rfl
    | cons text texts ih =>
        rw [List.foldlM_cons, determinedValues, List.filter_cons]
        split_ifs with equivalent
        · rw [List.flatMap_cons, addAll_append]
          exact ih _
        · exact ih _
  rw [resultValuesDetermined]
  simp only [scan]
  exact filtered texts _

end Determined

end FramaCMcp.ResultRange
