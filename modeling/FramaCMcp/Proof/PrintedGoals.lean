/-
This file shows that each goal line of a report gives one block with the lines that follow it.
-/

import Mathlib.Data.List.Infix
import FramaCMcp.Construction.WpPrint

namespace FramaCMcp.WpPrint

section Report

def isHeading (line : Line) : Bool := (stripLead (Line.trim line) "Function ").isSome

def isGoal (line : Line) : Bool := !isHeading line && (stripLead (Line.trim line) "Goal ").isSome

/-- The line begins neither a function nor a goal. -/
def isInside (line : Line) : Bool := !isHeading line && !isGoal line

def headingName (line : Line) : Line :=
  Line.trim (beforeText ((stripLead (Line.trim line) "Function ").getD []) " with behavior ")

/-- This is the function of the last heading. -/
def headingAbove (before : List Line) : Line :=
  ((before.filter isHeading).getLast?.map headingName).getD []

/-- These lines carry something. -/
def isContent (line : Line) : Bool := !isSeparator (Line.trim line)

/-- The title takes the lines up to its colon, and the rest is left. -/
def closeTitle : Line → List Line → Line × List Line
  | title, [] => (title, [])
  | title, line :: rest =>
      if (extendTitle title (Line.trim line)).2 then
        ((extendTitle title (Line.trim line)).1, rest)
      else closeTitle (extendTitle title (Line.trim line)).1 rest

def titledBlock (function title : Line) (segment : List Line) : Block where
  function := function
  title := (closeTitle title segment).1
  body := (closeTitle title segment).2.filter isContent

/-- A goal comes with the lines up to the next goal or heading. -/
def goalBlock (function line : Line) (segment : List Line) : Block :=
  let trimmed := Line.trim line
  let title := Line.trim (trimColons ((stripLead trimmed "Goal ").getD []))
  if trimmed.getLast? = some ':' then
    { function := function, title := title, body := segment.filter isContent }
  else titledBlock function title segment

def goalsFrom (function : Line) : List Line → List Block
  | [] => []
  | line :: rest =>
      if isHeading line then goalsFrom (headingName line) rest
      else if isGoal line then
        goalBlock function line (rest.takeWhile isInside) :: goalsFrom function rest
      else goalsFrom function rest

end Report

section Scan

/-- The open block ends with this segment. -/
def Scan.close (scan : Scan) (segment : List Line) : List Block :=
  match scan.pending with
  | some (function, title) => [titledBlock function title segment]
  | none =>
      (scan.current.map fun block =>
        { block with body := block.body ++ segment.filter isContent }).toList

/-- A title and a body are not open together. -/
def Scan.Single (scan : Scan) : Prop := scan.pending = none ∨ scan.current = none

theorem Scan.finish_eq {scan : Scan} (single : scan.Single) :
    scan.finish = scan.blocks ++ scan.close [] := by
  obtain ⟨blocks, function, current, pending⟩ := scan
  rcases single with rfl | rfl
  · cases current <;> simp [finish, close]
  · cases pending <;> simp [finish, close, titledBlock, closeTitle]

theorem Scan.flush_blocks {scan : Scan} : scan.flush.blocks = scan.blocks ++ scan.close [] := by
  obtain ⟨blocks, function, current, pending⟩ := scan
  cases pending <;> cases current <;> simp [flush, close, titledBlock, closeTitle]

variable {scan : Scan} {line : Line}

theorem Scan.step_heading (heading : isHeading line = true) :
    scan.step line = { scan.flush with function := headingName line } := by
  obtain ⟨rest, found⟩ := Option.isSome_iff_exists.mp heading
  rw [step, headingName, found]
  rfl

theorem Scan.step_goal (scan : Scan) (goal : isGoal line = true) :
    (scan.step line).blocks = scan.blocks ++ scan.close [] ∧
      (scan.step line).function = scan.function ∧ (scan.step line).Single ∧
      ∀ segment, (scan.step line).close segment = [goalBlock scan.function line segment] := by
  rw [isGoal, Bool.and_eq_true, Bool.not_eq_true', isHeading, Option.isSome_eq_false_iff,
    Option.isNone_iff_eq_none] at goal
  obtain ⟨rest, found⟩ := Option.isSome_iff_exists.mp goal.2
  simp only [step, goal.1, found]
  split_ifs with colon
  · refine ⟨flush_blocks, rfl, Or.inl rfl, fun segment => ?_⟩
    simp only [goalBlock, found, if_pos colon, close, flush, Option.getD_some, Option.map_some,
      Option.toList_some, List.nil_append]
  · refine ⟨flush_blocks, rfl, Or.inr rfl, fun segment => ?_⟩
    simp only [goalBlock, found, if_neg colon, close, Option.getD_some]

theorem Scan.step_inside (inside : isInside line = true) (single : scan.Single) :
    (scan.step line).blocks = scan.blocks ∧ (scan.step line).function = scan.function ∧
      (scan.step line).Single ∧
      ∀ segment, (scan.step line).close segment = scan.close (line :: segment) := by
  rw [isInside, Bool.and_eq_true, Bool.not_eq_true', Bool.not_eq_true'] at inside
  obtain ⟨heading, goal⟩ := inside
  rw [isGoal, heading, Bool.not_false, Bool.true_and, Option.isSome_eq_false_iff,
    Option.isNone_iff_eq_none] at goal
  rw [isHeading, Option.isSome_eq_false_iff, Option.isNone_iff_eq_none] at heading
  obtain ⟨blocks, function, current, pending⟩ := scan
  cases pending with
  | some open_ =>
      obtain ⟨name, title⟩ := open_
      obtain rfl : current = none := single.resolve_left (Option.some_ne_none _)
      simp only [step, heading, goal]
      split_ifs with ends
      · refine ⟨rfl, rfl, Or.inl rfl, fun segment => ?_⟩
        simp [close, titledBlock, closeTitle, ends]
      · refine ⟨rfl, rfl, Or.inr rfl, fun segment => ?_⟩
        simp [close, titledBlock, closeTitle, ends]
  | none =>
      simp only [step, heading, goal]
      split_ifs with separator
      · refine ⟨rfl, rfl, Or.inl rfl, fun segment => ?_⟩
        simp [close, isContent, separator]
      · refine ⟨rfl, rfl, Or.inl rfl, fun segment => ?_⟩
        cases current <;> simp [close, isContent, separator]

/-- The scan ends with the blocks so far, the open block and one block for each goal. -/
theorem Scan.finish_foldl (lines : List Line) (single : scan.Single) :
    (lines.foldl step scan).finish =
      scan.blocks ++ scan.close (lines.takeWhile isInside) ++ goalsFrom scan.function lines := by
  induction lines generalizing scan with
  | nil => rw [List.foldl_nil, finish_eq single, List.takeWhile_nil, goalsFrom, List.append_nil]
  | cons line rest ih =>
      rw [List.foldl_cons, List.takeWhile_cons, goalsFrom]
      by_cases heading : isHeading line = true
      · have outside : isInside line = false := by simp [isInside, heading]
        rw [step_heading heading, ih (Or.inl rfl), if_pos heading, outside, flush_blocks]
        simp [close, flush]
      by_cases goal : isGoal line = true
      · have outside : isInside line = false := by simp [isInside, goal]
        obtain ⟨blocks, function, next, closes⟩ := step_goal scan goal
        rw [ih next, if_neg heading, if_pos goal, outside, blocks, function, closes]
        simp
      · have inside : isInside line = true := by simp [isInside, heading, goal]
        obtain ⟨blocks, function, next, closes⟩ := step_inside inside single
        rw [ih next, if_neg heading, if_neg goal, inside, blocks, function, closes]
        rfl

theorem printBlocks_eq (text : String) : printBlocks text = goalsFrom [] (lines text) :=
  Scan.finish_foldl (lines text) (Or.inl rfl)

end Scan

section Goals

variable {function : Line}

theorem length_goalsFrom (lines : List Line) :
    (goalsFrom function lines).length = lines.countP isGoal := by
  induction lines generalizing function with
  | nil => rfl
  | cons line rest ih =>
      rw [goalsFrom, List.countP_cons]
      by_cases heading : isHeading line = true
      · have other : isGoal line = false := by simp [isGoal, heading]
        rw [if_pos heading, ih, other]
        rfl
      · rw [if_neg heading]
        split_ifs
        · rw [List.length_cons, ih]
        · exact ih

/-- The block of a goal stands where the goal stands among the goals. -/
theorem getElem?_goalsFrom (before after : List Line) {line : Line} (goal : isGoal line = true) :
    (goalsFrom function (before ++ line :: after))[before.countP isGoal]? =
      some (goalBlock (((before.filter isHeading).getLast?.map headingName).getD function) line
        (after.takeWhile isInside)) := by
  have plain : isHeading line = false := by
    rw [isGoal, Bool.and_eq_true, Bool.not_eq_true'] at goal
    exact goal.1
  induction before generalizing function with
  | nil =>
      rw [List.nil_append, goalsFrom, if_neg (by simp [plain]), if_pos goal]
      rfl
  | cons head rest ih =>
      rw [List.cons_append, goalsFrom, List.countP_cons, List.filter_cons]
      by_cases heading : isHeading head = true
      · have other : isGoal head = false := by simp [isGoal, heading]
        rw [if_pos heading, if_pos heading, other, if_neg Bool.false_ne_true, Nat.add_zero, ih]
        rw [List.getLast?_cons]
        cases (rest.filter isHeading).getLast? <;> rfl
      · rw [if_neg heading, if_neg heading]
        split_ifs
        · rw [List.getElem?_cons_succ, ih]
        · rw [Nat.add_zero, ih]

/-- A heading starts anew. -/
theorem goalsFrom_append {second : List Line} (heading : second.head?.any isHeading = true)
    (first : List Line) :
    goalsFrom function (first ++ second) = goalsFrom function first ++ goalsFrom [] second := by
  obtain ⟨head, rest, rfl⟩ : ∃ head rest, second = head :: rest := by
    cases second with
    | nil => cases heading
    | cons head rest => exact ⟨head, rest, rfl⟩
  have opens : isHeading head = true := heading
  have outside : isInside head = false := by simp [isInside, opens]
  have segment (later : List Line) :
      (later ++ head :: rest).takeWhile isInside = later.takeWhile isInside := by
    induction later with
    | nil => simp [outside]
    | cons line later ih => rw [List.cons_append, List.takeWhile_cons, List.takeWhile_cons, ih]
  induction first generalizing function with
  | nil =>
      rw [List.nil_append, goalsFrom, goalsFrom, goalsFrom, if_pos opens, if_pos opens]
      rfl
  | cons line later ih =>
      rw [List.cons_append, goalsFrom, goalsFrom]
      split_ifs
      · exact ih
      · rw [segment, ih, List.cons_append]
      · exact ih

end Goals

section Text

/-- The first text is empty or its last line is complete. -/
def EndsLine (text : String) : Prop := text = "" ∨ text.toList.getLast? = some '\n'

theorem linesFrom_append (current first second : Line) :
    linesFrom current (first ++ '\n' :: second) =
      linesFrom current (first ++ ['\n']) ++ linesFrom [] second := by
  induction first generalizing current with
  | nil => rfl
  | cons letter rest ih =>
      rw [List.cons_append, List.cons_append, linesFrom, linesFrom]
      split_ifs
      · rw [ih, List.cons_append]
      · exact ih _

theorem lines_append {first : String} (ends : EndsLine first) (second : String) :
    lines (first ++ second) = lines first ++ lines second := by
  rcases ends with rfl | last
  · rw [String.empty_append]
    rfl
  · obtain ⟨letters, split⟩ := List.getLast?_eq_some_iff.mp last
    rw [lines, lines, lines, String.toList_append, split, List.append_assoc, List.singleton_append]
    exact linesFrom_append [] letters second.toList

/-- The report gives one block for each goal line, in the order of the text, with the last function
above it and the lines up to the next goal or heading. A heading starts a report anew. -/
theorem parseWpPrintBlocks_goals (text : String) :
    parseWpPrintBlocks text = (printBlocks text).map wpPrintBlockJson ∧
      (printBlocks text).length = (lines text).countP isGoal ∧
      (∀ before line after, lines text = before ++ line :: after → isGoal line = true →
        (printBlocks text)[before.countP isGoal]? =
          some (goalBlock (headingAbove before) line (after.takeWhile isInside))) ∧
      ∀ second, EndsLine text → (lines second).head?.any isHeading = true →
        parseWpPrintBlocks (text ++ second) =
          parseWpPrintBlocks text ++ parseWpPrintBlocks second := by
  refine ⟨rfl, ?_, fun before line after split goal => ?_, fun second ends heading => ?_⟩
  · rw [printBlocks_eq, length_goalsFrom]
  · rw [printBlocks_eq, split]
    exact getElem?_goalsFrom before after goal
  · rw [parseWpPrintBlocks, parseWpPrintBlocks, parseWpPrintBlocks, printBlocks_eq, printBlocks_eq,
      printBlocks_eq, lines_append ends, goalsFrom_append heading, List.map_append]

/-- A separator line is left out, and an open last line takes the heading that follows. -/
theorem not_exactLines :
    (¬ ∀ text before line after, lines text = before ++ line :: after → isGoal line = true →
      (printBlocks text)[before.countP isGoal]?.map Block.body = some (after.takeWhile isInside)) ∧
    ¬ ∀ first second, (lines second).head?.any isHeading = true →
      parseWpPrintBlocks (first ++ second) =
        parseWpPrintBlocks first ++ parseWpPrintBlocks second := by
  refine ⟨fun holds => ?_, fun holds => ?_⟩
  · have carried := holds "Goal P:\n:\nProve: a.\n" [] "Goal P:".toList [[':'], "Prove: a.".toList]
      (by decide +kernel) (by decide +kernel)
    exact absurd carried (by decide +kernel)
  · have joined := congrArg (List.map fun block => (block.get "function").bind Json.asStr)
      (holds "Goal P:" "Function f\nGoal Q:\n" (by decide +kernel))
    exact absurd joined (by decide +kernel)

end Text

end FramaCMcp.WpPrint
