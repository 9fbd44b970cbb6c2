/-
This file compares the loop marks of a file with the blocks that its braces match in order.
-/

import FramaCMcp.Construction.Structure

namespace FramaCMcp.Concurrency

/-- An opening brace pushes the mark and a closing brace pops one. -/
def braceStep (mark : Bool) (stack : List Bool) (c : Char) : List Bool :=
  if c = '\x7b' then stack ++ [mark] else if c = '\x7d' then stack.dropLast else stack

/-- The braces of a line move the stack in the order of the line. -/
def matchBraces (stack : List Bool) (mark : Bool) (line : Line) : List Bool :=
  line.foldl (braceStep mark) stack

/-- This is the stack that the scan leaves behind a line. -/
def batchBraces (stack : List Bool) (mark : Bool) (line : Line) : List Bool :=
  (Blocks.advance { depth := stack.length, loops := stack } mark line).loops

/-- A line lies in a loop that carries over to it or that is open before it. -/
def loopMarks (advance : List Bool → Bool → Line → List Bool) :
    List Bool → Bool → List Line → List Bool
  | _, _, [] => []
  | stack, pending, raw :: rest =>
      let line := Line.trim raw
      (carriesLoop pending line || stack.any id) ::
        loopMarks advance (advance stack (carriesLoop pending line || opensLoop line) line)
          (opensLoop line && branchOn line == .nextLine) rest

/-- A line closes so many blocks of the lines before it and leaves so many of its own open. -/
def unmatchedStep (counts : Nat × Nat) (c : Char) : Nat × Nat :=
  if c = '\x7b' then (counts.1, counts.2 + 1)
  else if c = '\x7d' then (if counts.2 = 0 then (counts.1 + 1, 0) else (counts.1, counts.2 - 1))
  else counts

def unmatched (line : Line) : Nat × Nat := line.foldl unmatchedStep (0, 0)

/-- The blocks whose places the blocks of the line take over have the mark of the line. -/
def KeepsMarks (stack : List Bool) (mark : Bool) (line : Line) : Prop :=
  (unmatched line).2 = 0 ∨ (unmatched line).1 ≤ stack.length ∧
    ∀ taken ∈ (stack.drop (stack.length - (unmatched line).1)).take (unmatched line).2, taken = mark

instance (stack : List Bool) (mark : Bool) (line : Line) : Decidable (KeepsMarks stack mark line) :=
  inferInstanceAs (Decidable (_ ∨ _))

/-- Each line of the run keeps the marks of the blocks that are open before it. -/
def RunKeepsMarks : List Bool → Bool → List Line → Prop
  | _, _, [] => True
  | stack, pending, raw :: rest =>
      let line := Line.trim raw
      let mark := carriesLoop pending line || opensLoop line
      KeepsMarks stack mark line ∧
        RunKeepsMarks (matchBraces stack mark line) (opensLoop line && branchOn line == .nextLine) rest

instance decidableRunKeepsMarks :
    ∀ stack pending lines, Decidable (RunKeepsMarks stack pending lines)
  | _, _, [] => .isTrue trivial
  | stack, pending, raw :: rest =>
      let line := Line.trim raw
      let mark := carriesLoop pending line || opensLoop line
      have := decidableRunKeepsMarks (matchBraces stack mark line)
        (opensLoop line && branchOn line == .nextLine) rest
      inferInstanceAs (Decidable (KeepsMarks stack mark line ∧ _))

section Line

variable {stack : List Bool} {mark : Bool}

theorem take_dropLast (count : Nat) (within : count ≤ stack.length) :
    (stack.take count).dropLast = stack.take (count - 1) := by
  rw [List.dropLast_eq_take, List.take_take, List.length_take, min_eq_left within,
    min_eq_left (Nat.sub_le _ _)]

/-- The braces so far have closed blocks from below and left their own blocks on top. -/
theorem matchBraces_eq (stack : List Bool) (mark : Bool) (line : Line) :
    matchBraces stack mark line =
      stack.take (stack.length - (unmatched line).1) ++
        List.replicate (unmatched line).2 mark := by
  unfold matchBraces unmatched
  induction line using List.reverseRecOn with
  | nil => simp
  | append_singleton before c ih =>
      rw [List.foldl_append, List.foldl_append, List.foldl_cons, List.foldl_nil, List.foldl_cons,
        List.foldl_nil, ih]
      generalize before.foldl unmatchedStep (0, 0) = counts
      obtain ⟨closers, openers⟩ := counts
      unfold braceStep unmatchedStep
      by_cases opens : c = '\x7b'
      · simp only [if_pos opens, List.replicate_succ', List.append_assoc]
      by_cases closes : c = '\x7d'
      · simp only [if_neg opens, if_pos closes]
        cases openers with
        | zero =>
            simp only [List.replicate_zero, List.append_nil, if_pos]
            rw [take_dropLast _ (Nat.sub_le _ _), Nat.sub_sub]
        | succ openers =>
            rw [if_neg (Nat.succ_ne_zero _), List.replicate_succ', ← List.append_assoc,
              List.dropLast_concat]
            rfl
      · simp only [if_neg opens, if_neg closes]

/-- Each brace of the line is matched on the line or is left over. -/
theorem count_unmatched (line : Line) :
    line.count '\x7b' + (unmatched line).1 = line.count '\x7d' + (unmatched line).2 := by
  unfold unmatched
  induction line using List.reverseRecOn with
  | nil => rfl
  | append_singleton before c ih =>
      rw [List.foldl_append, List.foldl_cons, List.foldl_nil, List.count_append, List.count_append]
      generalize before.foldl unmatchedStep (0, 0) = counts at ih ⊢
      obtain ⟨closers, openers⟩ := counts
      unfold unmatchedStep
      by_cases opens : c = '\x7b'
      · subst opens
        rw [if_pos rfl, List.count_singleton_self, List.count_singleton, if_neg (by decide)]
        simp only at ih ⊢
        omega
      by_cases closes : c = '\x7d'
      · subst closes
        simp only [if_neg opens, if_pos] at ih ⊢
        rw [List.count_singleton_self, List.count_singleton, if_neg (by decide)]
        split_ifs <;> simp only at ih ⊢ <;> omega
      · simp only [if_neg opens, if_neg closes] at ih ⊢
        rw [List.count_singleton, List.count_singleton, if_neg (by simpa using opens),
          if_neg (by simpa using closes)]
        exact ih

theorem batchBraces_eq (stack : List Bool) (mark : Bool) (line : Line) :
    batchBraces stack mark line =
      (stack ++ List.replicate (line.count '\x7b') mark).take
        (stack.length + (unmatched line).2 - (unmatched line).1) := by
  have balance := count_unmatched line
  unfold batchBraces Blocks.advance
  simp only
  congr 1
  omega

/-- The upper part of the stack is the marks of the line where the blocks below it have them. -/
theorem take_marked_iff {blocks : List Bool} {opened left : Nat}
    (enough : left ≤ blocks.length + opened) :
    (blocks ++ List.replicate opened mark).take left = List.replicate left mark ↔
      ∀ taken ∈ blocks.take left, taken = mark := by
  rw [List.eq_replicate_iff, List.length_take, List.length_append, List.length_replicate,
    min_eq_left enough, List.take_append, List.take_replicate]
  constructor
  · intro all taken member
    exact all.2 taken (List.mem_append_left _ member)
  · intro all
    refine ⟨rfl, fun taken member => ?_⟩
    rcases List.mem_append.mp member with below | above
    · exact all taken below
    · exact List.eq_of_mem_replicate above

/-- The scan leaves the stack of the braces behind a line that keeps the marks, and no other one. -/
theorem batchBraces_eq_iff (stack : List Bool) (mark : Bool) (line : Line) :
    batchBraces stack mark line = matchBraces stack mark line ↔ KeepsMarks stack mark line := by
  have balance := count_unmatched line
  rw [batchBraces_eq, matchBraces_eq]
  unfold KeepsMarks
  generalize unmatched line = counts at balance ⊢
  obtain ⟨closers, openers⟩ := counts
  simp only at balance ⊢
  by_cases none : openers = 0
  · subst none
    rw [Nat.add_zero, List.take_append_of_le_length (Nat.sub_le _ _), List.replicate_zero,
      List.append_nil]
    exact iff_of_true rfl (.inl rfl)
  rw [or_iff_right none]
  by_cases within : closers ≤ stack.length
  · have place : stack.length + openers - closers = stack.length - closers + openers := by omega
    rw [and_iff_right within, place, List.take_add,
      List.take_append_of_le_length (Nat.sub_le _ _),
      List.drop_append_of_le_length (Nat.sub_le _ _), List.append_cancel_left_eq]
    apply take_marked_iff
    rw [List.length_drop]
    omega
  · refine iff_of_false (fun same => ?_) (fun keeps => within keeps.1)
    have lengths := congrArg List.length same
    simp only [List.length_take, List.length_append, List.length_replicate] at lengths
    omega

end Line

section Run

variable {path : String}

/-- The depth of the scan is the height of its stack. -/
theorem advance_depth (blocks : Blocks) (mark : Bool) (line : Line)
    (height : blocks.loops.length = blocks.depth) :
    (blocks.advance mark line).loops.length = (blocks.advance mark line).depth := by
  unfold Blocks.advance
  simp only [List.length_take, List.length_append, List.length_replicate]
  omega

theorem scanLines_inLoop (state : ScanState) (lines : List Line)
    (height : state.blocks.loops.length = state.blocks.depth) :
    (lines.foldl scanLine state).inLoop =
      state.inLoop ++ loopMarks batchBraces state.blocks.loops state.pendingLoop lines := by
  induction lines generalizing state with
  | nil => exact (List.append_nil _).symm
  | cons raw rest ih =>
      have next := advance_depth state.blocks
        (carriesLoop state.pendingLoop (Line.trim raw) || opensLoop (Line.trim raw))
        (Line.trim raw) height
      rw [List.foldl_cons, ih (scanLine state raw) next]
      obtain ⟨scope, owner, inLoop, ⟨depth, loops⟩, pending⟩ := state
      simp only at height
      subst height
      simp only [scanLine, loopMarks, List.append_assoc, List.singleton_append]
      rfl

theorem loopMarks_eq_of_keeps (stack : List Bool) (pending : Bool) (lines : List Line)
    (keeps : RunKeepsMarks stack pending lines) :
    loopMarks batchBraces stack pending lines = loopMarks matchBraces stack pending lines := by
  induction lines generalizing stack pending with
  | nil => rfl
  | cons raw rest ih =>
      obtain ⟨here, later⟩ := keeps
      rw [loopMarks, loopMarks]
      rw [(batchBraces_eq_iff stack _ (Line.trim raw)).mpr here, ih _ _ later]

/-- The loop marks of a file are those of the blocks that its braces match in order, where each line
keeps the marks of the blocks whose places its own blocks take over. -/
theorem structureOf_inLoop_of_keeps (path : String) (lines : List Line)
    (keeps : RunKeepsMarks [] false lines) :
    (structureOf path lines).inLoop = loopMarks matchBraces [] false lines := by
  have scanned : (structureOf path lines).inLoop = [] ++ loopMarks batchBraces [] false lines :=
    scanLines_inLoop .empty lines rfl
  rw [scanned, List.nil_append]
  exact loopMarks_eq_of_keeps [] false lines keeps

/-- A branch inside a loop keeps the marks. -/
def branchInLoop : List Line := ["while (busy) \x7b", "if (x) \x7b", "a();",
  "\x7d else \x7b", "b();", "\x7d", "\x7d"].map String.toList

theorem branchInLoop_marked : (structureOf "f.c" branchInLoop).inLoop =
    [false, true, true, true, true, true, true] :=
  (structureOf_inLoop_of_keeps "f.c" branchInLoop (by decide)).trans (by decide)

/-- A branch that follows a loop on the line of its closing brace stays marked as a loop. -/
theorem not_structureOf_inLoop : ¬ ∀ (path : String) (lines : List Line),
    (structureOf path lines).inLoop = loopMarks matchBraces [] false lines := by
  intro always
  have same := always "f.c" (["while (busy) \x7b", "\x7d if (x) \x7b",
    "pthread_create(&t, 0, run, 0);", "\x7d"].map String.toList)
  exact absurd same (by decide)

end Run

end FramaCMcp.Concurrency
