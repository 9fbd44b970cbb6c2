/-
This file shows when a function body starts with the locks of its callers and no others.
-/

import FramaCMcp.Construction.Structure
import FramaCMcp.Proof.UnlockedProgram
import Mathlib.Data.List.Infix

namespace FramaCMcp.Concurrency

section Blocks

/-- The outermost block lies around all functions. -/
def Walk.outermost (walk : Walk) : Frame := (walk.top :: walk.below).getLast (List.cons_ne_nil _ _)

theorem outermost_of_below_nil {walk : Walk} (alone : walk.below = []) :
    walk.outermost = walk.top := by
  simp only [Walk.outermost, alone, List.getLast_singleton]

theorem outermost_of_below_ne_nil {walk : Walk} (inside : walk.below ≠ []) :
    walk.outermost = walk.below.getLast inside := List.getLast_cons inside

/-- A step inside the top block reaches the outermost one only where it is the top one. -/
theorem outermost_of_same_below {before after : Walk} (same : after.below = before.below)
    (free : before.outermost.held = [])
    (top : before.below = [] → before.top.held = [] → after.top.held = []) :
    after.outermost.held = [] := by
  by_cases alone : before.below = []
  · rw [outermost_of_below_nil alone] at free
    rw [outermost_of_below_nil (same.trans alone)]
    exact top alone free
  · rw [outermost_of_below_ne_nil alone] at free
    rw [outermost_of_below_ne_nil (same ▸ alone)]
    simpa only [same] using free

theorem outermost_enter (walk : Walk) (body : Body) :
    (walk.enter body).outermost = walk.outermost := List.getLast_cons _

theorem foldl_intersect_self (paths : List (List Held)) (held : List Held) :
    (paths.foldl intersect held).Sublist held := by
  induction paths generalizing held with
  | nil => exact List.Sublist.refl held
  | cons path rest ih => exact (ih _).trans List.filter_sublist

/-- A block that is left or merged keeps some of its locks. -/
def Narrower (after before : Frame) : Prop := after.held.Sublist before.held

theorem narrower_refl (frames : List Frame) : List.Forall₂ Narrower frames frames :=
  List.forall₂_same.mpr fun frame _ => List.Sublist.refl frame.held

theorem mergeTop_narrower (path : List Held) (frames : List Frame) :
    List.Forall₂ Narrower (Walk.mergeTop path frames) frames := by
  cases frames with
  | nil => exact .nil
  | cons frame rest => exact .cons List.filter_sublist (narrower_refl rest)

theorem pushExit_narrower {exit : Exit} {path : List Held} {frames pushed : List Frame}
    (found : Walk.pushExit exit path frames = some pushed) :
    List.Forall₂ Narrower pushed frames := by
  induction frames generalizing pushed with
  | nil => cases found
  | cons frame rest ih =>
      rw [Walk.pushExit] at found
      split_ifs at found
      · cases found
        exact .cons (List.Sublist.refl _) (narrower_refl rest)
      · obtain ⟨later, inner, rfl⟩ := Option.map_eq_some_iff.mp found
        exact .cons (List.Sublist.refl _) (ih inner)

theorem landing_narrower (exit : Exit) (path : List Held) (frames : List Frame) :
    List.Forall₂ Narrower (Walk.landing exit path frames) frames := by
  have moved (exit : Exit) : List.Forall₂ Narrower
      ((Walk.pushExit exit path frames).getD (Walk.mergeTop path frames)) frames := by
    cases pushed : Walk.pushExit exit path frames with
    | none => exact mergeTop_narrower path frames
    | some later => exact pushExit_narrower pushed
  cases exit with
  | fallThrough => exact mergeTop_narrower path frames
  | leaves => exact narrower_refl frames
  | breaks => exact moved .breaks
  | continues => exact moved .continues
  | jumps => exact narrower_refl frames

/-- The blocks around the left one are those of before, with some of their locks. -/
theorem leave_narrower (walk : Walk) (exit : Exit) (inside : walk.below ≠ []) :
    List.Forall₂ Narrower ((walk.leave exit).1.top :: (walk.leave exit).1.below) walk.below := by
  rcases walk with ⟨top, below, locals, gotos, previous, conditional⟩
  cases below with
  | nil => exact absurd rfl inside
  | cons outer rest =>
      have landed := landing_narrower (if landsAt exit top.body then .fallThrough else exit)
        top.held (outer :: rest)
      unfold Walk.leave
      simp only
      generalize Walk.landing _ top.held (outer :: rest) = merged at landed ⊢
      cases landed with
      | cons first later =>
          refine .cons (List.Sublist.trans ?_ first) later
          simp only
          exact foldl_intersect_self top.exits _

theorem getLast_of_narrower {after before : List Frame}
    (related : List.Forall₂ Narrower after before) (some : after ≠ []) (other : before ≠ []) :
    Narrower (after.getLast some) (before.getLast other) := by
  induction related with
  | nil => exact absurd rfl some
  | cons first later ih =>
      cases later with
      | nil => exact first
      | cons next others =>
          rw [List.getLast_cons (List.cons_ne_nil _ _), List.getLast_cons (List.cons_ne_nil _ _)]
          exact ih (List.cons_ne_nil _ _) (List.cons_ne_nil _ _)

/-- Leaving a block closes it and gives the outermost block no lock. -/
theorem leave_outermost (walk : Walk) (exit : Exit) :
    (walk.leave exit).1.below.length = walk.below.length - 1 ∧
      (walk.outermost.held = [] → (walk.leave exit).1.outermost.held = []) := by
  by_cases inside : walk.below = []
  · have same : (walk.leave exit).1 = walk := by
      unfold Walk.leave
      rw [inside]
    rw [same, inside]
    exact ⟨rfl, id⟩
  · have related := leave_narrower walk exit inside
    constructor
    · have length := related.length_eq
      rw [List.length_cons] at length
      omega
    · intro free
      rw [outermost_of_below_ne_nil inside] at free
      have fewer := getLast_of_narrower related (List.cons_ne_nil _ _) inside
      rw [Narrower, free] at fewer
      exact List.sublist_nil.mp fewer

theorem land_outermost {walk : Walk} (free : walk.outermost.held = []) :
    walk.land.outermost.held = [] := by
  have same : walk.land.below = walk.below := rfl
  refine outermost_of_same_below same free fun _ none => ?_
  have fewer : walk.land.top.held.Sublist walk.top.held := foldl_intersect_self walk.gotos _
  rw [none] at fewer
  exact List.sublist_nil.mp fewer

end Blocks

section Actions

variable (file : FileScan) (ctx : Context) (index : Nat)

/-- The function that is called returns with a lock of its own. -/
def handsOver (ctx : Context) (name : String) : Bool :=
  (ctx.interproc.summaries.lookup name).any fun summary => !summary.acquired.isEmpty

/-- The action makes its line hold a lock. A lock call does so on any line, and a call of a function
only inside a function. -/
def acquires : Action → Bool
  | .lock entry _ => entry.op == .acquire
  | .call call => (file.functionOf index).isSome &&
      !namesItsOwnDefinition file index (file.lineOf index) call.name call.start &&
      handsOver ctx call.name
  | _ => false

/-- This is the number of the blocks inside the outermost one behind an action. -/
def depthBehind (depth : Nat) : Action → Nat
  | .openBlock => depth + 1
  | .closeBlock => depth - 1
  | _ => depth

theorem applyLock_nil (entry : LockApi) (lock : String) (inherited : List String) (site : Site)
    (graph : LockGraph) (quiet : (entry.op == .acquire) = false) :
    (applyLock entry lock [] inherited site graph).1 = [] := by
  unfold applyLock
  cases op : entry.op with
  | acquire => rw [op] at quiet; cases quiet
  | release => rfl
  | attempt => rfl
  | wait => rfl

theorem below_applyReleased (caller : String) (line : Line) (call : CallAt) (pass : Pass)
    (named : LockRef) :
    (applyReleased caller line call pass named).walk.below = pass.walk.below ∧
      (pass.walk.top.held = [] →
        (applyReleased caller line call pass named).walk.top.held = []) := by
  unfold applyReleased
  split
  · refine ⟨rfl, fun none => ?_⟩
    simp only [Walk.setHeld, none]
    rfl
  · exact ⟨rfl, fun _ => rfl⟩

theorem below_applyAcquired (line : Line) (call : CallAt) (site : Site) (pass : Pass)
    (named : LockRef × Bool) :
    (applyAcquired line call site pass named).walk.below = pass.walk.below := by
  unfold applyAcquired
  split <;> rfl

/-- A call opens no block, and one whose summary acquires nothing leaves a free block free. -/
theorem callSite_walk (caller : String) (call : CallAt) (line : Line) (site : Site) (pass : Pass) :
    (callSite ctx caller call line site pass).walk.below = pass.walk.below ∧
      (handsOver ctx call.name = false → pass.walk.top.held = [] →
        (callSite ctx caller call line site pass).walk.top.held = []) := by
  unfold callSite
  simp only
  cases known : ctx.interproc.summaries.lookup call.name with
  | none => exact ⟨rfl, fun _ none => none⟩
  | some summary =>
      have released : ∀ (named : List LockRef) (pass : Pass),
          (named.foldl (applyReleased caller line call) pass).walk.below = pass.walk.below ∧
            (pass.walk.top.held = [] →
              (named.foldl (applyReleased caller line call) pass).walk.top.held = []) := by
        intro named
        induction named with
        | nil => exact fun pass => ⟨rfl, id⟩
        | cons first rest ih =>
            intro pass
            obtain ⟨same, free⟩ := below_applyReleased caller line call pass first
            obtain ⟨later, freed⟩ := ih (applyReleased caller line call pass first)
            exact ⟨later.trans same, fun none => freed (free none)⟩
      have acquired : ∀ (named : List (LockRef × Bool)) (pass : Pass),
          (named.foldl (applyAcquired line call site) pass).walk.below = pass.walk.below := by
        intro named
        induction named with
        | nil => exact fun pass => rfl
        | cons first rest ih =>
            exact fun pass => (ih _).trans (below_applyAcquired line call site pass first)
      simp only
      refine ⟨(acquired _ _).trans (released _ _).1, fun quiet none => ?_⟩
      have nothing : summary.acquired = [] := by
        simpa [handsOver, known] using quiet
      rw [nothing]
      exact (released _ _).2 none

theorem emitEvent_walk (kind : EventKind) (zone lockMode : Option String) (pass : Pass) :
    (emitEvent file ctx index kind zone lockMode pass).walk = pass.walk := by
  unfold emitEvent
  split <;> rfl

/-- This is all that an action does to the blocks: its own brace opens or closes one, and no other
action than an acquisition gives the outermost block a lock. -/
theorem emitAction_walk (pass : Pass) (action : Nat × Action) :
    (emitAction file ctx index pass action).walk.below.length =
        depthBehind pass.walk.below.length action.2 ∧
      (pass.walk.outermost.held = [] →
        (pass.walk.below = [] → acquires file ctx index action.2 = false) →
          (emitAction file ctx index pass action).walk.outermost.held = []) := by
  obtain ⟨offset, action⟩ := action
  cases action with
  | openBlock =>
      have opened : (emitOpen file ctx index offset pass).walk.below =
          pass.walk.top :: pass.walk.below := rfl
      refine ⟨rfl, fun free _ => ?_⟩
      change (emitOpen file ctx index offset pass).walk.outermost.held = []
      rwa [outermost_of_below_ne_nil (opened ▸ List.cons_ne_nil _ _)]
  | closeBlock => exact ⟨(leave_outermost _ _).1, fun free _ => (leave_outermost _ _).2 free⟩
  | returns => exact ⟨rfl, fun free _ => free⟩
  | call call =>
      unfold emitAction
      simp only
      split_ifs with called
      · obtain ⟨same, freed⟩ := callSite_walk ctx ((file.functionOf index).getD "") call
          (file.lineOf index) (lineSite file ctx index) pass
        refine ⟨congrArg List.length same, fun free quiet => ?_⟩
        refine outermost_of_same_below same free fun alone => freed ?_
        simpa only [acquires, called, Bool.true_and] using quiet alone
      · exact ⟨rfl, fun free _ => free⟩
  | lock entry lock =>
      unfold emitAction
      simp only [emitEvent_walk]
      have same : (lockAction ctx ((file.functionOf index).getD "") entry lock
          (lineSite file ctx index) pass).walk.below = pass.walk.below := rfl
      refine ⟨rfl, fun free quiet => ?_⟩
      refine outermost_of_same_below same free fun alone none => ?_
      unfold lockAction
      simp only [none]
      exact applyLock_nil entry lock _ _ _ (quiet alone)
  | create entry =>
      unfold emitAction
      simp only [emitEvent_walk]
      exact ⟨rfl, fun free _ => free⟩
  | join =>
      unfold emitAction
      simp only [emitEvent_walk]
      exact ⟨rfl, fun free _ => free⟩
  | access kind zone =>
      unfold emitAction
      simp only [emitEvent_walk]
      exact ⟨rfl, fun free _ => free⟩

end Actions

section Braces

def isBrace : Action → Bool
  | .openBlock | .closeBlock => true
  | _ => false

theorem filter_actionsOnLine {line : Line} {zones : Zones} {defined : OrderedSet String}
    {actions : List (Nat × Action)} (read : actionsOnLine line zones defined = some actions) :
    actions.filter (fun entry => isBrace entry.2) = braceActions 0 line := by
  unfold actionsOnLine at read
  obtain ⟨accesses, tokens, rfl⟩ := Option.map_eq_some_iff.mp read
  have calls : (List.filter (fun entry => isBrace entry.2)
      ((callsAmong line (identifiers line)).flatMap (callActions defined))) = [] := by
    rw [List.filter_eq_nil_iff]
    intro entry member
    obtain ⟨call, _, inside⟩ := List.mem_flatMap.mp member
    rcases mem_callActions inside with joined | ⟨_, started⟩ | ⟨_, _, _, locked⟩ | ⟨_, called⟩
    · rw [joined]
      exact Bool.false_ne_true
    · rw [started]
      exact Bool.false_ne_true
    · rw [locked]
      exact Bool.false_ne_true
    · rw [called]
      exact Bool.false_ne_true
  have plain : List.filter (fun entry => isBrace entry.2) accesses.flatten = [] := by
    rw [List.filter_eq_nil_iff]
    intro entry member
    rcases mem_accesses tokens member with returned | ⟨_, _, accessed⟩
    · rw [returned]
      exact Bool.false_ne_true
    · rw [accessed]
      exact Bool.false_ne_true
  have braces : List.filter (fun entry => isBrace entry.2) (braceActions 0 line) =
      braceActions 0 line := by
    rw [List.filter_eq_self]
    intro entry member
    rcases (mem_braceActions member).2 with opened | closed
    · rw [opened]
      rfl
    · rw [closed]
      rfl
  have whole : List.filter (fun entry => isBrace entry.2)
      ((callsAmong line (identifiers line)).flatMap (callActions defined) ++ accesses.flatten ++
        braceActions 0 line) = braceActions 0 line := by
    rw [List.filter_append, List.filter_append, calls, plain, braces, List.nil_append,
      List.nil_append]
  rw [StableSort.filter_sortByKey_of_sorted, whole]
  rw [whole]
  exact braceActions_sorted 0 line

/-- A brace opens a block inside the others or closes the innermost one. -/
def braceDepth (depth : Nat) (c : Char) : Nat :=
  if c = '\x7b' then depth + 1 else if c = '\x7d' then depth - 1 else depth

/-- This is the number of the open blocks when the braces of a line are taken in their order. -/
def depthInOrder (depth : Nat) (line : Line) : Nat := line.foldl braceDepth depth

theorem foldl_braceActions (offset : Nat) (line : Line) (depth : Nat) :
    (braceActions offset line).foldl (fun depth entry => depthBehind depth entry.2) depth =
      depthInOrder depth line := by
  induction line generalizing offset depth with
  | nil => rfl
  | cons c rest ih =>
      unfold braceActions depthInOrder
      rw [List.foldl_cons, braceDepth]
      split_ifs
      · exact ih _ _
      · exact ih _ _
      · exact ih _ _

theorem foldl_depthBehind_filter (actions : List (Nat × Action)) (depth : Nat) :
    actions.foldl (fun depth entry => depthBehind depth entry.2) depth =
      (actions.filter fun entry => isBrace entry.2).foldl
        (fun depth entry => depthBehind depth entry.2) depth := by
  induction actions generalizing depth with
  | nil => rfl
  | cons entry rest ih =>
      rw [List.foldl_cons, ih]
      obtain ⟨offset, action⟩ := entry
      cases action <;> rfl

theorem depthInOrder_cons (depth : Nat) (c : Char) (rest : Line) :
    depthInOrder depth (c :: rest) = depthInOrder (braceDepth depth c) rest := rfl

/-- No brace is lost but a closing one that closes nothing. -/
theorem le_depthInOrder (depth : Nat) (line : Line) :
    depth + line.count '\x7b' ≤ depthInOrder depth line + line.count '\x7d' := by
  induction line generalizing depth with
  | nil => exact le_rfl
  | cons c rest ih =>
      have later := ih (braceDepth depth c)
      rw [depthInOrder_cons]
      unfold braceDepth at later ⊢
      split_ifs at later ⊢ with opening closing
      · subst opening
        rw [List.count_cons_self, List.count_cons_of_ne (by decide)]
        omega
      · subst closing
        rw [List.count_cons_self, List.count_cons_of_ne (by decide)]
        omega
      · rwa [List.count_cons_of_ne opening, List.count_cons_of_ne closing]

theorem braceDepth_add (depth more : Nat) (c : Char) :
    braceDepth (depth + more) c ≤ braceDepth depth c + more := by
  unfold braceDepth
  split_ifs <;> omega

theorem braceDepth_mono {depth other : Nat} (le : depth ≤ other) (c : Char) :
    braceDepth depth c ≤ braceDepth other c := by
  unfold braceDepth
  split_ifs <;> omega

theorem depthInOrder_mono {depth other : Nat} (le : depth ≤ other) (line : Line) :
    depthInOrder depth line ≤ depthInOrder other line := by
  induction line generalizing depth other with
  | nil => exact le
  | cons c rest ih => exact ih (braceDepth_mono le c)

theorem depthInOrder_add (depth more : Nat) (line : Line) :
    depthInOrder (depth + more) line ≤ depthInOrder depth line + more := by
  induction line generalizing depth with
  | nil => exact le_rfl
  | cons c rest ih =>
      rw [depthInOrder_cons, depthInOrder_cons]
      exact (depthInOrder_mono (braceDepth_add depth more c) rest).trans (ih _)

/-- Each closing brace of the line closes a block that is open. -/
def ClosesOpen (depth : Nat) (line : Line) : Prop :=
  ∀ before ∈ line.inits, before.count '\x7d' ≤ depth + before.count '\x7b'

instance (depth : Nat) (line : Line) : Decidable (ClosesOpen depth line) :=
  inferInstanceAs (Decidable (∀ before ∈ line.inits, _))

theorem depthInOrder_of_closesOpen {depth : Nat} {line : Line} (closes : ClosesOpen depth line) :
    depthInOrder depth line = depth + line.count '\x7b' - line.count '\x7d' := by
  induction line generalizing depth with
  | nil => rfl
  | cons c rest ih =>
      have first := closes [c] ((List.mem_inits _ _).mpr ⟨rest, rfl⟩)
      have later : ClosesOpen (braceDepth depth c) rest := by
        intro before member
        obtain ⟨behind, same⟩ := (List.mem_inits _ _).mp member
        have longer := closes (c :: before) ((List.mem_inits _ _).mpr ⟨behind, by rw [← same]; rfl⟩)
        unfold braceDepth
        split_ifs with opening closing
        · subst opening
          rw [List.count_cons_self, List.count_cons_of_ne (by decide)] at longer
          omega
        · subst closing
          rw [List.count_cons_self, List.count_cons_of_ne (by decide)] at longer
          rw [List.count_cons_self, List.count_cons_of_ne (by decide), List.count_nil] at first
          simp only [List.count_nil] at first
          omega
        · rwa [List.count_cons_of_ne opening, List.count_cons_of_ne closing] at longer
      rw [depthInOrder_cons, ih later]
      unfold braceDepth
      split_ifs with opening closing
      · subst opening
        rw [List.count_cons_self, List.count_cons_of_ne (by decide)]
        omega
      · subst closing
        rw [List.count_cons_self, List.count_cons_of_ne (by decide)] at first ⊢
        simp only [List.count_nil] at first
        omega
      · rw [List.count_cons_of_ne opening, List.count_cons_of_ne closing]

theorem count_dropWhile {test : Char → Bool} {c : Char} (other : test c = false) (line : Line) :
    (line.dropWhile test).count c = line.count c := by
  induction line with
  | nil => rfl
  | cons first rest ih =>
      by_cases skipped : test first = true
      · have apart : first ≠ c := by
          rintro rfl
          rw [skipped] at other
          cases other
        rw [List.dropWhile_cons_of_pos skipped, ih, List.count_cons_of_ne apart]
      · rw [List.dropWhile_cons_of_neg skipped]

theorem count_trim {c : Char} (black : Text.isWhitespace c = false) (line : Line) :
    (Line.trim line).count c = line.count c := by
  rw [Line.trim, Line.trimEnd, List.count_reverse, count_dropWhile black, List.count_reverse,
    Line.trimStart, count_dropWhile black]

end Braces

section Steps

variable (file : FileScan) (ctx : Context) (index : Nat)

/-- The line is the body of a branch whose head has no brace. -/
def wrapsLine (state : LineState) : Bool :=
  let line := Line.trim (file.lineOf index)
  (state.pendingBranch || branchOn line == .sameLine) && line.count '\x7b' == line.count '\x7d'

/-- This is the pass with which the line is emitted. -/
def enteredPass (state : LineState) : Pass :=
  let walk := declareLocals file ctx index (Line.trim (file.lineOf index)) state.pass.walk
  { state.pass with walk := if wrapsLine file index state then walk.enter .plain else walk }

/-- This is the pass before the actions of the line. -/
def landedPass (pass : Pass) : Pass :=
  if (file.functionOf index).isSome && isLabel (file.lineOf index) then
    { pass with walk := pass.walk.land }
  else pass

def lineActions (pass : Pass) : Option (List (Nat × Action)) :=
  actionsOnLine (file.lineOf index)
    (zoneOf ctx ((file.functionOf index).getD "") pass.walk.locals) ctx.program.defined

theorem emitStep_eq (state : LineState) :
    emitStep file ctx index state =
      (lineActions file ctx index (enteredPass file ctx index state)).map fun actions =>
        let emitted := actions.foldl (emitAction file ctx index)
          (landedPass file index (enteredPass file ctx index state))
        let left := if wrapsLine file index state then (emitted.walk.leave .fallThrough).1
          else emitted.walk
        { pass := { emitted with
            walk := endLine (Line.trim (file.lineOf index)) state.pendingBranch left }
          pendingBranch := branchOn (Line.trim (file.lineOf index)) == .nextLine } := by
  unfold emitStep emitLine
  rw [Option.map_map]
  rfl

/-- No action of the list acquires a lock while only the outermost block is open. -/
def QuietOutside : Pass → List (Nat × Action) → Prop
  | _, [] => True
  | pass, action :: rest =>
      (pass.walk.below.length = 0 → acquires file ctx index action.2 = false) ∧
        QuietOutside (emitAction file ctx index pass action) rest

instance decidableQuietOutside :
    ∀ pass actions, Decidable (QuietOutside file ctx index pass actions)
  | _, [] => .isTrue trivial
  | pass, action :: rest =>
      have := decidableQuietOutside (emitAction file ctx index pass action) rest
      inferInstanceAs (Decidable (_ ∧ _))

/-- No action of the line acquires a lock outside all blocks. -/
def QuietLine (state : LineState) : Prop :=
  ∀ actions ∈ lineActions file ctx index (enteredPass file ctx index state),
    QuietOutside file ctx index (landedPass file index (enteredPass file ctx index state)) actions

instance (state : LineState) : Decidable (QuietLine file ctx index state) :=
  inferInstanceAs (Decidable (∀ actions ∈ lineActions _ _ _ _, _))

theorem landedPass_walk {pass : Pass} (free : pass.walk.outermost.held = []) :
    (landedPass file index pass).walk.below = pass.walk.below ∧
      (landedPass file index pass).walk.outermost.held = [] := by
  unfold landedPass
  split_ifs
  · exact ⟨rfl, land_outermost free⟩
  · exact ⟨rfl, free⟩

theorem enteredPass_walk (state : LineState) :
    (enteredPass file ctx index state).walk.below.length =
        state.pass.walk.below.length + (if wrapsLine file index state then 1 else 0) ∧
      (enteredPass file ctx index state).walk.outermost = state.pass.walk.outermost := by
  have declared : ∀ walk : Walk, (declareLocals file ctx index (Line.trim (file.lineOf index))
      walk).below = walk.below ∧ (declareLocals file ctx index (Line.trim (file.lineOf index))
        walk).outermost = walk.outermost := by
    intro walk
    unfold declareLocals
    split_ifs <;> exact ⟨rfl, rfl⟩
  obtain ⟨same, outer⟩ := declared state.pass.walk
  unfold enteredPass
  simp only
  split_ifs
  · exact ⟨congrArg (·.length + 1) same, (outermost_enter _ _).trans outer⟩
  · exact ⟨congrArg List.length same, outer⟩

variable {file ctx index}

theorem foldl_emitAction_walk {pass : Pass} {actions : List (Nat × Action)}
    (quiet : QuietOutside file ctx index pass actions) (free : pass.walk.outermost.held = []) :
    (actions.foldl (emitAction file ctx index) pass).walk.below.length =
        actions.foldl (fun depth entry => depthBehind depth entry.2) pass.walk.below.length ∧
      (actions.foldl (emitAction file ctx index) pass).walk.outermost.held = [] := by
  induction actions generalizing pass with
  | nil => exact ⟨rfl, free⟩
  | cons action rest ih =>
      obtain ⟨here, later⟩ := quiet
      obtain ⟨moved, freed⟩ := emitAction_walk file ctx index pass action
      rw [List.foldl_cons, List.foldl_cons, ← moved]
      exact ih later (freed free fun alone => here (congrArg List.length alone))

theorem endLine_walk (line : Line) (pending : Bool) (walk : Walk) :
    (endLine line pending walk).below = walk.below ∧
      (endLine line pending walk).outermost = walk.outermost := by
  unfold endLine
  simp only
  split_ifs <;> exact ⟨rfl, rfl⟩

/-- The line takes its braces as the scan counts them. -/
def CountsAlike (depth : Nat) (line : Line) : Prop :=
  depthInOrder depth line = depth + line.count '\x7b' - line.count '\x7d'

instance (depth : Nat) (line : Line) : Decidable (CountsAlike depth line) :=
  inferInstanceAs (Decidable (_ = _))

/-- A quiet line leaves the outermost block free and counts its braces. -/
theorem emitStep_walk {state next : LineState} (step : emitStep file ctx index state = some next)
    (free : state.pass.walk.outermost.held = [])
    (alike : CountsAlike state.pass.walk.below.length (file.lineOf index))
    (quiet : QuietLine file ctx index state) :
    next.pass.walk.below.length = state.pass.walk.below.length +
        (file.lineOf index).count '\x7b' - (file.lineOf index).count '\x7d' ∧
      next.pass.walk.outermost.held = [] := by
  rw [emitStep_eq] at step
  obtain ⟨actions, read, rfl⟩ := Option.map_eq_some_iff.mp step
  obtain ⟨entered, outer⟩ := enteredPass_walk file ctx index state
  obtain ⟨same, landed⟩ := landedPass_walk file index (outer.symm ▸ free)
  obtain ⟨moved, freed⟩ := foldl_emitAction_walk (quiet actions read) landed
  rw [foldl_depthBehind_filter, filter_actionsOnLine read, foldl_braceActions, same,
    entered] at moved
  simp only
  rw [(endLine_walk _ _ _).1, (endLine_walk _ _ _).2]
  unfold CountsAlike at alike
  by_cases wrapped : wrapsLine file index state = true
  · rw [if_pos wrapped] at moved ⊢
    obtain ⟨left, kept⟩ := leave_outermost (actions.foldl (emitAction file ctx index)
      (landedPass file index (enteredPass file ctx index state))).walk .fallThrough
    have balanced : (file.lineOf index).count '\x7b' = (file.lineOf index).count '\x7d' := by
      unfold wrapsLine at wrapped
      simp only [Bool.and_eq_true, beq_iff_eq] at wrapped
      rw [count_trim (by decide), count_trim (by decide)] at wrapped
      exact wrapped.2
    have lower := le_depthInOrder (state.pass.walk.below.length + 1) (file.lineOf index)
    have upper := depthInOrder_add state.pass.walk.below.length 1 (file.lineOf index)
    rw [left, moved]
    exact ⟨by omega, kept freed⟩
  · rw [if_neg wrapped, Nat.add_zero] at moved
    rw [if_neg wrapped, moved, alike]
    exact ⟨rfl, freed⟩

theorem quietOutside_left {pass : Pass} {done rest : List (Nat × Action)}
    (quiet : QuietOutside file ctx index pass (done ++ rest)) :
    QuietOutside file ctx index pass done := by
  induction done generalizing pass with
  | nil => trivial
  | cons action done ih => exact ⟨quiet.1, ih quiet.2⟩

end Steps

section Bodies

def isOpen : Action → Bool
  | .openBlock => true
  | _ => false

variable (file : FileScan) (ctx : Context) (index : Nat)

/-- These are the locks that the walk holds behind the first opening brace of a line. The scan reads
the name of a function in front of that brace. -/
def heldAtBody (state : LineState) : Option (List Held) :=
  (lineActions file ctx index (enteredPass file ctx index state)).bind fun actions =>
    let before := actions.takeWhile fun entry => !isOpen entry.2
    let pass := before.foldl (emitAction file ctx index)
      (landedPass file index (enteredPass file ctx index state))
    ((actions.dropWhile fun entry => !isOpen entry.2).head?).map fun entry =>
      (emitOpen file ctx index entry.1 pass).walk.top.held

/-- These are the states of the walk before each line of the file. -/
def walkTo (out : Emission) (index : Nat) : Option LineState :=
  (List.range index).foldlM (fun state index => emitStep file ctx index state)
    { pass := { walk := .new, out }, pendingBranch := false }

theorem walkTo_succ (out : Emission) :
    walkTo file ctx out (index + 1) =
      (walkTo file ctx out index).bind fun state => emitStep file ctx index state := by
  rw [walkTo, List.range_succ, List.foldlM_append]
  simp only [List.foldlM_cons, List.foldlM_nil, bind_pure]
  rfl

variable {file ctx index}

theorem depth_takeWhile (actions : List (Nat × Action)) :
    (actions.takeWhile fun entry => !isOpen entry.2).foldl
      (fun depth entry => depthBehind depth entry.2) 0 = 0 := by
  induction actions with
  | nil => rfl
  | cons entry rest ih =>
      obtain ⟨offset, action⟩ := entry
      cases action with
      | openBlock => rfl
      | _ => exact ih

/-- A body that opens in the free outermost block starts with the locks of the callers. -/
theorem heldAtBody_of_free {state : LineState} {name : String} {held : List Held}
    (named : file.functionOf index = some name) (alone : state.pass.walk.below.length = 0)
    (free : state.pass.walk.outermost.held = []) (plain : wrapsLine file index state = false)
    (quiet : QuietLine file ctx index state)
    (found : heldAtBody file ctx index state = some held) :
    held = (ctx.interproc.entries.lookup name).getD [] := by
  unfold heldAtBody at found
  obtain ⟨actions, read, opened⟩ := Option.bind_eq_some_iff.mp found
  simp only at opened
  obtain ⟨entry, first, rfl⟩ := Option.map_eq_some_iff.mp opened
  obtain ⟨entered, outer⟩ := enteredPass_walk file ctx index state
  obtain ⟨same, landed⟩ := landedPass_walk file index (outer.symm ▸ free)
  rw [plain, alone, if_neg Bool.false_ne_true, Nat.add_zero] at entered
  have calm := quiet actions read
  rw [← List.takeWhile_append_dropWhile (p := fun entry : Nat × Action => !isOpen entry.2)
    (l := actions)] at calm
  obtain ⟨moved, freed⟩ := foldl_emitAction_walk (quietOutside_left calm) landed
  rw [same, entered, depth_takeWhile] at moved
  have below := List.length_eq_zero_iff.mp moved
  rw [outermost_of_below_nil below] at freed
  unfold emitOpen
  simp only [Walk.openBlock, Walk.enter, Walk.depth, Walk.setHeld, below, freed, named,
    List.length_cons, List.length_nil]
  rfl

end Bodies

section Scan

variable (path : String) (lines : List Line)

/-- So many blocks are open before a line as the scan counts them. -/
def openBlocks (index : Nat) : Nat := ((lines.take index).foldl scanLine .empty).blocks.depth

theorem openBlocks_succ {index : Nat} (inside : index < lines.length) :
    openBlocks lines (index + 1) = openBlocks lines index +
      (lines.getD index []).count '\x7b' - (lines.getD index []).count '\x7d' := by
  have here : lines.getD index [] = lines[index] := by
    rw [List.getD_eq_getElem?_getD, List.getElem?_eq_getElem inside, Option.getD_some]
  rw [openBlocks, List.take_succ_eq_append_getElem inside, List.foldl_append, here]
  simp only [List.foldl_cons, List.foldl_nil, scanLine, Blocks.advance]
  rw [count_trim (by decide), count_trim (by decide)]
  simp only [openBlocks]
  omega

/-- The closing braces of the functions close blocks that are open. -/
def BodiesClose : Prop :=
  ∀ index < lines.length, ((structureOf path lines).functionOf index).isSome = true →
    ClosesOpen (openBlocks lines index) (lines.getD index [])

/-- The line opens the body of a function. -/
structure OpensBody (index : Nat) (name : String) : Prop where
  inside : index < lines.length
  outside : openBlocks lines index = 0
  named : (structureOf path lines).functionOf index = some name

variable (ctx : Context)

/-- The line acquires no lock outside all blocks. At file scope it takes its braces as the scan
counts them, and the line that opens a body is not the body of a branch. -/
structure StepMeets (index : Nat) (state : LineState) : Prop where
  quiet : QuietLine (structureOf path lines).toFileScan ctx index state
  counts : (structureOf path lines).functionOf index = none →
    CountsAlike (openBlocks lines index) (lines.getD index [])
  plain : openBlocks lines index = 0 → ((structureOf path lines).functionOf index).isSome = true →
    wrapsLine (structureOf path lines).toFileScan index state = false

instance : Decidable (BodiesClose path lines) :=
  inferInstanceAs (Decidable (∀ index < lines.length, _ → _))

instance (index : Nat) (state : LineState) : Decidable (StepMeets path lines ctx index state) :=
  decidable_of_iff
    (QuietLine (structureOf path lines).toFileScan ctx index state ∧
      ((structureOf path lines).functionOf index = none →
        CountsAlike (openBlocks lines index) (lines.getD index [])) ∧
      (openBlocks lines index = 0 → ((structureOf path lines).functionOf index).isSome = true →
        wrapsLine (structureOf path lines).toFileScan index state = false))
    ⟨fun ⟨quiet, counts, plain⟩ => ⟨quiet, counts, plain⟩,
      fun meets => ⟨meets.quiet, meets.counts, meets.plain⟩⟩

/-- Every line meets the condition in the state in which the walk comes to it. -/
def LinesMeet (out : Emission) : Prop :=
  ∀ index < lines.length, ∀ state ∈ walkTo (structureOf path lines).toFileScan ctx out index,
    StepMeets path lines ctx index state

instance (out : Emission) : Decidable (LinesMeet path lines ctx out) :=
  inferInstanceAs (Decidable (∀ index < lines.length, ∀ state ∈ walkTo _ _ _ _, _))

variable {path lines ctx}

theorem walkTo_free {out : Emission} (close : BodiesClose path lines)
    (meets : LinesMeet path lines ctx out)
    {index : Nat} (inside : index ≤ lines.length) {state : LineState}
    (walked : walkTo (structureOf path lines).toFileScan ctx out index = some state) :
    state.pass.walk.below.length = openBlocks lines index ∧
      state.pass.walk.outermost.held = [] := by
  induction index generalizing state with
  | zero =>
      obtain rfl := Option.some.inj walked
      exact ⟨rfl, rfl⟩
  | succ index ih =>
      rw [walkTo_succ] at walked
      obtain ⟨before, earlier, step⟩ := Option.bind_eq_some_iff.mp walked
      obtain ⟨blocks, free⟩ := ih (Nat.le_of_succ_le inside) earlier
      have met := meets index inside before earlier
      have alike : CountsAlike (openBlocks lines index) (lines.getD index []) := by
        cases owned : (structureOf path lines).functionOf index with
        | none => exact met.counts owned
        | some name =>
            exact depthInOrder_of_closesOpen (close index inside (by rw [owned]; rfl))
      obtain ⟨moved, freed⟩ := emitStep_walk step free (blocks.symm ▸ alike) met.quiet
      rw [openBlocks_succ lines inside, ← blocks]
      exact ⟨moved, freed⟩

/-- Each function body starts with the locks that all callers hold, and with no others. -/
def BodiesStartAtEntry (path : String) (lines : List Line) (ctx : Context) (out : Emission) :
    Prop :=
  ∀ index name, OpensBody path lines index name →
    ∀ state ∈ walkTo (structureOf path lines).toFileScan ctx out index,
      ∀ held ∈ heldAtBody (structureOf path lines).toFileScan ctx index state,
        held = (ctx.interproc.entries.lookup name).getD []

/-- The bodies start so in every file where no line acquires a lock outside all blocks. -/
theorem bodiesStartAtEntry_of_meets {out : Emission} (close : BodiesClose path lines)
    (meets : LinesMeet path lines ctx out) :
    BodiesStartAtEntry path lines ctx out := by
  intro index name opens state walked held found
  obtain ⟨blocks, free⟩ := walkTo_free close meets (Nat.le_of_lt opens.inside) walked
  have met := meets index opens.inside state walked
  exact heldAtBody_of_free opens.named (blocks.trans opens.outside) free
    (met.plain opens.outside (by rw [opens.named]; rfl)) met.quiet found

/-- The callers of one function hold the given locks. -/
def calledWith (lines : List Line) (held : List Held) : Context where
  program := survey [(structureOf "sample.c" lines).toFileScan]
  sets := OrderedMap.empty
  repeating := ∅
  includeUnshared := false
  interproc := ⟨OrderedMap.empty, OrderedMap.empty.insert "use" held⟩

def noEmission : Emission := { sink := none, graph := .empty 0, unreleased := [], facts := .empty }

def heldAtSecondLine (lines : List Line) (ctx : Context) : Option (List String) :=
  ((walkTo (structureOf "sample.c" lines).toFileScan ctx noEmission 1).bind fun state =>
    heldAtBody (structureOf "sample.c" lines).toFileScan ctx 1 state).map fun held =>
      held.map Held.name

def quietFile : List Line :=
  ["int shared;", "void use(void) \x7b", "  shared = 1;", "\x7d"].map String.toList

theorem bodiesStartAtEntry_quietFile :
    BodiesStartAtEntry "sample.c" quietFile (calledWith quietFile [⟨"m", false⟩]) noEmission ∧
      heldAtSecondLine quietFile (calledWith quietFile [⟨"m", false⟩]) = some ["m"] :=
  ⟨bodiesStartAtEntry_of_meets (by decide +kernel) (by decide +kernel), by decide +kernel⟩

def macroFile : List Line :=
  ["#define LOCK() pthread_mutex_lock(&m)", "void use(void) \x7b", "\x7d"].map String.toList

/-- The lock of a macro at file scope is held in the body below it. -/
theorem not_bodiesStartAtEntry :
    ¬ ∀ path lines ctx out, BodiesClose path lines → BodiesStartAtEntry path lines ctx out := by
  intro all
  have start := all "sample.c" macroFile (calledWith macroFile []) noEmission (by decide +kernel)
  have opens : OpensBody "sample.c" macroFile 1 "use" :=
    ⟨by decide, by decide +kernel, by decide +kernel⟩
  have kept : heldAtSecondLine macroFile (calledWith macroFile []) = some ["m"] := by
    decide +kernel
  obtain ⟨held, found, named⟩ := Option.map_eq_some_iff.mp kept
  obtain ⟨state, walked, found⟩ := Option.bind_eq_some_iff.mp found
  have none : held = [] := start 1 "use" opens state walked held found
  rw [none] at named
  cases named

end Scan

end FramaCMcp.Concurrency
