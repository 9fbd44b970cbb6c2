/-
This file shows that a walk that starts with more locks holds more locks at every step.
-/

import FramaCMcp.Construction.Emission
import Mathlib.Data.List.Forall2

namespace FramaCMcp.Concurrency

/-- A path that holds more locks keeps more of them. -/
theorem intersect_sublist {outer wider path longer : List Held} (more : outer.Sublist wider)
    (held : path.Sublist longer) : (intersect outer path).Sublist (intersect wider longer) := by
  have kept : (intersect outer path).Sublist (intersect outer longer) := by
    apply List.monotone_filter_right
    intro lock inside
    exact List.elem_eq_true_of_mem (held.subset (List.mem_of_elem_eq_true inside))
  exact kept.trans (more.filter _)

theorem foldl_intersect_sublist {paths longer : List (List Held)}
    (held : List.Forall₂ List.Sublist paths longer) {outer wider : List Held}
    (more : outer.Sublist wider) :
    (paths.foldl intersect outer).Sublist (longer.foldl intersect wider) := by
  induction held generalizing outer wider with
  | nil => exact more
  | cons first _ ih => exact ih (intersect_sublist more first)

theorem release_sublist {held wider : List Held} (more : held.Sublist wider) (lock : String) :
    (release held lock).1.Sublist (release wider lock).1 :=
  (more.reverse.eraseP).reverse

/-- The block on the right holds more locks. -/
structure FrameLe (left right : Frame) : Prop where
  held : left.held.Sublist right.held
  body : left.body = right.body
  exits : List.Forall₂ List.Sublist left.exits right.exits

/-- The walk on the right is at the same place and holds more locks. -/
structure WalkLe (left right : Walk) : Prop where
  top : FrameLe left.top right.top
  below : List.Forall₂ FrameLe left.below right.below
  locals : left.locals = right.locals
  gotos : List.Forall₂ List.Sublist left.gotos right.gotos
  previous : left.previous = right.previous
  conditional : left.previousConditional = right.previousConditional

namespace WalkLe

theorem new : WalkLe Walk.new Walk.new :=
  ⟨⟨.refl _, rfl, .nil⟩, .nil, rfl, .nil, rfl, rfl⟩

variable {left right : Walk}

theorem depth (le : WalkLe left right) : left.depth = right.depth :=
  congrArg (· + 1) le.below.length_eq

theorem setHeld (le : WalkLe left right) {held wider : List Held} (more : held.Sublist wider) :
    WalkLe (left.setHeld held) (right.setHeld wider) :=
  { le with top := ⟨more, le.top.body, le.top.exits⟩ }

theorem enter (le : WalkLe left right) (body : Body) :
    WalkLe (left.enter body) (right.enter body) :=
  { le with
    top := ⟨le.top.held, rfl, .nil⟩
    below := .cons le.top le.below }

theorem openBlock (le : WalkLe left right) (before : Line) :
    WalkLe (left.openBlock before) (right.openBlock before) := by
  unfold Walk.openBlock
  rw [le.previous]
  exact le.enter _

theorem land (le : WalkLe left right) : WalkLe left.land right.land :=
  le.setHeld (foldl_intersect_sublist le.gotos le.top.held)

end WalkLe

variable {path longer : List Held}

theorem mergeTop_le (more : path.Sublist longer) {frames wider : List Frame}
    (le : List.Forall₂ FrameLe frames wider) :
    List.Forall₂ FrameLe (Walk.mergeTop path frames) (Walk.mergeTop longer wider) := by
  cases le with
  | nil => exact .nil
  | cons first rest => exact .cons ⟨intersect_sublist first.held more, first.body, first.exits⟩ rest

/-- The path lands at the same block on both sides. -/
theorem pushExit_le {exit : Exit} (more : path.Sublist longer) {frames wider : List Frame}
    (le : List.Forall₂ FrameLe frames wider) :
    Option.Rel (List.Forall₂ FrameLe) (Walk.pushExit exit path frames)
      (Walk.pushExit exit longer wider) := by
  induction le with
  | nil => exact .none
  | @cons frame other rest others first le ih =>
      unfold Walk.pushExit
      rw [first.body]
      by_cases lands : landsAt exit other.body = true
      · rw [if_pos lands, if_pos lands]
        refine .some (.cons ⟨first.held, rfl, ?_⟩ le)
        exact List.rel_append first.exits (.cons more .nil)
      · rw [if_neg lands, if_neg lands]
        generalize Walk.pushExit exit path rest = narrow at ih ⊢
        generalize Walk.pushExit exit longer others = wide at ih ⊢
        cases ih with
        | none => exact .none
        | some later => exact .some (.cons first later)

theorem landing_le (exit : Exit) (more : path.Sublist longer) {frames wider : List Frame}
    (le : List.Forall₂ FrameLe frames wider) :
    List.Forall₂ FrameLe (Walk.landing exit path frames) (Walk.landing exit longer wider) := by
  have moved (exit : Exit) : List.Forall₂ FrameLe
      ((Walk.pushExit exit path frames).getD (Walk.mergeTop path frames))
      ((Walk.pushExit exit longer wider).getD (Walk.mergeTop longer wider)) := by
    have pushed : Option.Rel _ (Walk.pushExit exit path frames) (Walk.pushExit exit longer wider) :=
      pushExit_le more le
    generalize Walk.pushExit exit path frames = narrow at pushed ⊢
    generalize Walk.pushExit exit longer wider = wide at pushed ⊢
    cases pushed with
    | none => exact mergeTop_le more le
    | some later => exact later
  cases exit with
  | fallThrough => exact mergeTop_le more le
  | leaves => exact le
  | breaks => exact moved .breaks
  | continues => exact moved .continues
  | jumps => exact le

/-- Leaving a block gives related walks and related paths. -/
theorem leave_le {left right : Walk} (le : WalkLe left right) (exit : Exit) :
    WalkLe (left.leave exit).1 (right.leave exit).1 ∧
      Option.Rel List.Sublist (left.leave exit).2 (right.leave exit).2 := by
  have below := le.below
  have body := le.top.body
  unfold Walk.leave
  rcases left with ⟨top, frames, locals, gotos, previous, conditional⟩
  rcases right with ⟨other, wider, names, jumps, last, branch⟩
  simp only at below body ⊢
  rw [body]
  cases below with
  | nil => exact ⟨le, .none⟩
  | @cons outer above rest others first later =>
      have landed := landing_le (if landsAt exit other.body = true then .fallThrough else exit)
        le.top.held (.cons first later)
      simp only
      generalize Walk.landing _ top.held (outer :: rest) = narrow at landed ⊢
      generalize Walk.landing _ other.held (above :: others) = wide at landed ⊢
      cases landed with
      | nil => exact ⟨le, .none⟩
      | cons merged more =>
          refine ⟨⟨⟨foldl_intersect_sublist le.top.exits merged.held, merged.body, merged.exits⟩,
            more, le.locals, ?_, le.previous, le.conditional⟩, .some le.top.held⟩
          simp only
          split_ifs
          · exact List.rel_append le.gotos (.cons le.top.held .nil)
          · exact le.gotos
          · exact List.rel_append le.gotos (.cons le.top.held .nil)
          · exact le.gotos

theorem closeBlock_le {left right : Walk} (le : WalkLe left right) (before : Line) :
    WalkLe (left.closeBlock before).1 (right.closeBlock before).1 ∧
      Option.Rel List.Sublist (left.closeBlock before).2 (right.closeBlock before).2 := by
  unfold Walk.closeBlock
  rw [le.previous, le.conditional]
  exact leave_le le _

/-- The map on the right has the same keys and longer lists. -/
def ListsLe (left right : OrderedMap String (List Held)) : Prop :=
  ∀ key, Option.Rel List.Sublist (left.lookup key) (right.lookup key)

theorem meet_le {left right : OrderedMap String (List Held)} (le : ListsLe left right)
    (key : String) (more : path.Sublist longer) :
    ListsLe (meet left key path) (meet right key longer) := by
  have here := le key
  unfold meet
  generalize narrow : left.lookup key = first at here ⊢
  generalize wide : right.lookup key = second at here ⊢
  intro name
  cases here with
  | none =>
      simp only [OrderedMap.lookup_insert]
      split_ifs
      · exact .some more
      · exact le name
  | some sofar =>
      simp only [OrderedMap.lookup_insert]
      split_ifs
      · exact .some (intersect_sublist sofar more)
      · exact le name

/-- The two walks saw the same calls and gather the facts only. -/
structure PassLe (left right : Pass) : Prop where
  walk : WalkLe left.walk right.walk
  sites : ListsLe left.out.facts.sites right.out.facts.sites
  silent : left.out.sink = none
  alike : right.out.sink = none

/-- The walk on the right has the same summaries and starts the functions with more locks. -/
structure ContextLe (left right : Context) : Prop where
  program : left.program = right.program
  sets : left.sets = right.sets
  repeating : left.repeating = right.repeating
  unshared : left.includeUnshared = right.includeUnshared
  summaries : left.interproc.summaries = right.interproc.summaries
  entries : ∀ function, ((left.interproc.entries.lookup function).getD []).Sublist
    ((right.interproc.entries.lookup function).getD [])

section Steps

variable {file : FileScan} {first second : Context}

/-- A lock call changes the held locks in the same way for all graphs. -/
theorem applyLock_sublist {held wider : List Held} (more : held.Sublist wider) (entry : LockApi)
    (lock : String) (inherited other : List String) (site place : Site) (graph order : LockGraph) :
    (applyLock entry lock held inherited site graph).1.Sublist
      (applyLock entry lock wider other place order).1 := by
  unfold applyLock
  cases entry.op with
  | acquire => exact more.append_right _
  | attempt => exact more
  | release => exact release_sublist more lock
  | wait =>
      simp only
      split_ifs <;> exact more

variable {left right : Pass}

theorem lockAction_le (le : PassLe left right) (function : String) (entry : LockApi) (lock : String)
    (site place : Site) :
    PassLe (lockAction first function entry lock site left)
      (lockAction second function entry lock place right) := by
  unfold lockAction
  refine ⟨le.walk.setHeld (applyLock_sublist le.walk.top.held ..), ?_, le.silent, le.alike⟩
  simp only
  split_ifs <;> exact le.sites

theorem emitEvent_silent {pass : Pass} (silent : pass.out.sink = none) (ctx : Context)
    (index : Nat) (kind : EventKind) (zone lockMode : Option String) :
    emitEvent file ctx index kind zone lockMode pass = pass := by
  unfold emitEvent
  rw [silent]

theorem applyReleased_le (le : PassLe left right) (caller : String) (line : Line) (call : CallAt)
    (named : LockRef) :
    PassLe (applyReleased caller line call left named)
      (applyReleased caller line call right named) := by
  unfold applyReleased
  rw [le.walk.locals]
  cases resolveLock line call right.walk.locals named with
  | none => exact ⟨le.walk.setHeld (.refl _), le.sites, le.silent, le.alike⟩
  | some name =>
      refine ⟨le.walk.setHeld (release_sublist le.walk.top.held name), ?_, ?_, ?_⟩
      · simp only
        split_ifs <;> exact le.sites
      · simp only
        split_ifs <;> exact le.silent
      · simp only
        split_ifs <;> exact le.alike

theorem applyAcquired_le (le : PassLe left right) (line : Line) (call : CallAt) (site place : Site)
    (named : LockRef × Bool) :
    PassLe (applyAcquired line call site left named) (applyAcquired line call place right named) := by
  unfold applyAcquired
  rw [le.walk.locals]
  cases resolveLock line call right.walk.locals named.1 with
  | none => exact ⟨le.walk, le.sites, le.silent, le.alike⟩
  | some name =>
      exact ⟨le.walk.setHeld (le.walk.top.held.append_right _), le.sites, le.silent, le.alike⟩

/-- A step that keeps the relation keeps it along a list. -/
theorem foldl_le {Item : Type} {narrow wide : Pass → Item → Pass}
    (step : ∀ left right, PassLe left right → ∀ item, PassLe (narrow left item) (wide right item))
    (items : List Item) (le : PassLe left right) :
    PassLe (items.foldl narrow left) (items.foldl wide right) := by
  induction items generalizing left right with
  | nil => exact le
  | cons item rest ih => exact ih (step left right le item)

theorem callSite_le (more : ContextLe first second) (le : PassLe left right) (caller : String)
    (call : CallAt) (line : Line) (site place : Site) :
    PassLe (callSite first caller call line site left)
      (callSite second caller call line place right) := by
  have met : PassLe
      { left with out := { left.out with facts := { left.out.facts with
        sites := meet left.out.facts.sites call.name
          (left.walk.top.held.filter fun lock =>
            !(paramsOf second.program caller).contains lock.name) } } }
      { right with out := { right.out with facts := { right.out.facts with
        sites := meet right.out.facts.sites call.name
          (right.walk.top.held.filter fun lock =>
            !(paramsOf second.program caller).contains lock.name) } } } :=
    ⟨le.walk, meet_le le.sites call.name (le.walk.top.held.filter _), le.silent, le.alike⟩
  unfold callSite
  rw [more.program, more.summaries]
  cases second.interproc.summaries.lookup call.name with
  | none => exact met
  | some summary =>
      exact foldl_le (fun _ _ le named => applyAcquired_le le line call site place named) _
        (foldl_le (fun _ _ le named => applyReleased_le le caller line call named) _ met)

theorem emitOpen_le (more : ContextLe first second) (le : PassLe left right) (index offset : Nat) :
    PassLe (emitOpen file first index offset left) (emitOpen file second index offset right) := by
  have opened := le.walk.openBlock ((file.lineOf index).take offset)
  unfold emitOpen
  refine ⟨?_, le.sites, le.silent, le.alike⟩
  simp only [opened.depth]
  apply opened.setHeld
  apply opened.top.held.append
  split_ifs
  · cases file.functionOf index with
    | none => exact .refl _
    | some function => exact more.entries function
  · exact .refl _

theorem emitClose_le (le : PassLe left right) (index offset : Nat) :
    PassLe (emitClose file first index offset left) (emitClose file second index offset right) := by
  obtain ⟨closed, _⟩ := closeBlock_le le.walk ((file.lineOf index).take offset)
  unfold emitClose
  refine ⟨closed, ?_, le.silent, le.alike⟩
  simp only
  split <;> split <;> exact le.sites

theorem emitAction_le (more : ContextLe first second) (le : PassLe left right) (index : Nat)
    (action : Nat × Action) :
    PassLe (emitAction file first index left action) (emitAction file second index right action) := by
  have silent {pass : Pass} (none : pass.out.sink = none) (ctx : Context) (kind : EventKind)
      (zone mode : Option String) : emitEvent file ctx index kind zone mode pass = pass :=
    emitEvent_silent none ctx index kind zone mode
  rcases action with ⟨offset, action⟩
  unfold emitAction
  cases action with
  | openBlock => exact emitOpen_le more le index offset
  | closeBlock => exact emitClose_le le index offset
  | returns => exact ⟨le.walk, le.sites, le.silent, le.alike⟩
  | call call =>
      simp only
      split_ifs
      · exact callSite_le more le ..
      · exact le
  | lock entry lock =>
      have locked : PassLe
          (lockAction first ((file.functionOf index).getD "") entry lock
            (lineSite file first index) left)
          (lockAction second ((file.functionOf index).getD "") entry lock
            (lineSite file second index) right) := lockAction_le le _ _ _ _ _
      simp only
      rw [silent locked.silent, silent locked.alike]
      exact locked
  | create entry =>
      simp only
      rw [silent le.silent, silent le.alike]
      exact le
  | join =>
      simp only
      rw [silent le.silent, silent le.alike]
      exact le
  | access kind zone =>
      simp only
      rw [silent le.silent, silent le.alike]
      exact le

theorem emitLine_le (more : ContextLe first second) (le : PassLe left right) (index : Nat) :
    Option.Rel PassLe (emitLine file first index left) (emitLine file second index right) := by
  have zones : zoneOf first ((file.functionOf index).getD "") left.walk.locals =
      zoneOf second ((file.functionOf index).getD "") right.walk.locals := by
    unfold zoneOf
    rw [more.program, more.unshared, le.walk.locals]
  unfold emitLine
  simp only
  rw [zones, more.program]
  cases actionsOnLine (file.lineOf index) _ second.program.defined with
  | none => exact .none
  | some actions =>
      refine .some (foldl_le (fun _ _ le action => emitAction_le more le index action) actions ?_)
      split_ifs
      · exact ⟨le.walk.land, le.sites, le.silent, le.alike⟩
      · exact le

theorem endLine_le {left right : Walk} (le : WalkLe left right) (line : Line) (pending : Bool) :
    WalkLe (endLine line pending left) (endLine line pending right) := by
  have noted : WalkLe
      (if line = [] then left else { left with previous := line, previousConditional := pending })
      (if line = [] then right
        else { right with previous := line, previousConditional := pending }) := by
    split_ifs
    · exact le
    · exact ⟨le.top, le.below, le.locals, le.gotos, rfl, rfl⟩
  have depth := noted.depth
  unfold endLine
  generalize (if line = [] then left
    else { left with previous := line, previousConditional := pending }) = narrow at noted depth ⊢
  generalize (if line = [] then right
    else { right with previous := line, previousConditional := pending }) = wide at noted depth ⊢
  simp only [depth]
  by_cases outside : wide.depth = 1
  · rw [if_pos outside, if_pos outside]
    exact ⟨noted.top, noted.below, rfl, .nil, noted.previous, noted.conditional⟩
  · rw [if_neg outside, if_neg outside]
    exact noted

/-- The state on the right is at the same line and holds more locks. -/
structure StateLe (left right : LineState) : Prop where
  pass : PassLe left.pass right.pass
  pending : left.pendingBranch = right.pendingBranch

theorem declareLocals_le {left right : Walk} (more : ContextLe first second)
    (le : WalkLe left right) (index : Nat) (line : Line) :
    WalkLe (declareLocals file first index line left)
      (declareLocals file second index line right) := by
  unfold declareLocals
  rw [more.program, le.locals]
  split_ifs
  · exact ⟨le.top, le.below, rfl, le.gotos, le.previous, le.conditional⟩
  · exact le

/-- A step of related states gives related states, or none on both sides. -/
theorem rel_map {Item Other : Type} {related : Item → Item → Prop} {image : Other → Other → Prop}
    {narrow wide : Option Item} (le : Option.Rel related narrow wide) {left right : Item → Other}
    (keeps : ∀ before after, related before after → image (left before) (right after)) :
    Option.Rel image (narrow.map left) (wide.map right) := by
  cases le with
  | none => exact .none
  | some inside => exact .some (keeps _ _ inside)

theorem emitStep_le {left right : LineState} (more : ContextLe first second)
    (le : StateLe left right) (index : Nat) :
    Option.Rel StateLe (emitStep file first index left) (emitStep file second index right) := by
  have declared : WalkLe
      (declareLocals file first index (Line.trim (file.lineOf index)) left.pass.walk)
      (declareLocals file second index (Line.trim (file.lineOf index)) right.pass.walk) :=
    declareLocals_le more le.pass.walk index _
  unfold emitStep
  simp only
  rw [le.pending]
  by_cases wrapped : ((right.pendingBranch ||
      branchOn (Line.trim (file.lineOf index)) == .sameLine) &&
      (Line.trim (file.lineOf index)).count '\x7b' ==
        (Line.trim (file.lineOf index)).count '\x7d') = true
  · simp only [if_pos wrapped]
    have entered : PassLe
        { left.pass with walk := (declareLocals file first index
          (Line.trim (file.lineOf index)) left.pass.walk).enter .plain }
        { right.pass with walk := (declareLocals file second index
          (Line.trim (file.lineOf index)) right.pass.walk).enter .plain } :=
      ⟨declared.enter .plain, le.pass.sites, le.pass.silent, le.pass.alike⟩
    refine rel_map (emitLine_le more entered index) ?_
    intro narrow wide emitted
    exact ⟨⟨endLine_le (leave_le emitted.walk .fallThrough).1 _ _, emitted.sites, emitted.silent,
      emitted.alike⟩, rfl⟩
  · simp only [if_neg wrapped]
    have entered : PassLe
        { left.pass with
          walk := declareLocals file first index (Line.trim (file.lineOf index)) left.pass.walk }
        { right.pass with
          walk := declareLocals file second index (Line.trim (file.lineOf index))
            right.pass.walk } :=
      ⟨declared, le.pass.sites, le.pass.silent, le.pass.alike⟩
    refine rel_map (emitLine_le more entered index) ?_
    intro narrow wide emitted
    exact ⟨⟨endLine_le emitted.walk _ _, emitted.sites, emitted.silent, emitted.alike⟩, rfl⟩

/-- This is the walk over the lines of a file without a deadline. -/
def fileWalk (file : FileScan) (ctx : Context) (out : Emission) : Option Emission :=
  ((List.range file.lines.length).foldlM (fun state index => emitStep file ctx index state)
    { pass := { walk := .new, out }, pendingBranch := false }).map fun state => state.pass.out

/-- This is what a walk over all files sees without a deadline. -/
def factsOf (scans : List FileScan) (ctx : Context) : Option Facts :=
  (scans.foldlM (fun out file => fileWalk file ctx out)
    { sink := none, graph := .empty 0, unreleased := [], facts := .empty }).map Emission.facts

/-- A step that keeps a relation, or stops on both sides, does so along a list. -/
theorem foldlM_rel {Item State : Type} {related : State → State → Prop}
    {narrow wide : State → Item → Option State}
    (step : ∀ left right, related left right →
      ∀ item, Option.Rel related (narrow left item) (wide right item))
    (items : List Item) {left right : State} (le : related left right) :
    Option.Rel related (items.foldlM narrow left) (items.foldlM wide right) := by
  induction items generalizing left right with
  | nil => exact .some le
  | cons item rest ih =>
      have next := step left right le item
      rw [List.foldlM_cons, List.foldlM_cons]
      generalize narrow left item = first at next ⊢
      generalize wide right item = second at next ⊢
      cases next with
      | none => exact .none
      | some kept => exact ih kept

/-- The emission on the right met more locks at each call. -/
structure EmissionLe (left right : Emission) : Prop where
  sites : ListsLe left.facts.sites right.facts.sites
  silent : left.sink = none
  alike : right.sink = none

theorem fileWalk_le {left right : Emission} (more : ContextLe first second)
    (le : EmissionLe left right) (file : FileScan) :
    Option.Rel EmissionLe (fileWalk file first left) (fileWalk file second right) := by
  have started : StateLe { pass := { walk := .new, out := left }, pendingBranch := false }
      { pass := { walk := .new, out := right }, pendingBranch := false } :=
    ⟨⟨.new, le.sites, le.silent, le.alike⟩, rfl⟩
  refine rel_map (foldlM_rel (fun _ _ le index => emitStep_le more le index) _ started) ?_
  intro before after states
  exact ⟨states.pass.sites, states.pass.silent, states.pass.alike⟩

theorem factsOf_le (scans : List FileScan) (more : ContextLe first second) :
    Option.Rel (fun left right => ListsLe left.sites right.sites) (factsOf scans first)
      (factsOf scans second) := by
  unfold factsOf
  refine rel_map (foldlM_rel (fun _ _ le file => fileWalk_le more le file) scans
    (EmissionLe.mk ?_ rfl rfl)) fun _ _ le => le.sites
  intro key
  exact .none

end Steps

section Clock

variable (deadline : Deadline)

/-- A walk that ends before its deadline is the walk without one. -/
theorem emitLines_some {file : FileScan} {ctx : Context} {indices : List Nat} {state : LineState}
    {checks : Nat} {out : Emission}
    (ended : (emitLines deadline file ctx indices state checks).1 = some out) :
    (indices.foldlM (fun state index => emitStep file ctx index state) state).map
      (fun state => state.pass.out) = some out := by
  induction indices generalizing state checks with
  | nil => exact ended
  | cons index rest ih =>
      unfold emitLines at ended
      split_ifs at ended with late
      rw [List.foldlM_cons]
      cases step : emitStep file ctx index state with
      | none =>
          rw [step] at ended
          exact nomatch ended
      | some next =>
          rw [step] at ended
          exact ih ended

theorem walkFiles_some {scans : List FileScan} {ctx : Context} {start out : Emission}
    {checks : Nat} (ended : (walkFiles deadline ctx scans start checks).1 = some out) :
    scans.foldlM (fun out file => fileWalk file ctx out) start = some out := by
  induction scans generalizing start checks with
  | nil => exact ended
  | cons file rest ih =>
      unfold walkFiles at ended
      cases step : emitFile deadline file ctx start checks with
      | mk found count =>
          rw [step] at ended
          cases found with
          | none => exact nomatch ended
          | some next =>
              have walked : fileWalk file ctx start = some next :=
                emitLines_some deadline (congrArg Prod.fst step)
              rw [List.foldlM_cons, walked]
              exact ih ended

theorem walkForFacts_some {scans : List FileScan} {ctx : Context} {checks : Nat} {facts : Facts}
    (ended : (walkForFacts deadline scans ctx checks).1 = some facts) :
    factsOf scans ctx = some facts := by
  unfold walkForFacts at ended
  simp only [Option.map_eq_some_iff] at ended
  obtain ⟨out, walked, same⟩ := ended
  unfold factsOf
  rw [walkFiles_some deadline walked, ← same]
  rfl

variable {deadline} (never : ∀ check, deadline.passed check = false)

include never in
theorem emitLines_patient (file : FileScan) (ctx : Context) (indices : List Nat)
    (state : LineState) (checks : Nat) :
    (emitLines deadline file ctx indices state checks).1 =
      (indices.foldlM (fun state index => emitStep file ctx index state) state).map
        fun state => state.pass.out := by
  induction indices generalizing state checks with
  | nil => rfl
  | cons index rest ih =>
      unfold emitLines
      rw [if_neg (Bool.eq_false_iff.mp (never checks)), List.foldlM_cons]
      cases emitStep file ctx index state with
      | none => rfl
      | some next => exact ih next (checks + 1)

include never in
theorem walkFiles_patient (scans : List FileScan) (ctx : Context) (start : Emission)
    (checks : Nat) :
    (walkFiles deadline ctx scans start checks).1 =
      scans.foldlM (fun out file => fileWalk file ctx out) start := by
  induction scans generalizing start checks with
  | nil => rfl
  | cons file rest ih =>
      have first : (emitFile deadline file ctx start checks).1 = fileWalk file ctx start :=
        emitLines_patient never file ctx _ _ checks
      unfold walkFiles
      rw [List.foldlM_cons, ← first]
      rcases emitFile deadline file ctx start checks with ⟨_ | next, count⟩
      · rfl
      · exact ih next count

include never in
/-- Without a deadline, a walk gives all of its facts. -/
theorem walkForFacts_patient (scans : List FileScan) (ctx : Context) (checks : Nat) :
    (walkForFacts deadline scans ctx checks).1 = factsOf scans ctx := by
  unfold walkForFacts factsOf
  simp only [walkFiles_patient never]

end Clock

theorem lookup_entriesFrom (facts : Facts) (program : Program) (function : String) :
    (entriesFrom facts program).lookup function =
      (facts.sites.lookup function).filter fun held =>
        !held.isEmpty && function != "main" && !OrderedMap.contains program.entries function &&
          !OrderedMap.contains program.indirect function :=
  OrderedMap.lookup_filter ..

/-- A function that more locks are held at starts with more locks. -/
theorem entriesFrom_le {left right : Facts} (le : ListsLe left.sites right.sites)
    (program : Program) (function : String) :
    (((entriesFrom left program).lookup function).getD []).Sublist
      (((entriesFrom right program).lookup function).getD []) := by
  have site := le function
  rw [lookup_entriesFrom, lookup_entriesFrom]
  generalize left.sites.lookup function = narrow at site ⊢
  generalize right.sites.lookup function = wide at site ⊢
  cases site with
  | none => exact .refl _
  | @some held more sofar =>
      cases held with
      | nil => exact List.nil_sublist _
      | cons lock rest =>
          have taken : more ≠ [] := fun empty => by
            subst empty
            exact nomatch List.eq_nil_of_sublist_nil sofar
          have full : more.isEmpty = false := List.isEmpty_eq_false_iff.mpr taken
          simp only [Option.filter_some, full, List.isEmpty_cons]
          split_ifs
          · exact sofar
          · exact .refl _

end FramaCMcp.Concurrency
