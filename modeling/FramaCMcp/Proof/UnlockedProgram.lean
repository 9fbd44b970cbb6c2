/-
This file shows that a walk over a program without a lock call sees no release.
-/

import FramaCMcp.Proof.LineActions
import FramaCMcp.Proof.WalkOrder

namespace FramaCMcp.Concurrency

/-- No call on the line is in the lock table. -/
def Unlocked (line : Line) : Prop :=
  ∀ call ∈ callsAmong line (identifiers line), lockApi call.name = none

theorem unlocked_of_surveyCalls {found : List Call} {program : Program}
    (uncounted : (found.foldl surveyCall program).lockCalls = 0) :
    program.lockCalls = 0 ∧ ∀ call ∈ found, lockApi call.name = none := by
  induction found generalizing program with
  | nil => exact ⟨uncounted, fun call member => nomatch member⟩
  | cons call rest ih =>
      obtain ⟨first, later⟩ := ih uncounted
      have counted : program.lockCalls + (if (lockApi call.name).isSome then 1 else 0) = 0 := first
      have unknown : lockApi call.name = none := by
        rw [← Option.not_isSome_iff_eq_none]
        intro known
        rw [if_pos known] at counted
        omega
      refine ⟨by omega, ?_⟩
      intro other member
      rcases List.mem_cons.mp member with rfl | member
      · exact unknown
      · exact later other member

theorem unlocked_of_surveyLines {lines : List Line} {program : Program}
    (uncounted : (lines.foldl surveyLine program).lockCalls = 0) :
    program.lockCalls = 0 ∧ ∀ line ∈ lines, Unlocked line := by
  induction lines generalizing program with
  | nil => exact ⟨uncounted, fun line member => nomatch member⟩
  | cons line rest ih =>
      obtain ⟨first, later⟩ := ih uncounted
      obtain ⟨before, here⟩ := unlocked_of_surveyCalls first
      refine ⟨before, ?_⟩
      intro other member
      rcases List.mem_cons.mp member with rfl | member
      · exact here
      · exact later other member

theorem unlocked_of_survey {files : List FileScan} (uncounted : (survey files).lockCalls = 0)
    {file : FileScan} (member : file ∈ files) (index : Nat) : Unlocked (file.lineOf index) := by
  obtain ⟨_, lines⟩ := unlocked_of_surveyLines uncounted
  unfold FileScan.lineOf
  rw [List.getD_eq_getElem?_getD]
  cases found : file.lines[index]? with
  | none => exact fun call inside => nomatch inside
  | some line => exact lines line (List.mem_flatMap.mpr ⟨file, member, List.mem_of_getElem? found⟩)

def isLock : Action → Bool
  | .lock _ _ => true
  | _ => false

/-- A line without a lock call has no lock action. -/
theorem actionsOnLine_unlocked {line : Line} {zones : Zones} {defined : OrderedSet String}
    {actions : List (Nat × Action)} (unlocked : Unlocked line)
    (read : actionsOnLine line zones defined = some actions) {entry : Nat × Action}
    (member : entry ∈ actions) : isLock entry.2 = false := by
  unfold actionsOnLine at read
  simp only [Option.map_eq_some_iff] at read
  obtain ⟨accesses, tokens, rfl⟩ := read
  have inside := (StableSort.sortByKey_perm ..).mem_iff.mp member
  rcases List.mem_append.mp inside with early | braces
  · rcases List.mem_append.mp early with calls | tokenWise
    · obtain ⟨call, known, here⟩ := List.mem_flatMap.mp calls
      rcases mem_callActions here with joined | ⟨_, started⟩ | ⟨api, _, listed, _⟩ | ⟨_, called⟩
      · rw [joined]
        rfl
      · rw [started]
        rfl
      · rw [unlocked call known] at listed
        cases listed
      · rw [called]
        rfl
    · rcases mem_accesses tokens tokenWise with returned | ⟨_, _, accessed⟩
      · rw [returned]
        rfl
      · rw [accessed]
        rfl
  · rcases (mem_braceActions braces).2 with opened | closed
    · rw [opened]
      rfl
    · rw [closed]
      rfl

/-- No release was seen. -/
structure Quiet (facts : Facts) : Prop where
  released : facts.released = OrderedMap.empty
  known : facts.releasesUnknown = OrderedMap.empty

section Steps

variable {file : FileScan} {ctx : Context}

theorem emitEvent_facts (index : Nat) (kind : EventKind) (zone lockMode : Option String)
    (pass : Pass) :
    (emitEvent file ctx index kind zone lockMode pass).out.facts = pass.out.facts := by
  unfold emitEvent
  cases pass.out.sink <;> cases file.functionOf index <;> rfl

theorem callSite_quiet (plain : ctx.interproc.summaries = OrderedMap.empty) {pass : Pass}
    (quiet : Quiet pass.out.facts) (caller : String) (call : CallAt) (line : Line) (site : Site) :
    Quiet (callSite ctx caller call line site pass).out.facts := by
  unfold callSite
  rw [plain]
  exact ⟨quiet.released, quiet.known⟩

/-- Only a lock action releases a lock when the functions have no summaries. -/
theorem emitAction_quiet (plain : ctx.interproc.summaries = OrderedMap.empty) (index : Nat)
    {pass : Pass} (quiet : Quiet pass.out.facts) {action : Nat × Action}
    (unlocked : isLock action.2 = false) :
    Quiet (emitAction file ctx index pass action).out.facts := by
  rcases action with ⟨offset, action⟩
  unfold emitAction
  cases action with
  | openBlock => exact quiet
  | closeBlock =>
      simp only
      unfold emitClose
      simp only
      split
      · exact ⟨quiet.released, quiet.known⟩
      · exact quiet
  | returns => exact ⟨quiet.released, quiet.known⟩
  | call call =>
      simp only
      split_ifs
      · exact callSite_quiet plain quiet ..
      · exact quiet
  | lock entry lock => exact nomatch unlocked
  | create entry =>
      simp only [emitEvent_facts]
      exact quiet
  | join =>
      simp only [emitEvent_facts]
      exact quiet
  | access kind zone =>
      simp only [emitEvent_facts]
      exact quiet

theorem emitLine_quiet (plain : ctx.interproc.summaries = OrderedMap.empty) {index : Nat}
    (unlocked : Unlocked (file.lineOf index)) {pass emitted : Pass}
    (ended : emitLine file ctx index pass = some emitted) (quiet : Quiet pass.out.facts) :
    Quiet emitted.out.facts := by
  unfold emitLine at ended
  simp only [Option.map_eq_some_iff] at ended
  obtain ⟨actions, read, rfl⟩ := ended
  have each (entry : Nat × Action) (member : entry ∈ actions) : isLock entry.2 = false :=
    actionsOnLine_unlocked unlocked read member
  have landed : Quiet (if (file.functionOf index).isSome && isLabel (file.lineOf index) then
      { pass with walk := pass.walk.land } else pass).out.facts := by
    split_ifs <;> exact quiet
  exact List.foldlRecOn (motive := fun pass : Pass => Quiet pass.out.facts) actions
    (emitAction file ctx index) landed fun pass quiet action member =>
      emitAction_quiet plain index quiet (each action member)

theorem emitStep_quiet (plain : ctx.interproc.summaries = OrderedMap.empty) {index : Nat}
    (unlocked : Unlocked (file.lineOf index)) {state next : LineState}
    (quiet : Quiet state.pass.out.facts) (ended : emitStep file ctx index state = some next) :
    Quiet next.pass.out.facts := by
  unfold emitStep at ended
  simp only [Option.map_eq_some_iff] at ended
  obtain ⟨emitted, line, rfl⟩ := ended
  have kept := emitLine_quiet plain unlocked line quiet
  exact kept

theorem foldlM_keeps {Item State : Type} (kept : State → Prop) {step : State → Item → Option State}
    {items : List Item}
    (keeps : ∀ item ∈ items, ∀ state next, kept state → step state item = some next → kept next)
    {start last : State} (first : kept start) (ended : items.foldlM step start = some last) :
    kept last := by
  induction items generalizing start with
  | nil =>
      obtain rfl : start = last := Option.some.inj ended
      exact first
  | cons item rest ih =>
      rw [List.foldlM_cons] at ended
      obtain ⟨next, here, later⟩ := Option.bind_eq_some_iff.mp ended
      exact ih (fun item member => keeps item (List.mem_cons_of_mem _ member))
        (keeps item (List.mem_cons_self ..) start next first here) later

theorem fileWalk_quiet (plain : ctx.interproc.summaries = OrderedMap.empty)
    (unlocked : ∀ index, Unlocked (file.lineOf index)) {out last : Emission}
    (quiet : Quiet out.facts) (ended : fileWalk file ctx out = some last) : Quiet last.facts := by
  unfold fileWalk at ended
  obtain ⟨state, walked, rfl⟩ := Option.map_eq_some_iff.mp ended
  exact foldlM_keeps (fun state : LineState => Quiet state.pass.out.facts)
    (fun index _ _ _ quiet step => emitStep_quiet plain (unlocked index) quiet step) quiet walked

/-- A walk without lock calls and summaries sees no release. -/
theorem factsOf_quiet {scans : List FileScan} (plain : ctx.interproc.summaries = OrderedMap.empty)
    (unlocked : ∀ file ∈ scans, ∀ index, Unlocked (file.lineOf index)) {facts : Facts}
    (ended : factsOf scans ctx = some facts) : Quiet facts := by
  unfold factsOf at ended
  obtain ⟨out, walked, rfl⟩ := Option.map_eq_some_iff.mp ended
  exact foldlM_keeps (fun out : Emission => Quiet out.facts)
    (fun file member _ _ quiet step => fileWalk_quiet plain (unlocked file member) quiet step)
    ⟨rfl, rfl⟩ walked

end Steps

end FramaCMcp.Concurrency
