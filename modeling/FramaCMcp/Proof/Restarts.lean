/-
This file shows that a restart changes no conclusion of a server that writes all its changes.
-/

import FramaCMcp.Proof.LoaderGate
import FramaCMcp.Proof.StoreAtomicity

namespace FramaCMcp.Persistence

open Conclusion Loader Store StoreRun StoreSteps LoaderGate

/-- A file of this conclusion is found and loaded as it is. -/
structure Fit [UnicodeTables] [Sha256] (name : String) (entry : FunctionVerificationState) :
    Prop where
  named : entry.function = name
  safe : isSafePathSegment name = true
  evidence : entry.status = .verified → HasEvidence entry

def Sound [UnicodeTables] [Sha256] (conclusions : Conclusions) : Prop :=
  ∀ name entry, conclusions.lookup name = some entry → Fit name entry

/-- A sandbox is made for a function whose name may become a directory. -/
def Event.Safe : Event → Prop
  | .change (.sandboxCreated function _) => isSafePathSegment function = true
  | _ => True

/-- Each file holds the conclusion in memory. -/
def Mirrors (render : FunctionVerificationState → String) (server : Server) : Prop :=
  ∀ name, server.files.lookup name = (server.conclusions.lookup name).map render

theorem lookup_adjust (conclusions : Conclusions) (function name : String)
    (change : FunctionVerificationState → FunctionVerificationState) :
    (conclusions.adjust function change).lookup name =
      (conclusions.lookup name).map fun entry => if name = function then change entry else entry :=
  HashMap.lookup_sweep ..

theorem lookup_adjust_of_ne (conclusions : Conclusions) {function name : String}
    (change : FunctionVerificationState → FunctionVerificationState)
    (different : name ≠ function) :
    (conclusions.adjust function change).lookup name = conclusions.lookup name := by
  rw [lookup_adjust]
  simp [different]

section Changes

variable [UnicodeTables] [Sha256] {conclusions next : Conclusions} {touched : List String}

/-- A change leaves sound conclusions, and it touches those it changes and takes none away. -/
structure Applied (conclusions next : Conclusions) (touched : List String) : Prop where
  sound : Sound next
  untouched : ∀ name, name ∉ touched → next.lookup name = conclusions.lookup name
  grows : ∀ name, next.lookup name = none → conclusions.lookup name = none

/-- A change of other fields keeps the evidence. -/
theorem Sound.adjust (sound : Sound conclusions) (function : String)
    {change : FunctionVerificationState → FunctionVerificationState}
    (kept : ∀ entry, KeepsEvidence entry (change entry) ∧
      (change entry).status = entry.status ∧
      (change entry).staleDependencies = entry.staleDependencies ∧
      (change entry).staleProofEnvironment = entry.staleProofEnvironment) :
    Applied conclusions (conclusions.adjust function change) [function] where
  sound name entry found := by
    rw [lookup_adjust, Option.map_eq_some_iff] at found
    obtain ⟨old, present, same⟩ := found
    have before := sound name old present
    split_ifs at same
    · subst same
      obtain ⟨evidence, status, dependencies, environment⟩ := kept old
      refine ⟨evidence.function.trans before.named, before.safe, fun verified => ?_⟩
      have holds := before.evidence (status ▸ verified)
      exact holds.of_kept evidence (dependencies.trans holds.fresh)
        (environment.trans holds.current)
    · exact same ▸ before
  untouched name untouched :=
    lookup_adjust_of_ne conclusions change fun same => untouched (List.mem_singleton.mpr same)
  grows name absent := by
    rw [lookup_adjust, Option.map_eq_none_iff] at absent
    exact absent

theorem storedEntry_named (sound : Sound conclusions) (function : String) :
    (storedEntry conclusions function).function = function := by
  rcases Environment.storedEntry_cases conclusions function with stored | empty
  · exact (sound function _ stored).named
  · rw [empty]
    rfl

/-- A new sandbox leaves nothing verified behind. -/
theorem Sound.sandboxCreated (sound : Sound conclusions) {function : String}
    (safe : isSafePathSegment function = true) (astStmtCount : Option UInt32) :
    Applied conclusions (onSandboxCreated conclusions function astStmtCount) [function] where
  sound name entry found := by
    rw [onSandboxCreated, HashMap.lookup_insert_cases] at found
    split_ifs at found with own
    · obtain rfl := Option.some.inj found
      subst own
      refine ⟨storedEntry_named sound name, safe, fun verified => ?_⟩
      have status : restarted (storedEntry conclusions name).status = .verified := verified
      cases before : (storedEntry conclusions name).status <;> rw [before] at status <;>
        cases status
    · exact sound name entry found
  untouched name untouched :=
    AList.lookup_insert_ne fun same => untouched (List.mem_singleton.mpr same)
  grows name absent := by
    rw [onSandboxCreated, HashMap.lookup_insert_cases] at absent
    split_ifs at absent
    exact absent

theorem Sound.store (sound : Sound conclusions) {update : FunctionConclusionUpdate}
    (safe : isSafePathSegment update.function = true)
    (stored : Store.storeConclusion conclusions update = .ok (next, touched)) :
    Applied conclusions next touched := by
  have accepted := accepted_of_storeConclusion conclusions next update touched stored
  refine ⟨fun name entry found => ?_, lookup_untouched stored ?_, fun name absent => ?_⟩
  · rcases accepted.entry_cases found with ⟨rfl, rfl⟩ | ⟨own, old, present, rfl⟩
    · refine ⟨?_, safe, (validateVerifiedConclusion_eq_none_iff _).mp accepted.valid⟩
      rw [mergeUpdate_function]
      exact storedEntry_named sound _
    · have before := sound name old present
      have kept := markedEntry_keeps conclusions update name old
      refine ⟨kept.function.trans before.named, before.safe, fun verified => ?_⟩
      obtain ⟨status, fresh, current⟩ := markedEntry_verified conclusions update name old verified
      have holds := before.evidence status
      exact holds.of_kept kept (fresh holds.fresh) (current holds.current)
  · -- A verified conclusion carries no mark of its environment.
    intro receipt name entry recorded hidden
    have current := ((sound name entry hidden.stored).evidence hidden.verified).current
    rw [hidden.marked] at current
    cases current
  · by_cases own : name = update.function
    · subst own
      rw [accepted.stored] at absent
      cases absent
    · rw [accepted.others name own, Option.map_eq_none_iff] at absent
      exact absent

theorem Sound.apply (sound : Sound conclusions) {change : Change}
    (safe : (Event.change change).Safe)
    (applied : change.apply conclusions = some (next, touched)) :
    Applied conclusions next touched := by
  cases change with
  | storeConclusion update =>
      simp only [Change.apply] at applied
      split_ifs at applied with named
      cases stored : Store.storeConclusion conclusions update with
      | error reason => simp [stored, Except.toOption] at applied
      | ok result =>
          simp only [stored, Except.toOption, Option.some.injEq] at applied
          subst applied
          exact sound.store named stored
  | sandboxCreated function astStmtCount =>
      obtain ⟨rfl, rfl⟩ := Prod.mk.inj (Option.some.inj applied)
      exact sound.sandboxCreated safe astStmtCount
  | annotationAdded function =>
      obtain ⟨rfl, rfl⟩ := Prod.mk.inj (Option.some.inj applied)
      exact sound.adjust function fun entry => ⟨⟨rfl, rfl, rfl, rfl, rfl, rfl, rfl⟩, rfl, rfl, rfl⟩
  | sandboxDeleted function =>
      obtain ⟨rfl, rfl⟩ := Prod.mk.inj (Option.some.inj applied)
      exact sound.adjust function fun entry => ⟨⟨rfl, rfl, rfl, rfl, rfl, rfl, rfl⟩, rfl, rfl, rfl⟩

end Changes

section Congruence

variable {first second : Conclusions}

theorem mergeUpdate_congr [Sha256] (same : ∀ name, first.lookup name = second.lookup name)
    (update : FunctionConclusionUpdate) : mergeUpdate first update = mergeUpdate second update := by
  have hashes : ∀ callee, specsHashForFunction first callee =
      specsHashForFunction second callee := by
    intro callee
    rw [specsHashForFunction, specsHashForFunction, same]
  have stored : storedEntry first update.function = storedEntry second update.function := by
    rw [storedEntry, storedEntry, same]
  simp only [mergeUpdate, refreshCallees, stored, hashes]

variable [UnicodeTables] [Sha256]

/-- What a store does depends on what the map gives for each name. -/
theorem storeConclusion_congr (same : ∀ name, first.lookup name = second.lookup name)
    (update : FunctionConclusionUpdate) (name : String) :
    (((Store.storeConclusion first update).toOption.map Prod.fst).getD first).lookup name =
      (((Store.storeConclusion second update).toOption.map Prod.fst).getD second).lookup name := by
  have merged := mergeUpdate_congr same update
  cases one : Store.storeConclusion first update with
  | error reason =>
      cases two : Store.storeConclusion second update with
      | error other => exact same name
      | ok result =>
          have accepted := accepted_of_storeConclusion second result.1 update result.2 two
          have valid := accepted.valid
          rw [← merged] at valid
          simp [Store.storeConclusion, valid] at one
  | ok result =>
      have accepted := accepted_of_storeConclusion first result.1 update result.2 one
      cases two : Store.storeConclusion second update with
      | error reason =>
          have valid := accepted.valid
          rw [merged] at valid
          simp [Store.storeConclusion, valid] at two
      | ok other =>
          have also := accepted_of_storeConclusion second other.1 update other.2 two
          show result.1.lookup name = other.1.lookup name
          by_cases own : name = update.function
          · subst own
            rw [accepted.stored, also.stored, merged]
          · rw [accepted.others name own, also.others name own, same]
            refine Option.map_congr fun entry _ => ?_
            rw [markedEntry, markedEntry, merged]

theorem remember_congr (same : ∀ name, first.lookup name = second.lookup name) (event : Event)
    (name : String) : (remember first event).lookup name = (remember second event).lookup name := by
  have adjusted : ∀ function field, (first.adjust function field).lookup name =
      (second.adjust function field).lookup name := by
    intro function field
    rw [lookup_adjust, lookup_adjust, same]
  cases event with
  | restart => exact same name
  | change made =>
      cases made with
      | storeConclusion update =>
          by_cases safe : isSafePathSegment update.function = true
          · simp only [remember, Change.apply, safe, if_true]
            exact storeConclusion_congr same update name
          · simp only [remember, Change.apply, safe]
            exact same name
      | sandboxCreated function astStmtCount =>
          have stored : storedEntry first function = storedEntry second function := by
            rw [storedEntry, storedEntry, same]
          refine (HashMap.lookup_insert_cases ..).trans (.trans ?_
            (HashMap.lookup_insert_cases ..).symm)
          rw [stored, same]
      | annotationAdded function => exact adjusted function _
      | sandboxDeleted function => exact adjusted function _

end Congruence

section Files

variable {render : FunctionVerificationState → String}

/-- The touched conclusions are written and the other files stay. -/
theorem lookup_persistConclusions {conclusions : Conclusions}
    (safe : ∀ name entry, conclusions.lookup name = some entry → isSafePathSegment name = true)
    (touched : List String) (files : HashMap String) (name : String)
    (other : name ∉ touched → files.lookup name = (conclusions.lookup name).map render)
    (absent : conclusions.lookup name = none → files.lookup name = none) :
    (touched.foldl (persistConclusion render conclusions) files).lookup name =
      (conclusions.lookup name).map render := by
  induction touched generalizing files with
  | nil => exact other List.not_mem_nil
  | cons head rest ih =>
      rw [List.foldl_cons]
      apply ih
      · intro later
        by_cases own : name = head
        · subst own
          rw [persistConclusion]
          cases found : conclusions.lookup name with
          | none => exact absent found
          | some entry =>
              simp only [safe name entry found, if_true, Option.map_some]
              exact AList.lookup_insert files
        · have kept : (persistConclusion render conclusions files head).lookup name =
              files.lookup name := by
            rw [persistConclusion]
            split
            · split_ifs
              · exact AList.lookup_insert_ne own
              · rfl
            · rfl
          rw [kept]
          exact other fun member => (List.mem_cons.mp member).elim own later
      · intro unstored
        rw [persistConclusion]
        split
        · rename_i entry found
          split_ifs
          · refine (AList.lookup_insert_ne ?_).trans (absent unstored)
            rintro rfl
            rw [unstored] at found
            cases found
          · exact absent unstored
        · exact absent unstored

/-- The files of the server are the entries of its directory. -/
theorem mem_readDir_treeOf (files : HashMap String) (entry : DirEntry) :
    entry ∈ readDir (some (treeOf files)) ↔
      ∃ name text, files.lookup name = some text ∧ entry = ⟨some name, true, some text⟩ := by
  rw [readDir, Option.map_some, Option.getD_some, treeOf, List.mem_map]
  constructor
  · intro listed
    obtain ⟨⟨name, text⟩, member, rfl⟩ := listed
    exact ⟨name, text, (HashMap.mem_entries_iff files name text).mp member, rfl⟩
  · intro stored
    obtain ⟨name, text, found, rfl⟩ := stored
    exact ⟨⟨name, text⟩, (HashMap.mem_entries_iff files name text).mpr found, rfl⟩

variable [UnicodeTables] [Sha256] {fromStr : String → Option FunctionVerificationState}

theorem Mirrors.handle {server : Server} (mirrors : Mirrors render server)
    (sound : Sound server.conclusions) {change : Change}
    (safe : (Event.change change).Safe) : Mirrors render (server.handle render change) := by
  intro name
  rw [Server.handle]
  cases applied : change.apply server.conclusions with
  | none => exact mirrors name
  | some result =>
      obtain ⟨next, touched⟩ := result
      have effect := sound.apply safe applied
      refine lookup_persistConclusions (fun name entry found =>
        (effect.sound name entry found).safe) touched server.files name
        (fun untouched => ?_) fun absent => ?_
      · rw [mirrors name, effect.untouched name untouched]
      · rw [mirrors name, effect.grows name absent]
        rfl

/-- What is loaded is what was in memory. -/
theorem Mirrors.restart {server : Server} (mirrors : Mirrors render server)
    (sound : Sound server.conclusions)
    (roundTrip : ∀ name entry, server.conclusions.lookup name = some entry →
      fromStr (render entry) = some entry) (name : String) :
    (server.restart fromStr).conclusions.lookup name = server.conclusions.lookup name := by
  have loads : ∀ entry, server.conclusions.lookup name = some entry →
      (server.restart fromStr).conclusions.lookup name = some entry := by
    intro entry found
    rw [Server.restart, lookup_loadConclusionsFromDisk]
    refine ⟨⟨some name, true, some (render entry)⟩, ?_, entry, ?_, ?_⟩
    · rw [mem_readDir_treeOf]
      refine ⟨name, render entry, ?_, rfl⟩
      rw [mirrors name, found]
      rfl
    · exact readEntry_of_meta fromStr name (render entry) entry (sound name entry found).safe
        (roundTrip name entry found)
    · by_cases verified : entry.status = .verified
      · obtain ⟨-, -, -, summary, receipt, counts, -, present, accepted⟩ :=
          (sound name entry found).evidence verified
        rw [(sound name entry found).named] at accepted
        apply judgeLoaded_accepted
        rw [loadReason, present, counts]
        exact accepted
      · simp [judgeLoaded, verified]
  cases found : server.conclusions.lookup name with
  | some entry => exact loads entry found
  | none =>
      rw [Option.eq_none_iff_forall_ne_some]
      intro loaded reached
      rw [Server.restart, lookup_loadConclusionsFromDisk] at reached
      obtain ⟨entry, member, conclusion, read, -⟩ := reached
      obtain ⟨other, text, present, rfl⟩ := (mem_readDir_treeOf server.files entry).mp member
      have same := readEntry_name fromStr _ _ read
      obtain rfl := Option.some.inj same
      rw [mirrors, found] at present
      cases present

/-- A server that restarts has what one that never restarts remembers. -/
structure Durable [UnicodeTables] [Sha256] (render : FunctionVerificationState → String)
    (server : Server) (memory : Conclusions) : Prop where
  sound : Sound server.conclusions
  mirrors : Mirrors render server
  same : ∀ name, server.conclusions.lookup name = memory.lookup name

theorem Durable.step {server : Server} {memory : Conclusions}
    (durable : Durable render server memory)
    (roundTrip : ∀ name entry, memory.lookup name = some entry →
      fromStr (render entry) = some entry) {event : Event} (safe : event.Safe) :
    Durable render (server.step render fromStr event) (remember memory event) := by
  cases event with
  | restart =>
      have loaded : ∀ name, (server.restart fromStr).conclusions.lookup name =
          server.conclusions.lookup name :=
        durable.mirrors.restart durable.sound fun name entry found =>
          roundTrip name entry (durable.same name ▸ found)
      refine ⟨fun name entry found => durable.sound name entry (loaded name ▸ found),
        fun name => ?_, fun name => ?_⟩
      · exact (durable.mirrors name).trans (congrArg _ (loaded name).symm)
      · exact (loaded name).trans (durable.same name)
  | change made =>
      have reached : (server.handle render made).conclusions =
          remember server.conclusions (.change made) := by
        rw [Server.handle, remember]
        cases made.apply server.conclusions <;> rfl
      refine ⟨?_, durable.mirrors.handle durable.sound safe, fun name => ?_⟩
      · show Sound (server.handle render made).conclusions
        rw [Server.handle]
        cases applied : made.apply server.conclusions with
        | none => exact durable.sound
        | some result => exact (durable.sound.apply safe applied).sound
      · show (server.handle render made).conclusions.lookup name = _
        rw [reached]
        exact remember_congr durable.same (.change made) name

end Files

/-- Where each change is written as it is made, a server that restarts at any points has the
conclusions of one that never does, and so has the next process that loads its files. -/
theorem restarts_keepConclusions [UnicodeTables] [Sha256]
    (render : FunctionVerificationState → String)
    (fromStr : String → Option FunctionVerificationState) (events : List Event)
    (safe : ∀ event ∈ events, event.Safe)
    (roundTrip : ∀ taken, taken <+: events → ∀ name entry,
      (remembered taken).lookup name = some entry → fromStr (render entry) = some entry)
    (name : String) :
    (serve render fromStr events).conclusions.lookup name = (remembered events).lookup name ∧
      (loadConclusionsFromDisk fromStr
        (some (treeOf (serve render fromStr events).files))).lookup name =
          (remembered events).lookup name := by
  have durable : ∀ taken, taken <+: events →
      Durable render (serve render fromStr taken) (remembered taken) := by
    intro taken part
    induction taken using List.reverseRecOn with
    | nil =>
        exact ⟨fun name entry found => (nomatch found), fun name => rfl, fun name => rfl⟩
    | append_singleton taken event ih =>
        have shorter := (List.prefix_append taken [event]).trans part
        rw [serve, remembered, List.foldl_append, List.foldl_append]
        exact (ih shorter).step (roundTrip taken shorter)
          (safe event (part.subset (List.mem_append_right taken List.mem_cons_self)))
  have reached := durable events (List.prefix_refl events)
  have loaded := reached.mirrors.restart reached.sound (fun name entry found =>
    roundTrip events (List.prefix_refl events) name entry (reached.same name ▸ found)) name
  exact ⟨reached.same name, loaded.trans (reached.same name)⟩

/-- This is the conclusion of a function whose sandbox has three statements. -/
def freshConclusion : FunctionVerificationState where
  function := "f"
  astStmtCount := some 3

/-- These are the fields of a conclusion in progress without evidence. -/
def progressMeta (entry : FunctionVerificationState) : Json :=
  .obj [("function", .str entry.function), ("status", .str "in_progress"), ("specs", .arr []),
    ("wp_summary", .null), ("notes", .str entry.notes), ("callees", .arr []),
    ("callee_spec_hashes", .obj []), ("stale_dependencies", .arr []),
    ("ast_stmt_count", .num ((entry.astStmtCount.getD 0).toNat : Int)),
    ("sandbox_clean", .bool entry.sandboxClean),
    ("annotation_count", .num (entry.annotationCount.toNat : Int)),
    ("sandbox_deleted", .bool entry.sandboxDeleted)]

/-- The server restarts between two sandboxes of the function. -/
def recreatedSandbox : List Event :=
  [.change (.sandboxCreated "f" (some 3)), .restart, .change (.sandboxCreated "f" (some 3))]

/-- The second creation meets the conclusion that was loaded. -/
theorem restarts_keepConclusions_example :
    let _ : UnicodeTables := .ascii
    let _ : Sha256 := .zeros
    let render := fun entry => (progressMeta entry).render
    let fromStr := fun text => if text = render freshConclusion then some freshConclusion else none
    (serve render fromStr recreatedSandbox).conclusions.lookup "f" = some freshConclusion := by
  intro tables digest render fromStr
  have only : ∀ taken, taken <+: recreatedSandbox → ∀ name entry,
      (remembered taken).lookup name = some entry → entry = freshConclusion := by
    intro taken part
    induction taken using List.reverseRecOn with
    | nil => exact fun name entry found => nomatch found
    | append_singleton taken event ih =>
        have before := ih ((List.prefix_append taken [event]).trans part)
        have member := part.subset (List.mem_append_right taken List.mem_cons_self)
        rw [remembered, List.foldl_append]
        have made : event = .restart ∨ event = .change (.sandboxCreated "f" (some 3)) := by
          simp only [recreatedSandbox, List.mem_cons, List.not_mem_nil, or_false] at member
          tauto
        rcases made with rfl | rfl
        · exact before
        · intro name entry found
          replace found := (HashMap.lookup_insert_cases ..).symm.trans found
          split_ifs at found
          · obtain rfl := Option.some.inj found
            rcases Environment.storedEntry_cases (taken.foldl remember ∅) "f" with stored | empty
            · rw [before "f" _ stored]
              rfl
            · rw [empty]
              rfl
          · exact before name entry found
  have reached := (restarts_keepConclusions render fromStr recreatedSandbox
    (by simp [recreatedSandbox, Event.Safe]; decide) (fun taken part name entry found => by
      rw [only taken part name entry found]
      exact if_pos rfl) "f").1
  exact reached.trans rfl

end FramaCMcp.Persistence
