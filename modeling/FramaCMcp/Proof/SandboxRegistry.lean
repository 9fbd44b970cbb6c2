/-
This file shows when creations and deletions that run side by side keep the sandboxes apart and
within their limit.
-/

import FramaCMcp.Construction.SandboxCalls

namespace FramaCMcp.Sandboxes

namespace Call

/-- The creation passed the limit check and spawned nothing yet. -/
def isUnspawned : Call → Bool
  | .extracting _ | .prepared _ => true
  | _ => false

/-- The creation passed the limit check and inserted no entry yet. -/
def isCreation : Call → Bool
  | .extracting _ | .prepared _ | .connecting _ _ | .recording _ _ | .inserting _ _ => true
  | _ => false

/-- This is the id that a creation works with. -/
def chosen : Call → Option String
  | .prepared experimentId | .connecting experimentId _ | .recording experimentId _
  | .inserting experimentId _ => some experimentId
  | _ => none

/-- This is the child that a creation has yet to register. -/
def child : Call → Option Child
  | .connecting _ child | .recording _ child | .inserting _ child => some child
  | _ => none

/-- A call outside a creation counts nowhere. -/
theorem outside_creation {call : Call} (outside : call.isCreation = false) :
    call.isUnspawned = false ∧ call.chosen = none := by
  cases call <;> first | exact ⟨rfl, rfl⟩ | exact absurd outside (by simp [isCreation])

end Call

/-- The count of a list with one changed entry. -/
theorem countP_set_add {Item : Type} (test : Item → Bool) {items : List Item} {place : Nat}
    {old : Item} (present : items[place]? = some old) (new : Item) :
    (items.set place new).countP test + (test old).toNat = items.countP test + (test new).toNat := by
  induction items generalizing place with
  | nil => cases present
  | cons head rest ih =>
      cases place with
      | zero =>
          obtain rfl := Option.some.inj present
          simp only [List.set_cons_zero, List.countP_cons, Bool.toNat]
          cases test head <;> cases test new <;> simp
      | succ place =>
          have counted := ih present
          simp only [List.set_cons_succ, List.countP_cons]
          omega

namespace Server

def chosenAt (server : Server) (call : Nat) : Option String := server.calls[call]?.bind Call.chosen

def childAt (server : Server) (call : Nat) : Option Child := server.calls[call]?.bind Call.child

/-- A live sandbox or a creation under way has the id. -/
def Holds (server : Server) (experimentId : String) : Prop :=
  experimentId ∈ server.live.map Process.experimentId ∨
    ∃ call, server.chosenAt call = some experimentId

/-- The limit check also passes where it counts the processes that still run and the creations
under way, and an id that passes its check is held by no live sandbox and no creation under way. -/
def Meets (server : Server) : Event → Prop
  | .createSandbox _ => server.limitReached = false →
      server.live.length + server.calls.countP Call.isUnspawned < server.maxSandboxes ∧
        server.sandboxes.entries.length + server.calls.countP Call.isCreation < server.maxSandboxes
  | .advance call answer => ∀ requested experimentId,
      server.calls[call]? = some (.extracting requested) → answer.succeeded = true →
        server.chooseId requested answer = some experimentId → ¬ server.Holds experimentId
  | _ => True

/-- This invariant relates the live processes, the entries and the creations under way. -/
structure Inv (server : Server) : Prop where
  room : server.live.length + server.calls.countP Call.isUnspawned ≤ server.maxSandboxes
  slots : server.sandboxes.entries.length + server.calls.countP Call.isCreation ≤
    server.maxSandboxes
  ids : (server.live.map Process.experimentId).Nodup
  chosenApart : ∀ first second experimentId, server.chosenAt first = some experimentId →
    server.chosenAt second = some experimentId → first = second
  chosenLive : ∀ call process, server.chosenAt call = some process.experimentId →
    process ∈ server.live → server.childAt call = some process.child
  childLive : ∀ call process child, server.childAt call = some child → process ∈ server.live →
    process.child.handle = child.handle → server.chosenAt call = some process.experimentId
  childApart : ∀ first second child other, server.childAt first = some child →
    server.childAt second = some other → child.handle = other.handle → first = second
  entryKey : ∀ key entry, server.sandboxes.lookup key = some entry →
    entry.metadata.experimentId = key
  entryChild : ∀ call child key entry, server.childAt call = some child →
    server.sandboxes.lookup key = some entry → entry.child.handle ≠ child.handle
  entryLive : ∀ key entry process, server.sandboxes.lookup key = some entry →
    process ∈ server.live → process.child.handle = entry.child.handle →
      process.experimentId = key
  liveSpawned : ∀ process ∈ server.live, process.child.handle < server.spawned
  childSpawned : ∀ call child, server.childAt call = some child → child.handle < server.spawned
  entrySpawned : ∀ key entry, server.sandboxes.lookup key = some entry →
    entry.child.handle < server.spawned

/-- The next server has fewer processes, entries and creations under way. -/
structure Shrinks (server next : Server) : Prop where
  limit : next.maxSandboxes = server.maxSandboxes
  spawned : next.spawned = server.spawned
  live : next.live.Sublist server.live
  entries : ∀ key entry, next.sandboxes.lookup key = some entry →
    server.sandboxes.lookup key = some entry
  entryCount : next.sandboxes.entries.length ≤ server.sandboxes.entries.length
  unspawned : next.calls.countP Call.isUnspawned ≤ server.calls.countP Call.isUnspawned
  creations : next.calls.countP Call.isCreation ≤ server.calls.countP Call.isCreation
  chosen : ∀ call experimentId, next.chosenAt call = some experimentId →
    server.chosenAt call = some experimentId ∧ next.childAt call = server.childAt call

variable {server : Server} {call : Nat} {experimentId : String}

theorem exists_chosen {child : Child} (spawned : server.childAt call = some child) :
    ∃ experimentId, server.chosenAt call = some experimentId := by
  rw [childAt] at spawned
  obtain ⟨waiting, present, held⟩ := Option.bind_eq_some_iff.mp spawned
  rw [chosenAt, present]
  cases waiting <;> first | exact ⟨_, rfl⟩ | cases held

theorem Inv.shrink {server next : Server} (inv : Inv server) (shrinks : Shrinks server next) :
    Inv next := by
  have child {call : Nat} {own : Child} (held : next.childAt call = some own) :
      server.childAt call = some own := by
    obtain ⟨experimentId, chosen⟩ := exists_chosen held
    exact (shrinks.chosen call experimentId chosen).2.symm.trans held
  have live {process : Process} (member : process ∈ next.live) : process ∈ server.live :=
    shrinks.live.subset member
  constructor
  case room =>
    have := shrinks.live.length_le
    have := shrinks.unspawned
    have := inv.room
    rw [shrinks.limit]
    omega
  case slots =>
    have := shrinks.entryCount
    have := shrinks.creations
    have := inv.slots
    rw [shrinks.limit]
    omega
  case ids => exact inv.ids.sublist (shrinks.live.map _)
  case chosenApart =>
    intro first second experimentId held other
    exact inv.chosenApart first second experimentId (shrinks.chosen _ _ held).1
      (shrinks.chosen _ _ other).1
  case chosenLive =>
    intro call process held member
    obtain ⟨old, same⟩ := shrinks.chosen _ _ held
    exact same.trans (inv.chosenLive call process old (live member))
  case childLive =>
    intro call process own held member same
    obtain ⟨experimentId, chosen⟩ := exists_chosen held
    have old := inv.childLive call process own (child held) (live member) same
    rw [chosen, ← (shrinks.chosen _ _ chosen).1, old]
  case childApart =>
    intro first second own other held held' same
    exact inv.childApart first second own other (child held) (child held') same
  case entryKey => exact fun key entry found => inv.entryKey key entry (shrinks.entries _ _ found)
  case entryChild =>
    intro call own key entry held found
    exact inv.entryChild call own key entry (child held) (shrinks.entries key entry found)
  case entryLive =>
    intro key entry process found member same
    exact inv.entryLive key entry process (shrinks.entries key entry found) (live member) same
  case liveSpawned =>
    intro process member
    rw [shrinks.spawned]
    exact inv.liveSpawned process (live member)
  case childSpawned =>
    intro call own held
    rw [shrinks.spawned]
    exact inv.childSpawned call own (child held)
  case entrySpawned =>
    intro key entry found
    rw [shrinks.spawned]
    exact inv.entrySpawned key entry (shrinks.entries key entry found)

/-- The scratch root and the state file hold no process, entry or call. -/
theorem shrinks_files (server : Server) (directories : List String)
    (records : List SandboxMetadata) :
    Shrinks server { server with directories := directories, records := records } where
  limit := rfl
  spawned := rfl
  live := .refl _
  entries := fun _ _ found => found
  entryCount := le_rfl
  unspawned := le_rfl
  creations := le_rfl
  chosen := fun _ _ held => ⟨held, rfl⟩

theorem shrinks_live (server : Server) (test : Process → Bool) :
    Shrinks server { server with live := server.live.filter test } where
  limit := rfl
  spawned := rfl
  live := List.filter_sublist
  entries := fun _ _ found => found
  entryCount := le_rfl
  unspawned := le_rfl
  creations := le_rfl
  chosen := fun _ _ held => ⟨held, rfl⟩

theorem shrinks_erase (server : Server) (experimentId : String) :
    Shrinks server (server.dropEntry experimentId) where
  limit := rfl
  spawned := rfl
  live := .refl _
  entries := by
    intro key entry found
    rw [dropEntry] at found
    by_cases same : key = experimentId
    · subst same
      rw [AList.lookup_erase] at found
      cases found
    · rwa [AList.lookup_erase_ne same] at found
  entryCount := (List.kerase_sublist _ _).length_le
  unspawned := le_rfl
  creations := le_rfl
  chosen := fun _ _ held => ⟨held, rfl⟩

theorem getElem?_setCall (server : Server) {old : Call} (present : server.calls[call]? = some old)
    (next : Call) (other : Nat) :
    (server.setCall call next).calls[other]? =
      if call = other then some next else server.calls[other]? := by
  obtain ⟨inside, -⟩ := List.getElem?_eq_some_iff.mp present
  show (server.calls.set call next)[other]? = _
  rw [List.getElem?_set]
  split_ifs <;> rfl

theorem chosenAt_setCall (server : Server) {old : Call} (present : server.calls[call]? = some old)
    (next : Call) (other : Nat) :
    (server.setCall call next).chosenAt other =
      if call = other then next.chosen else server.chosenAt other := by
  rw [chosenAt, getElem?_setCall server present]
  split_ifs <;> rfl

theorem childAt_setCall (server : Server) {old : Call} (present : server.calls[call]? = some old)
    (next : Call) (other : Nat) :
    (server.setCall call next).childAt other =
      if call = other then next.child else server.childAt other := by
  rw [childAt, getElem?_setCall server present]
  split_ifs <;> rfl

/-- The call goes on with the same id and the same child, or it ends. -/
theorem shrinks_setCall {old : Call} (present : server.calls[call]? = some old) (next : Call)
    (unspawned : next.isUnspawned.toNat ≤ old.isUnspawned.toNat)
    (creation : next.isCreation.toNat ≤ old.isCreation.toNat)
    (kept : next.chosen ≠ none → next.chosen = old.chosen ∧ next.child = old.child) :
    Shrinks server (server.setCall call next) where
  limit := rfl
  spawned := rfl
  live := .refl _
  entries := fun _ _ found => found
  entryCount := le_rfl
  unspawned := by
    have counted := countP_set_add Call.isUnspawned present next
    show (server.calls.set call next).countP _ ≤ _
    omega
  creations := by
    have counted := countP_set_add Call.isCreation present next
    show (server.calls.set call next).countP _ ≤ _
    omega
  chosen := by
    intro other experimentId held
    rw [chosenAt_setCall server present] at held
    rw [childAt_setCall server present]
    split_ifs at held ⊢ with same
    · subst same
      obtain ⟨sameId, sameChild⟩ := kept (by rw [held]; exact Option.some_ne_none _)
      rw [chosenAt, childAt, present]
      exact ⟨sameId.symm.trans held, sameChild⟩
    · exact ⟨held, rfl⟩

/-- A new call looks like an absent one to each reader that it answers nothing. -/
theorem bind_openCall {Value : Type} (server : Server) (call : Call) (read : Call → Option Value)
    (nothing : read call = none) (other : Nat) :
    (server.openCall call).calls[other]?.bind read = server.calls[other]?.bind read := by
  show (server.calls ++ [call])[other]?.bind read = _
  rcases Nat.lt_trichotomy other server.calls.length with inside | rfl | beyond
  · rw [List.getElem?_append_left inside]
  · simp [nothing]
  · have short : (server.calls ++ [call]).length ≤ other := by
      rw [List.length_append, List.length_singleton]
      exact beyond
    rw [List.getElem?_eq_none short, List.getElem?_eq_none beyond.le]

theorem shrinks_openRemoval (server : Server) (experimentId : String) :
    Shrinks server (server.openCall (.removing experimentId)) where
  limit := rfl
  spawned := rfl
  live := .refl _
  entries := fun _ _ found => found
  entryCount := le_rfl
  unspawned := by simp [openCall, Call.isUnspawned]
  creations := by simp [openCall, Call.isCreation]
  chosen := by
    intro other id held
    rw [chosenAt, bind_openCall server _ Call.chosen rfl] at held
    exact ⟨held, bind_openCall server _ Call.child rfl other⟩

/-- A creation that passes the limit check takes one of the free places. -/
theorem inv_openCreation (inv : Inv server) (requested : Option String)
    (room : server.live.length + server.calls.countP Call.isUnspawned < server.maxSandboxes)
    (slots : server.sandboxes.entries.length + server.calls.countP Call.isCreation <
      server.maxSandboxes) : Inv (server.openCall (.extracting requested)) := by
  have chosen (call : Nat) :
      (server.openCall (.extracting requested)).chosenAt call = server.chosenAt call :=
    bind_openCall server _ Call.chosen rfl call
  have child (call : Nat) :
      (server.openCall (.extracting requested)).childAt call = server.childAt call :=
    bind_openCall server _ Call.child rfl call
  constructor
  case room =>
    show server.live.length + (server.calls ++ [_]).countP _ ≤ server.maxSandboxes
    simp only [List.countP_append, List.countP_singleton, Call.isUnspawned, if_true]
    omega
  case slots =>
    show server.sandboxes.entries.length + (server.calls ++ [_]).countP _ ≤ server.maxSandboxes
    simp only [List.countP_append, List.countP_singleton, Call.isCreation, if_true]
    omega
  case ids => exact inv.ids
  case entryKey => exact inv.entryKey
  case entryLive => exact inv.entryLive
  case liveSpawned => exact inv.liveSpawned
  case entrySpawned => exact inv.entrySpawned
  all_goals simp only [chosen, child]
  case chosenApart => exact inv.chosenApart
  case chosenLive => exact inv.chosenLive
  case childLive => exact inv.childLive
  case childApart => exact inv.childApart
  case entryChild => exact inv.entryChild
  case childSpawned => exact inv.childSpawned

/-- A creation chooses an id that nobody holds. -/
theorem inv_choose {requested : Option String} (inv : Inv server)
    (present : server.calls[call]? = some (.extracting requested))
    (free : ¬ server.Holds experimentId) : Inv (server.setCall call (.prepared experimentId)) := by
  have own : server.chosenAt call = none := by rw [chosenAt, present]; rfl
  have alone : server.childAt call = none := by rw [childAt, present]; rfl
  have child (other : Nat) :
      (server.setCall call (.prepared experimentId)).childAt other = server.childAt other := by
    rw [childAt_setCall server present]
    split_ifs with same
    · rw [← same, alone]; rfl
    · rfl
  constructor
  case room =>
    have counted := countP_set_add Call.isUnspawned present (.prepared experimentId)
    have := inv.room
    show server.live.length + (server.calls.set call _).countP _ ≤ server.maxSandboxes
    simp only [Call.isUnspawned] at counted
    omega
  case slots =>
    have counted := countP_set_add Call.isCreation present (.prepared experimentId)
    have := inv.slots
    show server.sandboxes.entries.length + (server.calls.set call _).countP _ ≤ server.maxSandboxes
    simp only [Call.isCreation] at counted
    omega
  case chosenApart =>
    intro first second id held other
    rw [chosenAt_setCall server present] at held other
    split_ifs at held other with one two two
    · exact one.symm.trans two
    · obtain rfl := Option.some.inj held
      exact absurd (.inr ⟨second, other⟩) free
    · obtain rfl := Option.some.inj other
      exact absurd (.inr ⟨first, held⟩) free
    · exact inv.chosenApart first second id held other
  case chosenLive =>
    intro other process held member
    rw [chosenAt_setCall server present] at held
    rw [child]
    split_ifs at held with same
    · exact absurd (.inl (List.mem_map.mpr ⟨process, member, (Option.some.inj held).symm⟩)) free
    · exact inv.chosenLive other process held member
  case childLive =>
    intro other process ownChild held member same
    rw [child] at held
    rw [chosenAt_setCall server present]
    have old := inv.childLive other process ownChild held member same
    split_ifs with here
    · rw [← here, own] at old
      cases old
    · exact old
  case ids => exact inv.ids
  case entryKey => exact inv.entryKey
  case entryLive => exact inv.entryLive
  case liveSpawned => exact inv.liveSpawned
  case entrySpawned => exact inv.entrySpawned
  all_goals simp only [child]
  case childApart => exact inv.childApart
  case entryChild => exact inv.entryChild
  case childSpawned => exact inv.childSpawned

/-- The new process has the id that the creation holds. -/
theorem inv_startProcess (inv : Inv server)
    (present : server.calls[call]? = some (.prepared experimentId)) (child : Child)
    (fresh : child.handle = server.spawned) :
    Inv ((server.startProcess ⟨child, experimentId⟩).setCall call
      (.connecting experimentId child)) := by
  have own : server.chosenAt call = some experimentId := by rw [chosenAt, present]; rfl
  have alone : server.childAt call = none := by rw [childAt, present]; rfl
  have chosen (other : Nat) : ((server.startProcess ⟨child, experimentId⟩).setCall call
      (.connecting experimentId child)).chosenAt other = server.chosenAt other := by
    rw [chosenAt_setCall (server.startProcess _) present]
    split_ifs with same
    · rw [← same, own]; rfl
    · rfl
  have children (other : Nat) : ((server.startProcess ⟨child, experimentId⟩).setCall call
      (.connecting experimentId child)).childAt other =
        if call = other then some child else server.childAt other :=
    childAt_setCall (server.startProcess _) present _ other
  have apart : experimentId ∉ server.live.map Process.experimentId := by
    intro member
    obtain ⟨process, inside, same⟩ := List.mem_map.mp member
    have held := inv.chosenLive call process (own.trans (congrArg some same.symm)) inside
    rw [alone] at held
    cases held
  constructor
  case room =>
    have counted := countP_set_add Call.isUnspawned present (.connecting experimentId child)
    have := inv.room
    show (server.live.length + 1) + (server.calls.set call _).countP _ ≤ server.maxSandboxes
    simp only [Call.isUnspawned, Bool.toNat_true, Bool.toNat_false] at counted
    omega
  case slots =>
    have counted := countP_set_add Call.isCreation present (.connecting experimentId child)
    have := inv.slots
    show server.sandboxes.entries.length + (server.calls.set call _).countP _ ≤ server.maxSandboxes
    simp only [Call.isCreation] at counted
    omega
  case ids => exact List.nodup_cons.mpr ⟨apart, inv.ids⟩
  case entryKey => exact inv.entryKey
  case entryLive =>
    intro key entry process found member same
    rcases List.mem_cons.mp member with rfl | old
    · exact absurd (same.symm.trans fresh) (inv.entrySpawned key entry found).ne
    · exact inv.entryLive key entry process found old same
  case liveSpawned =>
    intro process member
    show process.child.handle < server.spawned + 1
    rcases List.mem_cons.mp member with rfl | old
    · exact fresh.trans_lt (Nat.lt_succ_self _)
    · have := inv.liveSpawned process old
      omega
  case entrySpawned =>
    intro key entry found
    have := inv.entrySpawned key entry found
    show _ < server.spawned + 1
    omega
  case chosenApart =>
    intro first second id held other
    rw [chosen] at held other
    exact inv.chosenApart first second id held other
  case chosenLive =>
    intro other process held member
    rw [chosen] at held
    rw [children]
    rcases List.mem_cons.mp member with rfl | old
    · rw [if_pos (inv.chosenApart call other experimentId own held)]
    · have kept := inv.chosenLive other process held old
      rw [if_neg, kept]
      rintro rfl
      rw [alone] at kept
      cases kept
  case childLive =>
    intro other process ownChild held member same
    rw [children] at held
    rw [chosen]
    split_ifs at held with here
    · subst here
      obtain rfl := Option.some.inj held
      rcases List.mem_cons.mp member with rfl | old
      · exact own
      · have := inv.liveSpawned process old
        omega
    · rcases List.mem_cons.mp member with rfl | old
      · exact absurd (same.symm.trans fresh) (inv.childSpawned other ownChild held).ne
      · exact inv.childLive other process ownChild held old same
  case childApart =>
    intro first second one two held other same
    rw [children] at held other
    split_ifs at held other with here there there
    · exact here.symm.trans there
    · obtain rfl := Option.some.inj held
      have := inv.childSpawned second two other
      omega
    · obtain rfl := Option.some.inj other
      have := inv.childSpawned first one held
      omega
    · exact inv.childApart first second one two held other same
  case entryChild =>
    intro other ownChild key entry held found
    rw [children] at held
    split_ifs at held with here
    · obtain rfl := Option.some.inj held
      have := inv.entrySpawned key entry found
      omega
    · exact inv.entryChild other ownChild key entry held found
  case childSpawned =>
    intro other ownChild held
    rw [children] at held
    show _ < server.spawned + 1
    split_ifs at held with here
    · obtain rfl := Option.some.inj held
      omega
    · have := inv.childSpawned other ownChild held
      omega

/-- The entry takes the place of the creation. -/
theorem inv_addEntry {child : Child} (inv : Inv server)
    (present : server.calls[call]? = some (.inserting experimentId child)) :
    Inv ((server.addEntry ⟨sandboxMetadata experimentId child, child⟩).setCall call
      .finished) := by
  have own : server.chosenAt call = some experimentId := by rw [chosenAt, present]; rfl
  have held : server.childAt call = some child := by rw [childAt, present]; rfl
  have chosen {other : Nat} {id : String}
      (later : ((server.addEntry ⟨sandboxMetadata experimentId child, child⟩).setCall call
        .finished).chosenAt other = some id) :
      call ≠ other ∧ server.chosenAt other = some id := by
    rw [chosenAt_setCall (server.addEntry _) present] at later
    split_ifs at later with same
    · cases later
    · exact ⟨same, later⟩
  have children (other : Nat) :
      ((server.addEntry ⟨sandboxMetadata experimentId child, child⟩).setCall call
        .finished).childAt other = if call = other then none else server.childAt other :=
    childAt_setCall (server.addEntry _) present _ other
  have entries {key : String} {entry : SandboxEntry}
      (found : ((server.addEntry ⟨sandboxMetadata experimentId child, child⟩).setCall call
        .finished).sandboxes.lookup key = some entry) :
      (key = experimentId ∧ entry = ⟨sandboxMetadata experimentId child, child⟩) ∨
        server.sandboxes.lookup key = some entry := by
    have inserted : (server.sandboxes.insert experimentId
        ⟨sandboxMetadata experimentId child, child⟩).lookup key = some entry := found
    rw [HashMap.lookup_insert_cases] at inserted
    split_ifs at inserted with same
    · exact .inl ⟨same, (Option.some.inj inserted).symm⟩
    · exact .inr inserted
  constructor
  case room =>
    have counted := countP_set_add Call.isUnspawned present .finished
    have := inv.room
    show server.live.length + (server.calls.set call _).countP _ ≤ server.maxSandboxes
    simp only [Call.isUnspawned] at counted
    omega
  case slots =>
    have counted := countP_set_add Call.isCreation present .finished
    have := inv.slots
    have size : (server.sandboxes.insert experimentId
        ⟨sandboxMetadata experimentId child, child⟩).entries.length ≤
        server.sandboxes.entries.length + 1 := by
      rw [AList.entries_insert, List.length_cons]
      exact Nat.succ_le_succ (List.kerase_sublist _ _).length_le
    show (server.sandboxes.insert experimentId _).entries.length +
      (server.calls.set call _).countP _ ≤ server.maxSandboxes
    simp only [Call.isCreation, Bool.toNat_true, Bool.toNat_false] at counted
    omega
  case ids => exact inv.ids
  case chosenApart =>
    intro first second id one two
    exact inv.chosenApart first second id (chosen one).2 (chosen two).2
  case chosenLive =>
    intro other process later member
    rw [children, if_neg (chosen later).1]
    exact inv.chosenLive other process (chosen later).2 member
  case childLive =>
    intro other process ownChild later member same
    rw [children] at later
    rw [chosenAt_setCall (server.addEntry _) present]
    split_ifs at later ⊢ with here
    exact inv.childLive other process ownChild later member same
  case childApart =>
    intro first second one two later other same
    rw [children] at later other
    split_ifs at later other
    exact inv.childApart first second one two later other same
  case entryKey =>
    intro key entry found
    rcases entries found with ⟨rfl, rfl⟩ | old
    · rfl
    · exact inv.entryKey key entry old
  case entryChild =>
    intro other ownChild key entry later found
    rw [children] at later
    split_ifs at later with here
    rcases entries found with ⟨rfl, new⟩ | old
    · intro same
      rw [new] at same
      exact here (inv.childApart call other child ownChild held later same)
    · exact inv.entryChild other ownChild key entry later old
  case entryLive =>
    intro key entry process found member same
    rcases entries found with ⟨rfl, new⟩ | old
    · rw [new] at same
      have chosenId := inv.childLive call process child held member same
      exact (Option.some.inj (own.symm.trans chosenId)).symm
    · exact inv.entryLive key entry process old member same
  case liveSpawned => exact inv.liveSpawned
  case childSpawned =>
    intro other ownChild later
    rw [children] at later
    split_ifs at later
    exact inv.childSpawned other ownChild later
  case entrySpawned =>
    intro key entry found
    rcases entries found with ⟨-, new⟩ | old
    · rw [new]
      exact inv.childSpawned call child held
    · exact inv.entrySpawned key entry old

theorem Inv.directories (inv : Inv server) (directories : List String) :
    Inv { server with directories := directories } :=
  inv.shrink (shrinks_files server directories server.records)

theorem Inv.records (inv : Inv server) (records : List SandboxMetadata) :
    Inv { server with records := records } :=
  inv.shrink (shrinks_files server server.directories records)

theorem Inv.removeDirectory (inv : Inv server) (directory : String) :
    Inv (server.removeDirectory directory) := inv.directories _

/-- A call that ends or goes on outside a creation gives its place back. -/
theorem Inv.leave (inv : Inv server) {old : Call} (present : server.calls[call]? = some old)
    (next : Call) (outside : next.isCreation = false) : Inv (server.setCall call next) := by
  obtain ⟨unspawned, unnamed⟩ := Call.outside_creation outside
  apply inv.shrink
  apply shrinks_setCall present
  · rw [unspawned]
    exact Nat.zero_le _
  · rw [outside]
    exact Nat.zero_le _
  · exact fun named => absurd unnamed named

theorem inv_prepare {requested : Option String} (inv : Inv server)
    (present : server.calls[call]? = some (.extracting requested))
    (free : ¬ server.Holds experimentId) (answer : Answer) :
    Inv (server.prepare call experimentId answer).server := by
  have cleared (directories : List String) :
      Inv (setCall { server with directories := directories } call .finished) :=
    (inv.directories directories).leave present .finished rfl
  have chosen (directories : List String) :
      Inv (setCall { server with directories := directories } call (.prepared experimentId)) :=
    inv_choose (inv.directories directories) present free
  rw [prepare]
  cases answer.preparation
  case refused =>
    dsimp only
    split_ifs
    · exact cleared _
    · exact inv.leave present .finished rfl
  case unwritten =>
    dsimp only
    split_ifs
    · exact cleared _
    · exact cleared _
  case written =>
    dsimp only
    split_ifs
    · exact chosen _
    · exact chosen _

theorem inv_spawn (inv : Inv server) (present : server.calls[call]? = some (.prepared experimentId))
    (answer : Answer) : Inv (server.spawn call experimentId answer) := by
  rw [spawn]
  split_ifs
  · exact inv_startProcess inv present _ rfl
  · exact inv.leave present .finished rfl

theorem inv_removeSandbox (inv : Inv server)
    (present : server.calls[call]? = some (.removing experimentId)) :
    Inv (server.removeSandbox call experimentId) := by
  rw [removeSandbox]
  cases server.sandboxes.lookup experimentId with
  | some entry =>
      exact (inv.shrink (shrinks_erase server experimentId)).leave present (.killing _ _) rfl
  | none =>
      dsimp only
      split_ifs
      · exact (inv.removeDirectory _).leave present (.marking _) rfl
      · exact inv.leave present (.marking _) rfl

theorem inv_reap {child : Child} (inv : Inv server)
    (present : server.calls[call]? = some (.reaping experimentId child)) :
    Inv (server.reap call experimentId child) := by
  rw [reap]
  split_ifs
  · exact inv
  · exact (inv.removeDirectory _).leave present (.marking _) rfl

theorem inv_advance {waiting : Call} {answer : Answer} (inv : Inv server)
    (present : server.calls[call]? = some waiting) (meets : server.Meets (.advance call answer)) :
    Inv (server.advance call answer waiting).server := by
  cases waiting with
  | extracting requested =>
      rw [advance]
      split_ifs with succeeded
      · exact inv.leave present .finished rfl
      · cases chosen : server.chooseId requested answer with
        | none => exact inv.leave present .finished rfl
        | some experimentId =>
            exact inv_prepare inv present
              (meets requested experimentId present (by simpa using succeeded) chosen) answer
  | prepared experimentId => exact inv_spawn inv present answer
  | connecting experimentId child =>
      rw [advance]
      cases answer.succeeded
      · exact inv.leave present .finished rfl
      · exact inv.shrink (shrinks_setCall present _ le_rfl le_rfl fun _ => ⟨rfl, rfl⟩)
  | recording experimentId child =>
      rw [advance]
      cases answer.succeeded
      · exact inv.shrink (shrinks_setCall present _ le_rfl le_rfl fun _ => ⟨rfl, rfl⟩)
      · have recorded : Inv (server.rememberSandboxMetadata (sandboxMetadata experimentId child)) :=
          inv.records _
        have waiting : (server.rememberSandboxMetadata
            (sandboxMetadata experimentId child)).calls[call]? =
              some (.recording experimentId child) := present
        exact recorded.shrink (shrinks_setCall waiting _ le_rfl le_rfl fun _ => ⟨rfl, rfl⟩)
  | inserting experimentId child => exact inv_addEntry inv present
  | removing experimentId => exact inv_removeSandbox inv present
  | killing experimentId child => exact inv.leave present (.reaping _ _) rfl
  | reaping experimentId child => exact inv_reap inv present
  | marking experimentId =>
      rw [advance]
      cases answer.succeeded
      · exact inv.leave present .finished rfl
      · have marked : Inv (server.markSandboxMetadataDeleted experimentId) := inv.records _
        exact marked.leave present .finished rfl
  | finished => exact inv

/-- One step that meets the condition keeps the invariant. -/
theorem inv_step (inv : Inv server) {event : Event} (meets : server.Meets event) :
    Inv (server.step event).server := by
  cases event with
  | createSandbox requested =>
      rw [step]
      dsimp only
      split_ifs with full
      · exact inv
      · obtain ⟨room, slots⟩ := meets (Bool.eq_false_iff.mpr full)
        exact inv_openCreation inv requested room slots
  | deleteSandbox experimentId => exact inv.shrink (shrinks_openRemoval server experimentId)
  | advance call answer =>
      rw [step]
      cases present : server.calls[call]? with
      | none => exact inv
      | some waiting => exact inv_advance inv present meets
  | exit handle => exact inv.shrink (shrinks_live server _)

/-- No two live sandboxes have one id or one directory, and neither the live sandboxes nor the
registered ones exceed the limit. -/
structure Orderly (server : Server) : Prop where
  ids : (server.live.map Process.experimentId).Nodup
  directories : (server.live.map fun process => server.directoryOf process.experimentId).Nodup
  limit : server.live.length ≤ server.maxSandboxes
  registered : server.sandboxes.entries.length ≤ server.maxSandboxes

/-- The step is no creation that removes the directory or replaces the entry of a live sandbox. -/
def Spares (server : Server) (event : Event) : Prop :=
  ∀ process ∈ server.live,
    (server.step event).removed ≠ some (server.directoryOf process.experimentId) ∧
      ∀ entry, (server.step event).replaced = some entry → entry.child ≠ process.child

theorem directoryOf_injective (server : Server) : Function.Injective server.directoryOf := by
  intro first second same
  exact (String.append_right_inj _).mp same

theorem Inv.orderly (inv : Inv server) : server.Orderly where
  ids := inv.ids
  directories := by
    have named := inv.ids.map server.directoryOf_injective
    rwa [List.map_map] at named
  limit := le_trans (Nat.le_add_right _ _) inv.room
  registered := le_trans (Nat.le_add_right _ _) inv.slots

theorem spares_prepare (free : ¬ server.Holds experimentId) (call : Nat) (answer : Answer)
    {process : Process} (member : process ∈ server.live) :
    (server.prepare call experimentId answer).removed ≠
      some (server.directoryOf process.experimentId) := by
  intro removed
  rw [prepare] at removed
  dsimp only at removed
  split_ifs at removed
  have same := server.directoryOf_injective (Option.some.inj removed)
  exact free (.inl (List.mem_map.mpr ⟨process, member, same.symm⟩))

theorem spares_insert {child : Child} (inv : Inv server)
    (present : server.calls[call]? = some (.inserting experimentId child)) {process : Process}
    (member : process ∈ server.live) {entry : SandboxEntry}
    (replaced : server.sandboxes.lookup experimentId = some entry) :
    entry.child ≠ process.child := by
  intro same
  have chosen : server.chosenAt call = some experimentId := by rw [chosenAt, present]; rfl
  have held : server.childAt call = some child := by rw [childAt, present]; rfl
  have named := inv.entryLive experimentId entry process replaced member (by rw [same])
  have own := inv.chosenLive call process (by rw [chosen, named]) member
  exact inv.entryChild call child experimentId entry held replaced
    (by rw [same, Option.some.inj (own.symm.trans held)])

/-- One step that meets the condition harms no live sandbox. -/
theorem spares_step (inv : Inv server) {event : Event} (meets : server.Meets event) :
    server.Spares event := by
  intro process member
  have plain (next : Server) : (none : Option String) ≠
      some (server.directoryOf process.experimentId) ∧
        ∀ entry, (none : Option SandboxEntry) = some entry → entry.child ≠ process.child :=
    ⟨(Option.some_ne_none _).symm, fun _ absent => absurd absent.symm (Option.some_ne_none _)⟩
  cases event with
  | createSandbox requested => exact plain server
  | deleteSandbox experimentId => exact plain server
  | exit handle => exact plain server
  | advance call answer =>
      rw [step]
      cases present : server.calls[call]? with
      | none => exact plain server
      | some waiting =>
          dsimp only
          cases waiting with
          | extracting requested =>
              rw [advance]
              by_cases failed : (!answer.succeeded) = true
              · rw [if_pos failed]
                exact plain server
              · rw [if_neg failed]
                cases chosen : server.chooseId requested answer with
                | none => exact plain server
                | some experimentId =>
                    have free := meets requested experimentId present (by simpa using failed) chosen
                    exact ⟨spares_prepare free call answer member, (plain server).2⟩
          | inserting experimentId child =>
              exact ⟨(Option.some_ne_none _).symm, fun entry => spares_insert inv present member⟩
          | _ => exact plain server

/-- The server starts without a sandbox, with any leftovers on disk. -/
def start (maxSandboxes : Nat) (owner : String) (records : List SandboxMetadata)
    (directories : List String) : Server where
  maxSandboxes := maxSandboxes
  owner := owner
  records := records
  directories := directories

theorem inv_start (maxSandboxes : Nat) (owner : String) (records : List SandboxMetadata)
    (directories : List String) : Inv (start maxSandboxes owner records directories) where
  room := Nat.zero_le _
  slots := Nat.zero_le _
  ids := List.nodup_nil
  chosenApart := fun _ _ _ held => by simp [chosenAt, start] at held
  chosenLive := fun _ _ _ member => absurd member (List.not_mem_nil)
  childLive := fun _ _ _ _ member => absurd member (List.not_mem_nil)
  childApart := fun _ _ _ _ held => by simp [childAt, start] at held
  entryKey := fun _ _ found => by simp [start] at found
  entryChild := fun _ _ _ _ _ found => by simp [start] at found
  entryLive := fun _ _ _ _ member => absurd member (List.not_mem_nil)
  liveSpawned := fun _ member => absurd member (List.not_mem_nil)
  childSpawned := fun _ _ held => by simp [childAt, start] at held
  entrySpawned := fun _ _ found => by simp [start] at found

theorem run_append_singleton (server : Server) (events : List Event) (event : Event) :
    server.run (events ++ [event]) = ((server.run events).step event).server := by
  rw [run, List.foldl_append]
  rfl

theorem inv_run (inv : Inv server) {events : List Event}
    (meets : ∀ passed event, passed ++ [event] <+: events → (server.run passed).Meets event) :
    Inv (server.run events) := by
  induction events using List.reverseRecOn with
  | nil => exact inv
  | append_singleton passed event ih =>
      have before := ih fun earlier next reached =>
        meets earlier next (reached.trans (List.prefix_append _ _))
      rw [run_append_singleton]
      exact inv_step before (meets passed event (List.prefix_refl _))

/-- Every state of the run is orderly, and no step of it harms a live sandbox. -/
def Safe (server : Server) (events : List Event) : Prop :=
  (∀ passed, passed <+: events → (server.run passed).Orderly) ∧
    ∀ passed event, passed ++ [event] <+: events → (server.run passed).Spares event

/-- Each step of the run meets the condition in the state that it finds. -/
def AllMeet (server : Server) (events : List Event) : Prop :=
  ∀ passed event, passed ++ [event] <+: events → (server.run passed).Meets event

theorem allMeet_nil (server : Server) : server.AllMeet [] := by
  intro passed event reached
  exact absurd (List.prefix_nil.mp reached) (by simp)

theorem holds_iff : server.Holds experimentId ↔
    experimentId ∈ server.live.map Process.experimentId ∨
      ∃ call ∈ server.calls, call.chosen = some experimentId := by
  simp only [Holds, chosenAt, Option.bind_eq_some_iff, List.mem_iff_getElem?]
  rw [exists_comm]
  simp only [exists_and_right]

/-- This is the id that a step settles for a creation. -/
def settledId (server : Server) : Event → Option String
  | .advance call answer => match server.calls[call]? with
      | some (.extracting requested) =>
          if answer.succeeded then server.chooseId requested answer else none
      | _ => none
  | _ => none

theorem meets_advance_iff {answer : Answer} :
    server.Meets (.advance call answer) ↔
      ∀ experimentId ∈ server.settledId (.advance call answer), ¬ server.Holds experimentId := by
  constructor
  · intro meets experimentId settled
    simp only [settledId] at settled
    split at settled
    · rename_i requested present
      split_ifs at settled with succeeded
      · exact meets requested experimentId present succeeded settled
      · cases settled
    · cases settled
  · intro apart requested experimentId present succeeded chosen
    refine apart experimentId ?_
    simp only [settledId, present, if_pos succeeded]
    exact chosen

instance (server : Server) (experimentId : String) : Decidable (server.Holds experimentId) :=
  decidable_of_iff _ holds_iff.symm

instance (server : Server) : DecidablePred server.Meets
  | .createSandbox _ => inferInstanceAs (Decidable (_ = false → _ ∧ _))
  | .deleteSandbox _ | .exit _ => .isTrue trivial
  | .advance _ _ => decidable_of_iff _ meets_advance_iff.symm

theorem allMeet_cons_iff {event : Event} {events : List Event} :
    server.AllMeet (event :: events) ↔
      server.Meets event ∧ (server.step event).server.AllMeet events := by
  constructor
  · intro meets
    exact ⟨meets [] event (List.prefix_append [event] events), fun passed next reached =>
      meets (event :: passed) next (List.cons_prefix_cons.mpr ⟨rfl, reached⟩)⟩
  · rintro ⟨first, rest⟩ passed next reached
    cases passed with
    | nil =>
        obtain ⟨rfl, -⟩ := List.cons_prefix_cons.mp reached
        exact first
    | cons head passed =>
        obtain ⟨rfl, later⟩ := List.cons_prefix_cons.mp reached
        exact rest passed next later

instance decidableAllMeet : (server : Server) → (events : List Event) →
    Decidable (server.AllMeet events)
  | server, [] => .isTrue (allMeet_nil server)
  | server, event :: events =>
      have := decidableAllMeet (server.step event).server events
      decidable_of_iff _ allMeet_cons_iff.symm

/-- In each run whose steps meet the condition, every state is orderly and no step harms a live
sandbox. -/
theorem sandboxCalls_safe_of_meets (maxSandboxes : Nat) (owner : String)
    (records : List SandboxMetadata) (directories : List String) (events : List Event)
    (meets : (start maxSandboxes owner records directories).AllMeet events) :
    (start maxSandboxes owner records directories).Safe events := by
  have held {passed : List Event} (reached : passed <+: events) :
      Inv ((start maxSandboxes owner records directories).run passed) :=
    inv_run (inv_start maxSandboxes owner records directories) fun earlier next before =>
      meets earlier next (before.trans reached)
  constructor
  · exact fun passed reached => (held reached).orderly
  · intro passed event reached
    exact spares_step (held ((List.prefix_append _ _).trans reached)) (meets passed event reached)

/-- A second sandbox is created while the first one is deleted, and then the first id again. -/
def deletingEvents : List Event :=
  [.createSandbox (some "e1"), .advance 0 {}, .advance 0 { pid := 41 }, .advance 0 {},
    .advance 0 {}, .advance 0 {}, .deleteSandbox "e1", .createSandbox (some "e2"), .advance 1 {},
    .advance 2 {}, .advance 2 { pid := 42 }, .advance 1 {}, .exit 0, .advance 2 {}, .advance 1 {},
    .advance 2 {}, .advance 1 {}, .advance 2 {}, .createSandbox (some "e1"), .advance 3 {},
    .advance 3 { pid := 43 }, .advance 3 {}, .advance 3 {}, .advance 3 {}]

theorem sandboxCalls_safe_of_meets_alone : (start 2 "0badcafe" [] []).Safe deletingEvents :=
  sandboxCalls_safe_of_meets _ _ _ _ _ (by decide)

/-- Two creations that overlap both pass the limit check. -/
example : ((start 1 "0badcafe" [] []).run [.createSandbox none, .createSandbox none,
    .advance 0 { generated := "a" }, .advance 1 { generated := "b" }, .advance 0 { pid := 41 },
    .advance 1 { pid := 42 }]).live.length = 2 := by rfl

/-- Two creations of one id overlap, and the second one passes the id check of the first. -/
theorem not_sandboxCalls_safe : ¬ ∀ (maxSandboxes : Nat) (owner : String)
    (records : List SandboxMetadata) (directories : List String) (events : List Event),
    (start maxSandboxes owner records directories).Safe events := by
  intro safe
  have run := safe 2 "0badcafe" [] [] [.createSandbox (some "e1"), .createSandbox (some "e1"),
    .advance 0 {}, .advance 0 { pid := 41 }, .advance 1 {}, .advance 1 { pid := 42 }]
  exact absurd (run.1 _ (List.prefix_refl _)).ids (by decide)

end Server

end FramaCMcp.Sandboxes
