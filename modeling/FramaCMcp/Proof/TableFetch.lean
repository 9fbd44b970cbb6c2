/-
This file shows that every caller receives the whole table from the shared cursor.
-/

import FramaCMcp.Construction.Client
import Mathlib.Logic.Function.Basic
import Mathlib.Logic.Relation

namespace FramaCMcp.Fetch

open Client

section Cursor

variable {State : Type} (server : CursorServer State)

/-- The entries sent and still owed make up the table while the array stays as it was. -/
def Account.Balanced (account : Account) (owed : List Json) : Prop :=
  account.unchanged = true → account.sent ++ owed = account.table

/-- The caller holds every entry that the cursor sent since the reset for this caller, and the
cursor owes nothing more. -/
structure Complete (caller : Nat) (entries : List Json) (account : Account) : Prop where
  own : account.resetFor = some caller
  all : entries = account.sent
  drained : account.owed = []
  table : account.unchanged = true → entries = account.table

/-- An accepted answer to a fetch extends the entries of the caller as the account of the cursor
says. -/
structure Extends (caller : Nat) (entries : List Json) (data : Json) (account : Account) :
    Prop where
  own : account.resetFor = some caller
  all : extendEntries entries data = account.sent
  drained : pendingCount data = 0 → account.owed = []
  balanced : account.Balanced account.owed

/-- This is what holds for the caller with the lock, before and after the server takes its
request. The requests in front of its reload belong to callers that gave up. -/
inductive Holding (system : System State) (caller : Nat) : Phase → Prop where
  | reloadSent (stale : List Request) (queued : system.queue = stale ++ [⟨caller, .reload⟩])
      (foreign : ∀ request ∈ stale, request.caller ≠ caller)
      (open_ : system.answers caller = none) : Holding system caller .reloading
  | reloadAnswered (answer : Answer) (queued : system.queue = [])
      (waits : system.answers caller = some answer)
      (reset : ∀ data, answer.result = .ok data →
        system.account.resetFor = some caller ∧ system.account.sent = []) :
      Holding system caller .reloading
  | fetchSent (entries : List Json) (queued : system.queue = [⟨caller, .fetch⟩])
      (open_ : system.answers caller = none) (own : system.account.resetFor = some caller)
      (all : entries = system.account.sent) : Holding system caller (.fetching entries)
  | fetchAnswered (entries : List Json) (answer : Answer) (queued : system.queue = [])
      (waits : system.answers caller = some answer)
      (extended : ∀ data, answer.result = .ok data →
        Extends caller entries data answer.account ∧
          system.account.resetFor = answer.account.resetFor ∧
          system.account.sent = answer.account.sent) :
      Holding system caller (.fetching entries)

/-- A caller without the lock has not begun or has ended, with an error or the whole table. -/
inductive Outside (caller : Nat) : Phase → Prop where
  | idle : Outside caller .idle
  | failed (error : ClientError) (account : Account) :
      Outside caller (.finished (.error error) account)
  | complete (entries : List Json) (account : Account) (complete : Complete caller entries account) :
      Outside caller (.finished (.ok entries) account)

/-- This is the invariant of the callers and the server. -/
structure Coherent (system : System State) : Prop where
  balanced : system.account.Balanced (server.owed system.server)
  begun : ∀ request ∈ system.queue, system.phase request.caller ≠ .idle
  outside : ∀ caller, system.fetchLock ≠ some caller → Outside caller (system.phase caller)
  holding : ∀ caller, system.fetchLock = some caller →
    Holding system caller (system.phase caller)

theorem coherent_initial (state : State) : Coherent server (System.initial state) where
  balanced := by
    intro unchanged
    cases unchanged
  begun := by
    intro request member
    cases member
  outside := fun caller _ => .idle
  holding := by
    intro caller holds
    cases holds

/-- A reset or a chunk moves entries from the owed ones to the sent ones. -/
theorem balanced_served {system : System State} {request : Request}
    {result : Except ClientError Json} {after : State}
    (balanced : system.account.Balanced (server.owed system.server))
    (answers : server.answers request.kind system.server result after) :
    (system.account.served server request result after).Balanced (server.owed after) := by
  rcases request with ⟨caller, kind⟩
  cases result with
  | error error =>
      intro unchanged
      cases kind <;> cases unchanged
  | ok data =>
      cases kind with
      | reload =>
          intro _
          show [] ++ server.owed after = server.rows after
          rw [List.nil_append, server.reloadOwed answers, server.reloadRows answers]
      | fetch =>
          cases flag : reloadFlag data with
          | true =>
              simp only [Account.served, flag, if_true]
              intro _
              show updatedEntries data ++ server.owed after = server.rows after
              rw [server.fetchReload answers flag, server.fetchRows answers]
          | false =>
              simp only [Account.served, flag, Bool.false_eq_true, if_false]
              intro unchanged
              show (system.account.sent ++ updatedEntries data) ++ server.owed after = _
              rw [List.append_assoc, server.fetchChunk answers flag]
              exact balanced unchanged

theorem owed_served (account : Account) (request : Request) (result : Except ClientError Json)
    (after : State) : (account.served server request result after).owed = server.owed after := by
  rcases request with ⟨caller, kind⟩
  cases result with
  | error error => cases kind <;> rfl
  | ok data =>
      cases kind with
      | reload => rfl
      | fetch =>
          simp only [Account.served]
          split <;> rfl

variable {system : System State} {caller : Nat}

/-- The answer to a fetch brings the caller and the account of the cursor to the same entries. -/
theorem extends_served {data : Json} {after : State}
    (balanced : system.account.Balanced (server.owed system.server))
    (own : system.account.resetFor = some caller)
    (answers : server.fetch system.server (.ok data) after) :
    Extends caller system.account.sent data
      (system.account.served server ⟨caller, .fetch⟩ (.ok data) after) where
  own := by
    simp only [Account.served]
    split
    · rfl
    · exact own
  all := by
    simp only [Account.served, extendEntries]
    split <;> rfl
  drained := by
    intro pending
    rw [owed_served]
    exact server.fetchPending answers pending
  balanced := by
    rw [owed_served]
    exact @balanced_served State server _ ⟨caller, .fetch⟩ _ _ balanced answers

theorem Extends.complete {entries : List Json} {data : Json} {account : Account}
    (extension : Extends caller entries data account) (pending : pendingCount data = 0) :
    Complete caller (extendEntries entries data) account where
  own := extension.own
  all := extension.all
  drained := extension.drained pending
  table := by
    intro unchanged
    have whole := extension.balanced unchanged
    rw [extension.drained pending, List.append_nil] at whole
    rw [extension.all, whole]

/-- A caller that ends releases the lock, and the others keep their phases. -/
theorem coherent_finish (coherent : Coherent server system) (holds : system.fetchLock = some caller)
    {result : Except ClientError (List Json)} {account : Account}
    (ends : Outside caller (.finished result account)) {queue : List Request}
    (fewer : ∀ request ∈ queue, request ∈ system.queue) :
    Coherent server { system.finish caller result account with queue } where
  balanced := coherent.balanced
  begun := by
    intro request member
    show Function.update system.phase caller _ request.caller ≠ .idle
    by_cases same : request.caller = caller
    · rw [same, Function.update_self]
      intro idle
      cases idle
    · rw [Function.update_of_ne same]
      exact coherent.begun request (fewer request member)
  outside := by
    intro other _
    show Outside other (Function.update system.phase caller _ other)
    by_cases same : other = caller
    · rw [same, Function.update_self]
      exact ends
    · rw [Function.update_of_ne same]
      apply coherent.outside
      rw [holds]
      exact fun lock => same (Option.some.inj lock).symm
  holding := by
    intro other lock
    cases lock

theorem coherent_send (coherent : Coherent server system)
    (alone : ∀ other, other ≠ caller → system.fetchLock ≠ some other) {kind : RequestKind}
    {phase : Phase} (busy : phase ≠ .idle)
    (holding : Holding { (system.send caller kind).setPhase caller phase with
      fetchLock := some caller } caller phase) :
    Coherent server { (system.send caller kind).setPhase caller phase with
      fetchLock := some caller } where
  balanced := coherent.balanced
  begun := by
    intro request member
    show Function.update system.phase caller phase request.caller ≠ .idle
    by_cases same : request.caller = caller
    · rw [same, Function.update_self]
      exact busy
    · rw [Function.update_of_ne same]
      rcases List.mem_append.mp member with earlier | sent
      · exact coherent.begun request earlier
      · exact absurd (congrArg Request.caller (List.mem_singleton.mp sent)) same
  outside := by
    intro other lock
    show Outside other (Function.update system.phase caller phase other)
    have different : other ≠ caller := fun same => lock (congrArg some same.symm)
    rw [Function.update_of_ne different]
    exact coherent.outside other (alone other different)
  holding := by
    intro other lock
    obtain rfl : caller = other := Option.some.inj lock
    show Holding _ caller (Function.update system.phase caller phase caller)
    rw [Function.update_self]
    exact holding

theorem coherent_acquire (coherent : Coherent server system) (free : system.fetchLock = none)
    (idle : system.phase caller = .idle) : Coherent server (system.acquire caller) := by
  apply coherent_send server coherent
  · intro other _ lock
    rw [free] at lock
    cases lock
  · exact Phase.noConfusion
  · refine .reloadSent system.queue rfl ?_ (Function.update_self ..)
    intro request member same
    exact coherent.begun request member (same ▸ idle)

theorem holding_serve (coherent : Coherent server system) {request : Request} {rest : List Request}
    {result : Except ClientError Json} {after : State} (first : system.queue = request :: rest)
    (answers : server.answers request.kind system.server result after) {phase : Phase}
    (holding : Holding system caller phase) :
    Holding (system.serve server request rest result after) caller phase := by
  cases holding with
  | reloadSent stale queued foreign open_ =>
      cases stale with
      | nil =>
          obtain ⟨rfl, rfl⟩ := List.cons.inj (first.symm.trans queued)
          refine .reloadAnswered _ rfl (Function.update_self ..) ?_
          intro data accepted
          obtain rfl : result = .ok data := accepted
          exact ⟨rfl, rfl⟩
      | cons head stale =>
          obtain ⟨rfl, rfl⟩ := List.cons.inj (first.symm.trans queued)
          have different := foreign request (List.mem_cons_self ..)
          refine .reloadSent stale rfl (fun other member =>
            foreign other (List.mem_cons_of_mem _ member)) ?_
          exact (Function.update_of_ne different.symm ..).trans open_
  | reloadAnswered answer queued =>
      rw [queued] at first
      cases first
  | fetchSent entries queued open_ own all =>
      obtain ⟨rfl, rfl⟩ := List.cons.inj (first.symm.trans queued)
      refine .fetchAnswered entries _ rfl (Function.update_self ..) ?_
      intro data accepted
      obtain rfl : result = .ok data := accepted
      rw [all]
      exact ⟨extends_served server coherent.balanced own answers, rfl, rfl⟩
  | fetchAnswered entries answer queued =>
      rw [queued] at first
      cases first

theorem coherent_serve (coherent : Coherent server system) {request : Request} {rest : List Request}
    {result : Except ClientError Json} {after : State} (first : system.queue = request :: rest)
    (answers : server.answers request.kind system.server result after) :
    Coherent server (system.serve server request rest result after) where
  balanced := balanced_served server coherent.balanced answers
  begun := by
    intro other member
    apply coherent.begun other
    rw [first]
    exact List.mem_cons_of_mem _ member
  outside := coherent.outside
  holding := fun caller lock => holding_serve server coherent first answers
    (coherent.holding caller lock)

theorem coherent_receive (coherent : Coherent server system) {answer : Answer}
    (holds : system.fetchLock = some caller) (waits : system.answers caller = some answer) :
    Coherent server (system.receive caller answer) := by
  have alone : ∀ other, other ≠ caller → system.fetchLock ≠ some other := by
    intro other different lock
    exact different (Option.some.inj (lock.symm.trans holds))
  have keeps : ∀ {kind phase}, (system.send caller kind).setPhase caller phase =
      { (system.send caller kind).setPhase caller phase with fetchLock := some caller } := by
    intro kind phase
    rw [← holds]
    rfl
  have ends : ∀ {result account}, Outside caller (.finished result account) →
      Coherent server (system.finish caller result account) :=
    fun outside => coherent_finish server coherent holds outside fun _ member => member
  have holding := coherent.holding caller holds
  unfold System.receive
  cases current : system.phase caller with
  | idle =>
      rw [current] at holding
      cases holding
  | finished result account =>
      rw [current] at holding
      cases holding
  | reloading =>
      rw [current] at holding
      cases holding with
      | reloadSent stale queued foreign open_ =>
          rw [open_] at waits
          cases waits
      | reloadAnswered answered queued waiting reset =>
          obtain rfl : answered = answer := Option.some.inj (waiting.symm.trans waits)
          cases outcome : answered.result with
          | error error => exact ends (.failed error _)
          | ok data =>
              obtain ⟨own, nothing⟩ := reset data outcome
              show Coherent server ((system.send caller .fetch).setPhase caller (.fetching []))
              rw [keeps]
              apply coherent_send server coherent alone Phase.noConfusion
              refine .fetchSent [] ?_ (Function.update_self ..) own nothing.symm
              show system.queue ++ [_] = [_]
              rw [queued, List.nil_append]
  | fetching entries =>
      rw [current] at holding
      cases holding with
      | fetchSent _ queued open_ =>
          rw [open_] at waits
          cases waits
      | fetchAnswered _ answered queued waiting extended =>
          obtain rfl : answered = answer := Option.some.inj (waiting.symm.trans waits)
          cases outcome : answered.result with
          | error error => exact ends (.failed error _)
          | ok data =>
              obtain ⟨extension, sameReset, sameSent⟩ := extended data outcome
              simp only [fetchAll]
              by_cases pending : pendingCount data = 0
              · simp only [pending, if_true]
                exact ends (.complete _ _ (extension.complete pending))
              · simp only [pending, if_false]
                rw [keeps]
                apply coherent_send server coherent alone Phase.noConfusion
                refine .fetchSent _ ?_ (Function.update_self ..) (sameReset.trans extension.own)
                  (extension.all.trans sameSent.symm)
                show system.queue ++ [_] = [_]
                rw [queued, List.nil_append]

/-- The cursor sends nothing by itself, so the array may change while a caller holds the lock. -/
theorem coherent_other (coherent : Coherent server system) {after : State} {account : Account}
    (balanced : account.Balanced (server.owed after))
    (reset : account.resetFor = system.account.resetFor) (sent : account.sent = system.account.sent) :
    Coherent server { system with server := after, account } where
  balanced := balanced
  begun := coherent.begun
  outside := coherent.outside
  holding := by
    intro caller lock
    have holding : Holding system caller (system.phase caller) := coherent.holding caller lock
    show Holding _ caller (system.phase caller)
    generalize system.phase caller = phase at holding ⊢
    cases holding with
    | reloadSent stale queued foreign open_ => exact .reloadSent stale queued foreign open_
    | reloadAnswered answer queued waits fresh =>
        refine .reloadAnswered answer queued waits ?_
        show ∀ data, _ → account.resetFor = some caller ∧ account.sent = []
        rw [reset, sent]
        exact fresh
    | fetchSent entries queued open_ own all =>
        exact .fetchSent entries queued open_ (reset.trans own) (all.trans sent.symm)
    | fetchAnswered entries answer queued waits extended =>
        refine .fetchAnswered entries answer queued waits ?_
        show ∀ data, _ → _ ∧ account.resetFor = _ ∧ account.sent = _
        rw [reset, sent]
        exact extended

theorem coherent_step {system next : System State} (coherent : Coherent server system)
    (step : Step server system next) : Coherent server next := by
  cases step with
  | acquire caller free idle => exact coherent_acquire server coherent free idle
  | serve request rest result after first answers =>
      exact coherent_serve server coherent first answers
  | receive caller answer holds waits => exact coherent_receive server coherent holds waits
  | abandon caller error holds =>
      exact coherent_finish server coherent holds (.failed error _) fun _ member => member
  | lose caller error holds =>
      exact coherent_finish server coherent holds (.failed error _)
        fun _ member => (List.mem_filter.mp member).1
  | other after sameRows sameOwed =>
      refine coherent_other server coherent ?_ rfl rfl
      rw [sameOwed]
      exact coherent.balanced
  | change after =>
      refine coherent_other server coherent ?_ rfl rfl
      intro unchanged
      cases unchanged

theorem coherent_run {state : State}
    (run : Relation.ReflTransGen (Step server) (System.initial state) system) :
    Coherent server system := by
  induction run with
  | refl => exact coherent_initial server state
  | tail _ step ih => exact coherent_step server ih step

/-- In every run, a result of a caller holds exactly the entries that the cursor sent since the
reset for this caller, nothing is owed after its last chunk, and the result is the table at the
reset when the array stays as it was until the last chunk. -/
theorem reloadFetch_complete {state : State} {system : System State}
    (run : Relation.ReflTransGen (Step server) (System.initial state) system) {caller : Nat}
    {entries : List Json} {account : Account}
    (finished : system.phase caller = .finished (.ok entries) account) :
    account.resetFor = some caller ∧ entries = account.sent ∧ account.owed = [] ∧
      (account.unchanged = true → entries = account.table) := by
  have coherent := coherent_run server run
  by_cases lock : system.fetchLock = some caller
  · have holding := coherent.holding caller lock
    rw [finished] at holding
    cases holding
  · have outside := coherent.outside caller lock
    rw [finished] at outside
    cases outside with
    | complete _ _ complete =>
        exact ⟨complete.own, complete.all, complete.drained, complete.table⟩

end Cursor

/-- This server sends one row with each chunk and reports whether rows remain. -/
def rowReply (rest : List Json) (row : List Json) : Json :=
  .obj [("reload", .bool false), ("updated", .arr row), ("removed", .arr []),
    ("pending", .num (if rest = [] then 0 else 1))]

theorem pendingCount_rowReply (rest row : List Json) :
    pendingCount (rowReply rest row) = 0 ↔ rest = [] := by
  cases rest with
  | nil => exact iff_of_true rfl rfl
  | cons head tail => exact iff_of_false Nat.one_ne_zero (List.cons_ne_nil head tail)

def rowServer : CursorServer (List Json × List Json) where
  rows := Prod.fst
  owed := Prod.snd
  reload := fun before result after => result = .ok .null ∧ after = (before.1, before.1)
  fetch := fun before result after =>
    result = .ok (rowReply (before.2.drop 1) (before.2.take 1)) ∧
      after = (before.1, before.2.drop 1)
  reloadRows := by
    rintro before data after ⟨_, rfl⟩
    rfl
  reloadOwed := by
    rintro before data after ⟨_, rfl⟩
    rfl
  fetchRows := by
    rintro before data after ⟨_, rfl⟩
    rfl
  fetchChunk := by
    rintro before data after ⟨sent, rfl⟩ _
    obtain rfl := Except.ok.inj sent
    exact List.take_append_drop 1 before.2
  fetchReload := by
    rintro before data after ⟨sent, rfl⟩ flag
    obtain rfl := Except.ok.inj sent
    cases flag
  fetchPending := by
    rintro before data after ⟨sent, rfl⟩ pending
    obtain rfl := Except.ok.inj sent
    show before.2.drop 1 = []
    exact (pendingCount_rowReply ..).mp pending

/-- The server answers the request of the holder and the holder takes the answer. -/
def System.exchange {State : Type} (system : System State) (server : CursorServer State)
    (request : Request) (result : Except ClientError Json) (after : State) : System State :=
  (system.serve server request [] result after).receive request.caller
    ⟨result, system.account.served server request result after⟩

theorem exchange_run {State : Type} (server : CursorServer State) {start system : System State}
    {request : Request} {result : Except ClientError Json} {after : State}
    (run : Relation.ReflTransGen (Step server) start system) (queued : system.queue = [request])
    (lock : system.fetchLock = some request.caller)
    (answers : server.answers request.kind system.server result after) :
    Relation.ReflTransGen (Step server) start (system.exchange server request result after) :=
  (run.tail (.serve system request [] result after queued answers)).tail
    (.receive _ request.caller _ lock (Function.update_self ..))

def row (key : String) (value : Int) : Json := .obj [("key", .str key), ("value", .num value)]

/-- The caller has the first of two rows. -/
def halfRun : System (List Json × List Json) :=
  (((System.initial ([row "f" 1, row "g" 2], [])).acquire 0).exchange rowServer ⟨0, .reload⟩
    (.ok .null) ([row "f" 1, row "g" 2], [row "f" 1, row "g" 2])).exchange rowServer ⟨0, .fetch⟩
    (.ok (rowReply [row "g" 2] [row "f" 1])) ([row "f" 1, row "g" 2], [row "g" 2])

theorem halfRun_run : Relation.ReflTransGen (Step rowServer)
    (System.initial ([row "f" 1, row "g" 2], [])) halfRun :=
  exchange_run rowServer (exchange_run rowServer (.single (.acquire _ 0 rfl rfl)) rfl rfl
    ⟨rfl, rfl⟩) rfl rfl ⟨rfl, rfl⟩

def quietRun : System (List Json × List Json) :=
  halfRun.exchange rowServer ⟨0, .fetch⟩ (.ok (rowReply [] [row "g" 2]))
    ([row "f" 1, row "g" 2], [])

/-- Both rows of a table that stays as it was reach the caller in two chunks. -/
theorem reloadFetch_complete_example :
    ∃ account, quietRun.phase 0 = .finished (.ok [row "f" 1, row "g" 2]) account ∧
      account.resetFor = some 0 ∧ account.owed = [] ∧ account.table = [row "f" 1, row "g" 2] := by
  have complete := reloadFetch_complete rowServer
    (exchange_run rowServer halfRun_run rfl rfl ⟨rfl, rfl⟩ : Relation.ReflTransGen _ _ quietRun)
    (show quietRun.phase 0 = .finished (.ok [row "f" 1, row "g" 2]) _ from rfl)
  exact ⟨_, rfl, complete.1, complete.2.2.1, (complete.2.2.2 rfl).symm⟩

/-- The first row gets a new value after its chunk, and the cursor owes the row again. -/
def changedRun : System (List Json × List Json) :=
  let changed : System (List Json × List Json) :=
    { halfRun with
      server := ([row "f" 3, row "g" 2], [row "g" 2, row "f" 3])
      account := { halfRun.account with unchanged := false } }
  (changed.exchange rowServer ⟨0, .fetch⟩ (.ok (rowReply [row "f" 3] [row "g" 2]))
    ([row "f" 3, row "g" 2], [row "f" 3])).exchange rowServer ⟨0, .fetch⟩
    (.ok (rowReply [] [row "f" 3])) ([row "f" 3, row "g" 2], [])

theorem changedRun_run : Relation.ReflTransGen (Step rowServer)
    (System.initial ([row "f" 1, row "g" 2], [])) changedRun :=
  exchange_run rowServer (exchange_run rowServer (halfRun_run.tail (.change _ _)) rfl rfl
    ⟨rfl, rfl⟩) rfl rfl ⟨rfl, rfl⟩

/-- The result then has the row twice. It is neither the table at the reload nor the table at the
last chunk. -/
theorem reloadFetch_repeats :
    ∃ (system : System (List Json × List Json)) (entries : List Json) (account : Account),
      Relation.ReflTransGen (Step rowServer)
          (System.initial ([row "f" 1, row "g" 2], [])) system ∧
        system.phase 0 = .finished (.ok entries) account ∧
        entries = [row "f" 1, row "g" 2, row "f" 3] ∧
        account.table = [row "f" 1, row "g" 2] ∧ entries ≠ account.table ∧
        rowServer.rows system.server = [row "f" 3, row "g" 2] ∧
        entries ≠ rowServer.rows system.server := by
  refine ⟨changedRun, _, _, changedRun_run, rfl, rfl, rfl, ?_, rfl, ?_⟩
  · exact fun same => absurd (congrArg List.length same) (show (3 : Nat) ≠ 2 by decide)
  · exact fun same => absurd (congrArg List.length same) (show (3 : Nat) ≠ 2 by decide)

end FramaCMcp.Fetch
