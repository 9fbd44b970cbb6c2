/-
This file shows that a request is settled only by a reply with its own identifier.
-/

import FramaCMcp.Construction.Client
import Mathlib.Data.List.Nodup
import FramaCMcp.Foundation.JsonUnique

namespace FramaCMcp.Client

/-- The response settles the request of this identifier with this result. -/
inductive Settles (requestId : String) : Response → Except ClientError Json → Prop where
  | data (value : Json) : Settles requestId (.data requestId value) (.ok value)
  | serverError (msg : String) :
      Settles requestId (.error requestId msg) (.error (.serverError requestId msg))
  | rejected : Settles requestId (.rejected requestId) (.error (.rejected requestId))
  | failed (msg : String) (diagnostics : RequestDiagnostics) :
      Settles requestId (.error requestId msg)
        (.error (.commandFailed "ERROR" requestId msg diagnostics))
  | killed (msg : String) (diagnostics : RequestDiagnostics) :
      Settles requestId (.killed requestId)
        (.error (.commandFailed "KILLED" requestId msg diagnostics))
  | refused (msg : String) (diagnostics : RequestDiagnostics) :
      Settles requestId (.rejected requestId)
        (.error (.commandFailed "REJECTED" requestId msg diagnostics))

/-- The request ends by its deadline or by a failure of the stream. -/
inductive Unanswered (requestId : String) : Except ClientError Json → Prop where
  | timeout : Unanswered requestId (.error .timeout)
  | deadline (msg : String) (diagnostics : RequestDiagnostics) :
      Unanswered requestId (.error (.commandFailed "TIMEOUT" requestId msg diagnostics))
  | transport : Unanswered requestId (.error .transport)
  | json : Unanswered requestId (.error .json)
  | unexpected (message : String) : Unanswered requestId (.error (.unexpectedResponse message))

/-- The last arrival that the request takes settles it. -/
def SettledBy (requestId : String) (window : List Arrival) (result : Except ClientError Json) :
    Prop :=
  ∃ before arrival response, window = before ++ [arrival] ∧
    arrival.decode = .ok (some response) ∧ Settles requestId response result

/-- A request takes a window of the arrivals and is settled by its last one or not at all. -/
def Takes (requestId : String) (arrivals : List Arrival)
    (outcome : Except ClientError Json × List Arrival) : Prop :=
  ∃ window, arrivals = window ++ outcome.2 ∧
    (Unanswered requestId outcome.1 ∨ SettledBy requestId window outcome.1)

def Response.id : Response → Option String
  | .data id _ => some id
  | .error id _ => some id
  | .signal id => some id
  | .rejected id => some id
  | .killed id => some id
  | .cmdLineOn => none
  | .cmdLineOff => none

variable {result : Except ClientError Json} {requestId : String} {arrivals : List Arrival}
    {entries : List Entry} {calls : List Call}

theorem Settles.own {response : Response} (settles : Settles requestId response result) :
    response.id = some requestId := by
  cases settles <;> rfl

theorem Takes.cons {requestId : String} {arrival : Arrival} {rest : List Arrival}
    {outcome : Except ClientError Json × List Arrival} (takes : Takes requestId rest outcome) :
    Takes requestId (arrival :: rest) outcome := by
  obtain ⟨window, split, ended⟩ := takes
  refine ⟨arrival :: window, by rw [split, List.cons_append], ?_⟩
  rcases ended with none | ⟨before, last, response, rfl, decoded, settles⟩
  · exact .inl none
  · exact .inr ⟨arrival :: before, last, response, rfl, decoded, settles⟩

theorem Takes.unanswered {rest : List Arrival} (window : List Arrival)
    (none : Unanswered requestId result) :
    Takes requestId (window ++ rest) (result, rest) := ⟨window, rfl, .inl none⟩

theorem Takes.settled {arrival : Arrival} {rest : List Arrival} {response : Response}
    (decoded : arrival.decode = .ok (some response)) (settles : Settles requestId response result) :
    Takes requestId (arrival :: rest) (result, rest) :=
  ⟨[arrival], rfl, .inr ⟨[], arrival, response, rfl, decoded, settles⟩⟩

/-- A failed read ends the request without an answer. -/
theorem unanswered_of_decode (requestId : String) {arrival : Arrival} {error : ClientError}
    (decoded : arrival.decode = .error error) : Unanswered requestId (.error error) := by
  cases arrival with
  | message value =>
      cases found : decodeResponse value with
      | ok response =>
          rw [Arrival.decode, found] at decoded
          cases decoded
      | error other =>
          rw [Arrival.decode, found] at decoded
          obtain rfl := Except.error.inj decoded
          obtain ⟨message, rfl⟩ : ∃ message, other = .unexpectedResponse message := by
            simp only [decodeResponse] at found
            split at found <;> first
              | cases found; done
              | exact ⟨_, (Except.error.inj found).symm⟩
              | skip
            split at found <;> first
              | cases found; done
              | exact ⟨_, (Except.error.inj found).symm⟩
          exact .unexpected message
  | notJson =>
      obtain rfl := Except.error.inj decoded
      exact .json
  | silent => cases decoded
  | broken =>
      obtain rfl := Except.error.inj decoded
      exact .transport

theorem settleGet_settles {response : Response}
    (settled : settleGet requestId response = some result) : Settles requestId response result := by
  cases response with
  | data id value =>
      obtain ⟨rfl, same⟩ := Option.ite_none_right_eq_some.mp settled
      obtain rfl := Option.some.inj same
      exact .data value
  | error id msg =>
      obtain ⟨rfl, same⟩ := Option.ite_none_right_eq_some.mp settled
      obtain rfl := Option.some.inj same
      exact .serverError msg
  | rejected id =>
      obtain ⟨rfl, same⟩ := Option.ite_none_right_eq_some.mp settled
      obtain rfl := Option.some.inj same
      exact .rejected
  | signal id => cases settled
  | killed id => cases settled
  | cmdLineOn => cases settled
  | cmdLineOff => cases settled

theorem arrivalStream_recv (arrivals : List Arrival) :
    arrivalStream.recv arrivals = recvResponse arrivals := rfl

theorem arrivalStream_send (tick : Tick) (arrivals : List Arrival) :
    arrivalStream.send tick arrivals = (tick.sent, arrivals) := rfl

theorem waitForId_takes (requestId : String) (clock : List Bool) (arrivals : List Arrival) :
    Takes requestId arrivals (waitForId arrivalStream requestId clock arrivals) := by
  induction clock generalizing arrivals with
  | nil => exact .unanswered [] .timeout
  | cons expired clock ih =>
      rw [waitForId]
      split_ifs with late
      · exact .unanswered [] .timeout
      cases arrivals with
      | nil => exact .unanswered [] .timeout
      | cons arrival rest =>
          rw [arrivalStream_recv, recvResponse]
          cases decoded : arrival.decode with
          | error error =>
              exact .unanswered [arrival] (unanswered_of_decode requestId decoded)
          | ok received =>
              cases received with
              | none => exact .unanswered [arrival] .timeout
              | some response =>
                  cases settled : settleGet requestId response with
                  | some result =>
                      simp only [settled]
                      exact .settled decoded (settleGet_settles settled)
                  | none =>
                      simp only [settled]
                      exact (ih rest).cons

/-- A choice answers only for a request of one's own. -/
theorem own_of_answered {Answer Progress : Type} {own : Prop} [Decidable own]
    {answer outcome : Answer} {last before progress : Progress}
    (answered : (if own then (some answer, last) else (none, before)) = (some outcome, progress)) :
    own ∧ answer = outcome := by
  split_ifs at answered with mine
  · exact ⟨mine, Option.some.inj (Prod.mk.inj answered).1⟩
  · cases answered

/-- A queued request hands on the data of its result. -/
theorem terminalOutcome_settles {response : Response} {diagnostics progress : RequestDiagnostics}
    {outcome : Except ClientError ExecResult}
    (settled : terminalOutcome response requestId diagnostics = (some outcome, progress)) :
    Settles requestId response (outcome.map ExecResult.data) := by
  cases response with
  | data id value =>
      obtain ⟨rfl, rfl⟩ := own_of_answered settled
      exact .data value
  | error id msg =>
      obtain ⟨rfl, rfl⟩ := own_of_answered settled
      exact .failed msg _
  | rejected id =>
      obtain ⟨rfl, rfl⟩ := own_of_answered settled
      exact .refused _ _
  | killed id =>
      obtain ⟨rfl, rfl⟩ := own_of_answered settled
      exact .killed _ _
  | signal id => cases settled
  | cmdLineOn => cases settled
  | cmdLineOff => cases settled

/-- The data of a queued result are those of the request. -/
def dataOf (outcome : Except ClientError ExecResult × List Arrival) :
    Except ClientError Json × List Arrival := (outcome.1.map ExecResult.data, outcome.2)

theorem killAtDeadline_takes (requestId : String) (tick : Tick) (arrivals : List Arrival)
    (diagnostics : RequestDiagnostics) : Takes requestId arrivals
      (dataOf (killAtDeadline arrivalStream requestId tick arrivals diagnostics)) := by
  obtain ⟨expired, sent⟩ := tick
  cases sent with
  | false => exact .unanswered [] (.deadline _ _)
  | true =>
      cases arrivals with
      | nil => exact .unanswered [] (.deadline _ _)
      | cons arrival rest => exact .unanswered [arrival] (.deadline _ _)

theorem pollRounds_takes (requestId : String) (ticks : List Tick) (arrivals : List Arrival)
    (diagnostics : RequestDiagnostics) :
    Takes requestId arrivals (dataOf (pollRounds arrivalStream requestId ticks arrivals diagnostics)) := by
  induction ticks generalizing arrivals diagnostics with
  | nil => exact killAtDeadline_takes requestId _ arrivals diagnostics
  | cons tick ticks ih =>
      rw [pollRounds]
      split_ifs with late
      · exact killAtDeadline_takes requestId tick arrivals diagnostics
      obtain ⟨expired, sent⟩ := tick
      cases sent with
      | false => exact .unanswered [] .transport
      | true =>
          simp only [arrivalStream_send]
          cases arrivals with
          | nil => exact ih [] diagnostics
          | cons arrival rest =>
              rw [arrivalStream_recv, recvResponse]
              cases decoded : arrival.decode with
              | error error =>
                  exact .unanswered [arrival] (unanswered_of_decode requestId decoded)
              | ok received =>
                  cases received with
                  | none => exact (ih rest diagnostics).cons
                  | some response =>
                      cases settled : terminalOutcome response requestId diagnostics with
                      | mk outcome progress =>
                          cases outcome with
                          | some outcome =>
                              simp only [settled]
                              exact .settled decoded (terminalOutcome_settles settled)
                          | none =>
                              simp only [settled]
                              exact (ih rest progress).cons

theorem pollLoop_takes (requestId request : String) (ticks : List Tick)
    (arrivals : List Arrival) :
    Takes requestId arrivals (dataOf (pollLoop arrivalStream requestId request ticks arrivals)) := by
  rw [pollLoop]
  cases arrivals with
  | nil => exact pollRounds_takes requestId ticks [] _
  | cons arrival rest =>
      rw [arrivalStream_recv, recvResponse]
      cases decoded : arrival.decode with
      | error error => exact .unanswered [arrival] (unanswered_of_decode requestId decoded)
      | ok received =>
          cases received with
          | none => exact (pollRounds_takes requestId ticks rest _).cons
          | some response =>
              simp only
              split
              · rename_i outcome progress settled
                exact .settled decoded (terminalOutcome_settles settled)
              · exact (pollRounds_takes requestId ticks rest _).cons

/-- Each request takes a window of the arrivals and only a reply with its own identifier settles
it. -/
theorem perform_takes (call : Call) (requestId : String) (arrivals : List Arrival) :
    Takes requestId arrivals (call.perform requestId arrivals) := by
  cases call with
  | get sent clock =>
      rw [Call.perform]
      split_ifs
      · exact waitForId_takes requestId clock arrivals
      · exact .unanswered [] .transport
  | queued request sent ticks =>
      rw [Call.perform]
      split_ifs
      · exact pollLoop_takes requestId request ticks arrivals
      · exact .unanswered [] .transport

/-- This is a finished request with the arrivals that it took. -/
structure Entry where
  id : String
  window : List Arrival
  result : Except ClientError Json

/-- The requests of one connection run one after the other on one stream of arrivals. -/
inductive Session : ClientInner → List Call → List Arrival → List Entry → Prop where
  | done (inner : ClientInner) (arrivals : List Arrival) : Session inner [] arrivals []
  | next {inner : ClientInner} {call : Call} {calls : List Call} {window rest : List Arrival}
      {result : Except ClientError Json} {entries : List Entry}
      (performed : call.perform (nextId inner).1 (window ++ rest) = (result, rest))
      (later : Session (nextId inner).2 calls rest entries) :
      Session inner (call :: calls) (window ++ rest) (⟨(nextId inner).1, window, result⟩ :: entries)

/-- Every list of requests runs on every stream. -/
theorem exists_session (inner : ClientInner) (calls : List Call) (arrivals : List Arrival) :
    ∃ entries, Session inner calls arrivals entries := by
  induction calls generalizing inner arrivals with
  | nil => exact ⟨[], .done inner arrivals⟩
  | cons call calls ih =>
      obtain ⟨window, split, _⟩ := perform_takes call (nextId inner).1 arrivals
      obtain ⟨entries, later⟩ :=
        ih (nextId inner).2 (call.perform (nextId inner).1 arrivals).2
      refine ⟨⟨(nextId inner).1, window, (call.perform (nextId inner).1 arrivals).1⟩ :: entries, ?_⟩
      generalize performed : call.perform (nextId inner).1 arrivals = outcome at split later ⊢
      obtain ⟨result, rest⟩ := outcome
      subst split
      exact .next performed later

/-- The identifiers count up from the counter and wrap around at the machine word. -/
theorem session_ids {inner : ClientInner} (session : Session inner calls arrivals entries)
    (word : inner.counter < 2 ^ 64) : entries.map Entry.id =
      (List.range calls.length).map fun index => requestName ((inner.counter + index) % 2 ^ 64) := by
  induction session with
  | done inner arrivals => rfl
  | @next inner call calls window rest result entries performed later ih =>
      rw [List.map_cons, ih (Nat.mod_lt _ (by decide)), List.length_cons,
        List.range_succ_eq_map, List.map_cons, List.map_map, Nat.add_zero, Nat.mod_eq_of_lt word]
      simp only [nextId, List.cons.injEq, true_and]
      refine List.map_congr_left fun index _ => ?_
      simp only [Function.comp_apply, Nat.mod_add_mod]
      rw [show inner.counter + 1 + index = inner.counter + (index + 1) by omega]

theorem requestName_injective : Function.Injective requestName := by
  intro left right same
  simp only [requestName] at same
  have texts := congrArg String.toList same
  simp only [String.toList_append, List.append_cancel_left_eq, String.toList_inj] at texts
  exact Json.nat_repr_inj texts

/-- The windows follow one another on the stream, so no arrival is taken twice. -/
theorem session_windows {inner : ClientInner} (session : Session inner calls arrivals entries) :
    (entries.map Entry.window).flatten <+: arrivals := by
  induction session with
  | done inner arrivals => exact List.nil_prefix
  | @next inner call calls window rest result entries performed later ih =>
      rw [List.map_cons, List.flatten_cons]
      exact (List.prefix_append_right_inj window).mpr ih

theorem session_settled {inner : ClientInner} (session : Session inner calls arrivals entries) :
    ∀ entry ∈ entries, Unanswered entry.id entry.result ∨
      SettledBy entry.id entry.window entry.result := by
  induction session with
  | done inner arrivals => simp
  | @next inner call calls window rest result entries performed later ih =>
      intro entry member
      rcases List.mem_cons.mp member with rfl | behind
      · obtain ⟨taken, split, ended⟩ := perform_takes call (nextId inner).1 (window ++ rest)
        rw [performed] at split ended
        obtain rfl := List.append_cancel_right split
        exact ended
      · exact ih entry behind

/-- The first identifier of a connection is that of its probe. -/
def probeId : String := (nextId { counter := 0 }).1

theorem connection_ids (session : Session connected calls arrivals entries) :
    probeId :: entries.map Entry.id =
      (List.range (calls.length + 1)).map fun index => requestName (index % 2 ^ 64) := by
  have ids := session_ids session (by decide)
  rw [ids, List.range_succ_eq_map, List.map_cons, List.map_map]
  simp only [probeId, nextId, List.cons.injEq]
  refine ⟨rfl, List.map_congr_left fun index _ => ?_⟩
  simp only [connected, nextId, Function.comp_apply]
  rw [show (0 + 1) % 2 ^ 64 + index = index + 1 by omega]

theorem connection_nodup (session : Session connected calls arrivals entries)
    (bounded : calls.length < 2 ^ 64) : (probeId :: entries.map Entry.id).Nodup := by
  rw [connection_ids session]
  refine List.Nodup.map_on ?_ List.nodup_range
  intro left inLeft right inRight same
  have leftBound := List.mem_range.mp inLeft
  have rightBound := List.mem_range.mp inRight
  have words := requestName_injective same
  rw [Nat.mod_eq_of_lt (by omega), Nat.mod_eq_of_lt (by omega)] at words
  exact words

/-- The requests of a connection follow its handshake. -/
def Connection (clock : List Bool) (calls : List Call) (arrivals : List Arrival)
    (entries : List Entry) : Prop :=
  ∃ rest, handshake clock arrivals = (.ok (), rest) ∧ Session connected calls rest entries

/-- The handshake takes the first arrivals and leaves the others. -/
theorem handshake_window (clock : List Bool) (arrivals rest : List Arrival)
    (done : handshake clock arrivals = (.ok (), rest)) : ∃ window, arrivals = window ++ rest := by
  induction clock generalizing arrivals with
  | nil => cases done
  | cons expired clock ih =>
      rw [handshake, awaitCommandLine] at done
      split_ifs at done
      · cases done
      cases arrivals with
      | nil =>
          obtain rfl := (Prod.mk.inj done).2
          exact ⟨[], rfl⟩
      | cons arrival others =>
          rw [arrivalStream_recv, recvResponse] at done
          split at done
          · cases done
          · rename_i received
            obtain rfl := (Prod.mk.inj received).2
            obtain rfl := (Prod.mk.inj done).2
            exact ⟨[arrival], rfl⟩
          · rename_i received
            obtain rfl := (Prod.mk.inj received).2
            obtain rfl := (Prod.mk.inj done).2
            exact ⟨[arrival], rfl⟩
          · rename_i received
            obtain rfl := (Prod.mk.inj received).2
            obtain ⟨window, split⟩ := ih _ done
            exact ⟨arrival :: window, by rw [split, List.cons_append]⟩

/-- The counter wraps around, so that the last of so many requests reuses the first identifier. -/
theorem connection_reuses : ¬ ∀ clock calls arrivals entries,
    Connection clock calls arrivals entries → (probeId :: entries.map Entry.id).Nodup := by
  intro claim
  obtain ⟨entries, session⟩ :=
    exists_session connected (List.replicate (2 ^ 64) (.get false [])) []
  have distinct := claim [false] _ [] _ ⟨[], rfl, session⟩
  rw [connection_ids session, List.length_replicate] at distinct
  have first : 0 ∈ List.range (2 ^ 64 + 1) := List.mem_range.mpr (by omega)
  have last : 2 ^ 64 ∈ List.range (2 ^ 64 + 1) := List.mem_range.mpr (by omega)
  have same := List.inj_on_of_nodup_map distinct first last (by rw [Nat.zero_mod, Nat.mod_self])
  omega

/-- On a connection with fewer requests than a machine word counts no identifier is used twice, a
request is settled only by the last arrival of its own window and only with its own identifier, the
windows share no arrival, and no reply to an earlier request settles a later one. -/
theorem connection_settles (clock : List Bool) (calls : List Call) (arrivals : List Arrival)
    (entries : List Entry) (connection : Connection clock calls arrivals entries)
    (bounded : calls.length < 2 ^ 64) :
    (probeId :: entries.map Entry.id).Nodup ∧
    (∀ entry ∈ entries, Unanswered entry.id entry.result ∨
      SettledBy entry.id entry.window entry.result) ∧
    (∃ greeting, greeting ++ (entries.map Entry.window).flatten <+: arrivals) ∧
    ∀ before entry after, entries = before ++ entry :: after → ∀ response,
      response.id = some probeId ∨ (∃ earlier ∈ before, response.id = some earlier.id) →
        ¬ Settles entry.id response entry.result := by
  obtain ⟨rest, greeted, session⟩ := connection
  obtain ⟨greeting, window⟩ := handshake_window clock arrivals rest greeted
  have distinct := connection_nodup session bounded
  refine ⟨distinct, session_settled session, ⟨greeting, ?_⟩, ?_⟩
  · rw [window]
    exact (List.prefix_append_right_inj greeting).mpr (session_windows session)
  · intro before entry after split response foreign settles
    obtain ⟨fresh, apart⟩ := List.nodup_cons.mp distinct
    have own := settles.own
    rcases foreign with probe | ⟨earlier, member, same⟩
    · rw [own, Option.some.injEq] at probe
      refine fresh (List.mem_map.mpr ⟨entry, ?_, probe⟩)
      rw [split]
      simp
    · rw [own, Option.some.injEq] at same
      rw [split, List.map_append, List.map_cons] at apart
      exact (List.nodup_append.mp apart).2.2 earlier.id (List.mem_map_of_mem member) entry.id
        List.mem_cons_self same.symm

/-- This is the late reply to the first request. -/
def lateReply : Arrival :=
  .message (.obj [("res", .str "DATA"), ("id", .str "RQ.1"), ("data", .num 5)])

def ownReply : Arrival :=
  .message (.obj [("res", .str "DATA"), ("id", .str "RQ.2"), ("data", .num 7)])

/-- The first request times out, and its late reply does not settle the second. -/
theorem session_example : Session connected [.get true [false], .get true [false, false]]
    [.silent, lateReply, ownReply] [⟨"RQ.1", [.silent], .error .timeout⟩,
      ⟨"RQ.2", [lateReply, ownReply], .ok (.num 7)⟩] := by
  have first : (Call.get true [false]).perform (nextId connected).1
      ([.silent] ++ [lateReply, ownReply]) = (.error .timeout, [lateReply, ownReply]) := rfl
  have second : (Call.get true [false, false]).perform (nextId (nextId connected).2).1
      ([lateReply, ownReply] ++ []) = (.ok (.num 7), []) := rfl
  exact .next first (.next second (.done _ _))

theorem connection_settles_example : (probeId :: ["RQ.1", "RQ.2"]).Nodup ∧
    ¬ Settles "RQ.2" (.data "RQ.1" (.num 5)) (.ok (.num 7)) := by
  have settled := connection_settles [false] _
    [.message (.str "CMDLINEOFF"), .silent, lateReply, ownReply] _ ⟨_, rfl, session_example⟩
    (by decide)
  exact ⟨settled.1, settled.2.2.2 [_] _ [] rfl _ (.inr ⟨_, List.mem_cons_self, rfl⟩)⟩

end FramaCMcp.Client
