/-
This file shows that the requests on the bytes of a stream do what they do on the messages that the
stream carries.
-/

import FramaCMcp.Proof.Reassembly
import FramaCMcp.Proof.RequestReply

namespace FramaCMcp.Connection

open Wire Client Codec

theorem decodeBuffer_ok_poisoned {transport next : Transport} {payload : Option String}
    (decoded : decodeBuffer transport = some (.ok payload, next)) :
    next.poisoned = transport.poisoned := by
  unfold decodeBuffer at decoded
  split at decoded
  · obtain ⟨_, rfl⟩ := Prod.mk.inj (Option.some.inj decoded)
    rfl
  · cases decoded
  · cases decoded

/-- Only an error poisons the stream. -/
theorem readFrame_ok_poisoned (reads : List ReadOutcome) (transport : Transport)
    {payload : Option String} (fine : (readFrame reads transport).1 = .ok payload) :
    (readFrame reads transport).2.1.poisoned = transport.poisoned := by
  cases decoded : decodeBuffer transport with
  | some settled =>
      rw [readFrame_decoded reads decoded] at fine ⊢
      obtain ⟨result, next⟩ := settled
      cases fine
      exact decodeBuffer_ok_poisoned decoded
  | none =>
      cases reads with
      | nil =>
          rw [readFrame, decoded]
      | cons read rest =>
          rw [readFrame, decoded] at fine ⊢
          rcases read with (_ | ⟨byte, chunk⟩) | _ | _
          · cases fine
          · exact readFrame_ok_poisoned rest _ fine
          · cases fine
          · rfl

section Simulation

variable (parse : String → Option Json)

/-- One bounded read of the link gives an arrival. -/
def hear (link : Link) : Arrival × Link :=
  let (result, transport, reads) := recvFrame link.transport link.reads
  (arrivalOf parse result, { transport, reads })

/-- These arrivals are what the client hears until the stream is silent or poisoned. -/
inductive Delivers : Link → List Arrival → Prop where
  | poisoned {link : Link} (broken : link.transport.poisoned = true) (arrivals : List Arrival) :
      Delivers link arrivals
  | drained {link : Link} (waiting : decodeBuffer link.transport = none)
      (ended : link.reads = []) : Delivers link []
  | hears {link : Link} {rest : List Arrival} (later : Delivers (hear parse link).2 rest) :
      Delivers link ((hear parse link).1 :: rest)

/-- Both ends give one result, and what is left of the stream carries what is left to arrive. -/
structure Agrees {α : Type} (outcome : α × Link) (arrived : α × List Arrival) : Prop where
  result : outcome.1 = arrived.1
  later : Delivers parse outcome.2 arrived.2

variable {parse} {link : Link} {arrivals : List Arrival}

theorem recvResponse_agrees (healthy : link.transport.poisoned = false)
    (delivers : Delivers parse link arrivals) :
    Agrees parse ((linkStream parse).recv link) (arrivalStream.recv arrivals) := by
  cases delivers with
  | poisoned broken =>
      rw [healthy] at broken
      cases broken
  | drained waiting ended =>
      have silent : recvFrame link.transport link.reads = (.ok none, link.transport, []) := by
        rw [recvFrame, healthy, ended, if_neg (by decide), readFrame, waiting]
      show Agrees parse (recvResponse parse link) _
      rw [recvResponse, silent]
      exact ⟨rfl, .drained waiting rfl⟩
  | hears later => exact ⟨rfl, later⟩

/-- A read that is no error leaves the link as healthy as it was. -/
theorem healthy_of_recvResponse (healthy : link.transport.poisoned = false)
    {received : Option Response} (heard : ((linkStream parse).recv link).1 = .ok received) :
    ((linkStream parse).recv link).2.transport.poisoned = false := by
  change (recvResponse parse link).1 = .ok received at heard
  show (recvResponse parse link).2.transport.poisoned = false
  have kept := fun payload => @readFrame_ok_poisoned link.reads link.transport payload
  rw [recvResponse, recvFrame, healthy] at heard ⊢
  simp only [Bool.false_eq_true, if_false] at heard ⊢
  generalize readFrame link.reads link.transport = outcome at kept heard ⊢
  obtain ⟨error | payload, next, rest⟩ := outcome
  · cases heard
  · exact (kept payload rfl).trans healthy

/-- The read of the link and the arrival go on with one result. -/
theorem exists_recvResponse (healthy : link.transport.poisoned = false)
    (delivers : Delivers parse link arrivals) : ∃ result next rest,
      (linkStream parse).recv link = (result, next) ∧ arrivalStream.recv arrivals = (result, rest) ∧
        Delivers parse next rest ∧
          ∀ received, result = .ok received → next.transport.poisoned = false := by
  obtain ⟨same, later⟩ := recvResponse_agrees healthy delivers
  exact ⟨_, _, _, rfl, Prod.ext same.symm rfl, later, fun _ => healthy_of_recvResponse healthy⟩

/-- A write that runs to completion changes nothing. -/
theorem sendCommand_written (healthy : link.transport.poisoned = false) :
    sendCommand link .written = (true, link) := by
  rw [sendCommand, sendFrame, healthy]
  rfl

/-- A write that does not run to completion poisons the link. -/
theorem sendCommand_unwritten (link : Link) {write : WriteOutcome} (unwritten : write ≠ .written) :
    ∃ next : Link, sendCommand link write = (false, next) ∧ next.transport.poisoned = true := by
  cases healthy : link.transport.poisoned with
  | true => exact ⟨link, by simp [sendCommand, sendFrame, healthy], healthy⟩
  | false =>
      cases write with
      | written => exact absurd rfl unwritten
      | failed => exact ⟨_, by simp [sendCommand, sendFrame, healthy]; rfl, rfl⟩
      | timedOut => exact ⟨_, by simp [sendCommand, sendFrame, healthy]; rfl, rfl⟩

theorem sendCommand_poisoned (broken : link.transport.poisoned = true) (write : WriteOutcome) :
    sendCommand link write = (false, link) := by
  simp [sendCommand, sendFrame, broken]

theorem waitForId_agrees (requestId : String) (clock : List Bool)
    (healthy : link.transport.poisoned = false) (delivers : Delivers parse link arrivals) :
    Agrees parse (waitForId (linkStream parse) requestId clock link)
      (waitForId arrivalStream requestId clock arrivals) := by
  induction clock generalizing link arrivals with
  | nil => exact ⟨rfl, delivers⟩
  | cons expired clock ih =>
      simp only [waitForId]
      split_ifs
      · exact ⟨rfl, delivers⟩
      obtain ⟨result, next, rest, heard, arrived, later, kept⟩ :=
        exists_recvResponse healthy delivers
      rw [heard, arrived]
      rcases result with error | _ | response
      · exact ⟨rfl, later⟩
      · exact ⟨rfl, later⟩
      · dsimp only
        cases settleGet requestId response with
        | some settled => exact ⟨rfl, later⟩
        | none => exact ih (kept _ rfl) later

/-- A write that runs to completion sends its command. -/
def Round.tick (round : Round) : Tick where
  expired := round.expired
  sent := round.write = .written

theorem linkStream_send (round : Round) (link : Link) :
    (linkStream parse).send round link = sendCommand link round.write := rfl

/-- Both streams send the command, or the stream of the client is poisoned. -/
theorem send_agrees (round : Round) (healthy : link.transport.poisoned = false) :
    (linkStream parse).send round link = (true, link) ∧
        arrivalStream.send round.tick arrivals = (true, arrivals) ∨
      ∃ next : Link, (linkStream parse).send round link = (false, next) ∧
        arrivalStream.send round.tick arrivals = (false, arrivals) ∧
          next.transport.poisoned = true := by
  rw [linkStream_send, arrivalStream_send, Round.tick]
  by_cases written : round.write = .written
  · exact .inl ⟨by rw [written, sendCommand_written healthy], by rw [decide_eq_true written]⟩
  · obtain ⟨next, sends, broken⟩ := sendCommand_unwritten link written
    exact .inr ⟨next, sends, by rw [decide_eq_false written], broken⟩

theorem killAtDeadline_agrees (requestId : String) (round : Round)
    (diagnostics : RequestDiagnostics) (healthy : link.transport.poisoned = false)
    (delivers : Delivers parse link arrivals) :
    Agrees parse (killAtDeadline (linkStream parse) requestId round link diagnostics)
      (killAtDeadline arrivalStream requestId round.tick arrivals diagnostics) := by
  simp only [killAtDeadline]
  rcases @send_agrees parse link arrivals round healthy with
    ⟨sends, sent⟩ | ⟨next, sends, sent, broken⟩
  · have agrees := recvResponse_agrees healthy delivers
    rw [sends, sent]
    exact ⟨by dsimp only; rw [agrees.result], agrees.later⟩
  · rw [sends, sent]
    exact ⟨rfl, .poisoned broken _⟩

theorem pollRounds_agrees (requestId : String) (rounds : List Round)
    (diagnostics : RequestDiagnostics) (healthy : link.transport.poisoned = false)
    (delivers : Delivers parse link arrivals) :
    Agrees parse (pollRounds (linkStream parse) requestId rounds link diagnostics)
      (pollRounds arrivalStream requestId (rounds.map Round.tick) arrivals diagnostics) := by
  induction rounds generalizing link arrivals diagnostics with
  | nil => exact killAtDeadline_agrees requestId ⟨false, .written⟩ diagnostics healthy delivers
  | cons round rounds ih =>
      rw [List.map_cons]
      simp only [pollRounds]
      have clock : arrivalStream.expired round.tick = (linkStream parse).expired round := rfl
      rw [clock]
      split_ifs
      · exact killAtDeadline_agrees requestId round diagnostics healthy delivers
      rcases @send_agrees parse link arrivals round healthy with
        ⟨sends, sent⟩ | ⟨next, sends, sent, broken⟩
      · rw [sends, sent]
        dsimp only
        obtain ⟨result, next, rest, heard, arrived, later, kept⟩ :=
          exists_recvResponse healthy delivers
        rw [heard, arrived]
        rcases result with error | _ | response
        · exact ⟨rfl, later⟩
        · exact ih diagnostics (kept _ rfl) later
        · dsimp only
          generalize terminalOutcome response requestId diagnostics = settled
          obtain ⟨_ | outcome, progress⟩ := settled
          · exact ih progress (kept _ rfl) later
          · exact ⟨rfl, later⟩
      · rw [sends, sent]
        exact ⟨rfl, .poisoned broken _⟩

theorem pollLoop_agrees (requestId request : String) (rounds : List Round)
    (healthy : link.transport.poisoned = false) (delivers : Delivers parse link arrivals) :
    Agrees parse (pollLoop (linkStream parse) requestId request rounds link)
      (pollLoop arrivalStream requestId request (rounds.map Round.tick) arrivals) := by
  obtain ⟨result, next, rest, heard, arrived, later, kept⟩ := exists_recvResponse healthy delivers
  simp only [pollLoop]
  rw [heard, arrived]
  rcases result with error | _ | response
  · exact ⟨rfl, later⟩
  · exact pollRounds_agrees requestId rounds _ (kept _ rfl) later
  · dsimp only
    generalize terminalOutcome response requestId _ = settled
    obtain ⟨_ | outcome, progress⟩ := settled
    · exact pollRounds_agrees requestId rounds progress (kept _ rfl) later
    · exact ⟨rfl, later⟩

/-- This is the call that the client makes where the link is healthy, and where it is poisoned. -/
def Request.call (request : Request) (healthy : Bool) : Call :=
  match request with
  | .get write clock => .get (healthy && write = .written) clock
  | .queued name write rounds =>
      .queued name (healthy && write = .written) (rounds.map Round.tick)

theorem perform_agrees (request : Request) (requestId : String)
    (delivers : Delivers parse link arrivals) :
    Agrees parse (request.perform parse requestId link)
      ((request.call !link.transport.poisoned).perform requestId arrivals) := by
  cases broken : link.transport.poisoned with
  | true =>
      cases request <;>
        simp only [Request.perform, Request.call, Call.perform, sendCommand_poisoned broken,
          Bool.not_true, Bool.false_and, Bool.false_eq_true, if_false] <;>
        exact ⟨rfl, delivers⟩
  | false =>
      cases request with
      | get write clock =>
          by_cases written : write = .written
          · subst written
            simpa [Request.perform, Request.call, Call.perform, sendCommand_written broken]
              using waitForId_agrees requestId clock broken delivers
          · obtain ⟨next, sends, poisoned⟩ := sendCommand_unwritten link written
            simp only [Request.perform, Request.call, Call.perform, sends, written, decide_false,
              Bool.and_false, Bool.false_eq_true, if_false]
            exact ⟨rfl, .poisoned poisoned _⟩
      | queued name write rounds =>
          by_cases written : write = .written
          · subst written
            have agrees := pollLoop_agrees requestId name rounds broken delivers
            simp only [Request.perform, Request.call, Call.perform, sendCommand_written broken,
              Bool.not_false, Bool.true_and, decide_true, if_true]
            exact ⟨by rw [agrees.result], agrees.later⟩
          · obtain ⟨next, sends, poisoned⟩ := sendCommand_unwritten link written
            simp only [Request.perform, Request.call, Call.perform, sends, written, decide_false,
              Bool.and_false, Bool.false_eq_true, if_false]
            exact ⟨rfl, .poisoned poisoned _⟩

end Simulation

section Payloads

variable {parse : String → Option Json}

def spoken (parse : String → Option Json) (payload : String) : Arrival :=
  arrivalOf parse (.ok (some payload))

def loud : Arrival → Bool
  | .message _ => true
  | .notJson => true
  | .silent => false
  | .broken => false

theorem loud_spoken (payload : String) : loud (spoken parse payload) = true := by
  rw [spoken, arrivalOf]
  cases parse payload <;> rfl

/-- No further byte is read from the stream. -/
structure Quiet (link : Link) : Prop where
  healthy : link.transport.poisoned = false
  empty : link.transport.readBuf = []
  ended : ∀ read ∈ link.reads, read.data = []

theorem Quiet.waiting {link : Link} (quiet : Quiet link) : decodeBuffer link.transport = none := by
  rw [decodeBuffer, quiet.empty]
  rfl

/-- A quiet stream stays silent or ends. -/
theorem Quiet.hear (parse : String → Option Json) {link : Link} (quiet : Quiet link) :
    loud (hear parse link).1 = false ∧
    ((hear parse link).2.transport.poisoned = true ∨
      Quiet (hear parse link).2 ∧ (hear parse link).2.reads = link.reads.tail) := by
  obtain ⟨transport, reads⟩ := link
  have received : recvFrame transport reads = readFrame reads transport := by
    rw [recvFrame, if_neg (ne_true_of_eq_false quiet.healthy)]
  simp only [Connection.hear, received]
  cases reads with
  | nil =>
      rw [readFrame, quiet.waiting]
      exact ⟨rfl, .inr ⟨⟨quiet.healthy, quiet.empty, quiet.ended⟩, rfl⟩⟩
  | cons read rest =>
      have none := quiet.ended read List.mem_cons_self
      rw [readFrame, quiet.waiting]
      rcases read with (_ | ⟨byte, chunk⟩) | _ | _
      · exact ⟨rfl, .inl rfl⟩
      · cases none
      · exact ⟨rfl, .inl rfl⟩
      · exact ⟨rfl, .inr ⟨⟨quiet.healthy, quiet.empty, fun read member =>
          quiet.ended read (List.mem_cons_of_mem _ member)⟩, rfl⟩⟩

theorem Quiet.delivers (parse : String → Option Json) {link : Link} (quiet : Quiet link) :
    ∃ arrivals, Delivers parse link arrivals ∧ arrivals.filter loud = [] := by
  induction size : link.reads.length generalizing link with
  | zero => exact ⟨[], .drained quiet.waiting (List.eq_nil_of_length_eq_zero size), rfl⟩
  | succ size ih =>
      obtain ⟨silent, next⟩ := quiet.hear parse
      obtain ⟨arrivals, later, none⟩ : ∃ arrivals, Delivers parse (Connection.hear parse link).2
          arrivals ∧ arrivals.filter loud = [] := by
        rcases next with broken | ⟨again, fewer⟩
        · exact ⟨[], .poisoned broken [], rfl⟩
        · exact ih again (by rw [fewer, List.length_tail, size, Nat.add_sub_cancel])
      exact ⟨_, .hears later, by rw [List.filter_cons_of_neg (by simp [silent]), none]⟩

/-- A stream of payloads delivers them in order. -/
theorem delivers_payloads (parse : String → Option Json) {transport : Transport}
    {reads ending : List ReadOutcome} {payloads : List String}
    (carries : Carries transport reads payloads)
    (ended : ∀ read ∈ ending, read.data = []) :
    ∃ arrivals, Delivers parse ⟨transport, reads ++ ending⟩ arrivals ∧
      arrivals.filter loud = payloads.map (spoken parse) := by
  induction size : payloads.length + timeouts reads using Nat.strong_induction_on
    generalizing transport reads payloads with
  | _ size ih =>
      have receives := recvFrame_receives reads ending payloads transport carries
      generalize outcome : recvFrame transport (reads ++ ending) = result at receives
      have heard : hear parse ⟨transport, reads ++ ending⟩ =
          (arrivalOf parse result.1, ⟨result.2.1, result.2.2⟩) := by
        rw [hear, outcome]
      have first : ∀ arrivals, Delivers parse ⟨result.2.1, result.2.2⟩ arrivals →
          Delivers parse ⟨transport, reads ++ ending⟩ (arrivalOf parse result.1 :: arrivals) := by
        intro arrivals later
        have after : Delivers parse (hear parse ⟨transport, reads ++ ending⟩).2 arrivals := by
          rwa [heard]
        have delivers := Delivers.hears after
        rwa [heard] at delivers
      cases receives with
      | @yields payload rest next remaining same later fewer =>
          subst same
          obtain ⟨arrivals, delivers, texts⟩ := ih _ (by
            rw [← size, List.length_cons]
            omega) later rfl
          refine ⟨_, first arrivals delivers, ?_⟩
          rw [List.map_cons, ← texts]
          exact List.filter_cons_of_pos (loud_spoken payload)
      | @times next remaining later fewer =>
          obtain ⟨arrivals, delivers, texts⟩ := ih _ (by omega) later rfl
          exact ⟨_, first arrivals delivers, texts⟩
      | @drained next last later =>
          subst last
          have quiet : Quiet ⟨next, ending⟩ := {
            healthy := later.healthy
            empty := by simpa using later.stream
            ended }
          have same : hear parse ⟨next, ending⟩ = (arrivalOf parse (readFrame ending next).1,
              ⟨(readFrame ending next).2.1, (readFrame ending next).2.2⟩) := by
            rw [hear, recvFrame, if_neg (ne_true_of_eq_false later.healthy)]
          obtain ⟨silent, after⟩ := quiet.hear parse
          rw [same] at silent after
          obtain ⟨arrivals, delivers, none⟩ : ∃ arrivals, Delivers parse
              ⟨(readFrame ending next).2.1, (readFrame ending next).2.2⟩ arrivals ∧
                arrivals.filter loud = [] := by
            rcases after with broken | ⟨again, _⟩
            · exact ⟨[], .poisoned broken [], rfl⟩
            · exact again.delivers parse
          refine ⟨_, first arrivals delivers, ?_⟩
          rw [List.filter_cons_of_neg (by simpa using silent), none, List.map_nil]

/-- The requests do on the stream what their calls do on the arrivals. -/
theorem perform_session (requests : List Request) (inner : ClientInner) {link : Link}
    {arrivals : List Arrival} (delivers : Delivers parse link arrivals) :
    ∃ calls entries, calls.length = requests.length ∧ Session inner calls arrivals entries ∧
      perform parse requests inner link = entries.map fun entry => (entry.id, entry.result) := by
  induction requests generalizing inner link arrivals with
  | nil => exact ⟨[], [], rfl, .done inner arrivals, rfl⟩
  | cons request requests ih =>
      have agrees := perform_agrees request (nextId inner).1 delivers
      obtain ⟨window, split, _⟩ := perform_takes
        (request.call !link.transport.poisoned) (nextId inner).1 arrivals
      generalize performed : (request.call !link.transport.poisoned).perform (nextId inner).1
        arrivals = outcome at agrees split
      obtain ⟨result, rest⟩ := outcome
      obtain ⟨calls, entries, same, later, results⟩ := ih (nextId inner).2 agrees.later
      subst split
      refine ⟨_ :: calls, _ :: entries, congrArg Nat.succ same, .next performed later, ?_⟩
      have own : (request.perform parse (nextId inner).1 link).1 = result := agrees.result
      rw [List.map_cons, ← results, ← own]
      rfl

theorem awaitCommandLine_agrees (clock : List Bool) {link : Link} {arrivals : List Arrival}
    (healthy : link.transport.poisoned = false) (delivers : Delivers parse link arrivals) :
    Agrees parse (awaitCommandLine (linkStream parse) clock link)
      (Client.handshake clock arrivals) := by
  rw [Client.handshake]
  induction clock generalizing link arrivals with
  | nil => exact ⟨rfl, delivers⟩
  | cons expired clock ih =>
      simp only [awaitCommandLine]
      split_ifs
      · exact ⟨rfl, delivers⟩
      obtain ⟨result, next, rest, heard, arrived, later, kept⟩ :=
        exists_recvResponse healthy delivers
      rw [heard, arrived]
      rcases result with error | _ | response
      · exact ⟨rfl, later⟩
      · exact ⟨rfl, later⟩
      · cases response with
        | cmdLineOff => exact ⟨rfl, later⟩
        | data id data => exact ih (kept _ rfl) later
        | error id msg => exact ih (kept _ rfl) later
        | signal id => exact ih (kept _ rfl) later
        | rejected id => exact ih (kept _ rfl) later
        | killed id => exact ih (kept _ rfl) later
        | cmdLineOn => exact ih (kept _ rfl) later

/-- On the bytes of a whole connection no identifier is used twice, a request is settled only by a
payload of its own that carries its identifier, and the payloads are taken in their order, each at
most once. -/
theorem perform_settles (parse : String → Option Json) (write : WriteOutcome)
    (clock : List Bool) (requests : List Request) {reads ending : List ReadOutcome}
    {payloads : List String} {link : Link} (carries : Carries Wire.connect reads payloads)
    (ended : ∀ read ∈ ending, read.data = [])
    (greeted : handshake parse write clock ⟨Wire.connect, reads ++ ending⟩ = (.ok (), link))
    (bounded : requests.length < 2 ^ 64) :
    ∃ greeting, ∃ entries : List Entry,
      perform parse requests connected link =
        entries.map (fun entry => (entry.id, entry.result)) ∧
      (probeId :: entries.map Entry.id).Nodup ∧
      (greeting ++ (entries.map Entry.window).flatten).filter loud <+:
        payloads.map (spoken parse) ∧
      ∀ entry ∈ entries, Unanswered entry.id entry.result ∨
        SettledBy entry.id entry.window entry.result := by
  obtain ⟨arrivals, delivers, texts⟩ := delivers_payloads parse carries ended
  have written : write = .written := by
    by_contra unwritten
    obtain ⟨next, sends, _⟩ := sendCommand_unwritten
      ⟨Wire.connect, reads ++ ending⟩ unwritten
    rw [handshake, sends] at greeted
    cases greeted
  subst written
  rw [handshake, sendCommand_written rfl] at greeted
  have agrees := awaitCommandLine_agrees clock (rfl : Wire.connect.poisoned = false) delivers
  dsimp only at greeted
  rw [greeted] at agrees
  obtain ⟨result, later⟩ := agrees
  generalize arrived : Client.handshake clock arrivals = outcome at result later
  obtain ⟨done, rest⟩ := outcome
  subst result
  obtain ⟨greeting, window⟩ := handshake_window clock arrivals rest arrived
  obtain ⟨calls, entries, same, session, results⟩ := perform_session requests connected later
  refine ⟨greeting, entries, results, connection_nodup session (same ▸ bounded), ?_,
    session_settled session⟩
  rw [← texts, window]
  exact ((List.prefix_append_right_inj greeting).mpr (session_windows session)).filter loud

end Payloads

section Answers

variable (parse : String → Option Json)

/-- The server sends some other responses and then the reply to a request. The deadline of the
request leaves time to read them, and a queued request bears some silent reads on the way. -/
structure Exchange where
  queued : Option String
  noise : List String
  reply : String
  value : Json
  clock : List Bool
  patience : Nat
  rounds : List Round

def Exchange.texts (exchange : Exchange) : List String := exchange.noise ++ [exchange.reply]

/-- A queued request has read once before its first round. -/
def Exchange.request (exchange : Exchange) : Request :=
  match exchange.queued with
  | none => .get .written (List.replicate (exchange.noise.length + 1) false ++ exchange.clock)
  | some name =>
      .queued name .written
        (List.replicate (exchange.noise.length + exchange.patience) ⟨false, .written⟩ ++
          exchange.rounds)

/-- The stream is silent so often before some number of payloads. -/
def pauses : Nat → List Arrival → Nat
  | 0, _ => 0
  | _ + 1, [] => 0
  | count + 1, arrival :: rest =>
      if loud arrival then pauses count rest else pauses (count + 1) rest + 1

/-- These arrivals follow some number of payloads. -/
def afterLoud : Nat → List Arrival → List Arrival
  | 0, arrivals => arrivals
  | _ + 1, [] => []
  | count + 1, arrival :: rest =>
      if loud arrival then afterLoud count rest else afterLoud (count + 1) rest

/-- A silent read ends a GET at once, and costs a queued request one round. -/
def InTime : List Exchange → List Arrival → Prop
  | [], _ => True
  | exchange :: exchanges, arrivals =>
      pauses exchange.texts.length arrivals ≤
          (if exchange.queued.isSome then exchange.patience else 0) ∧
        InTime exchanges (afterLoud exchange.texts.length arrivals)

/-- A response is noise for a request where it signals or carries another identifier. -/
def Noise (requestId : String) (response : Response) : Prop :=
  response.id ≠ some requestId ∨ ∃ id, response = .signal id

def Skips (requestId : String) (noise : List String) : Prop :=
  ∀ text ∈ noise, ∃ response, (spoken parse text).decode = .ok (some response) ∧
    Noise requestId response

structure Exchange.Answers (exchange : Exchange) (requestId : String) : Prop where
  noise : Skips parse requestId exchange.noise
  reply : (spoken parse exchange.reply).decode = .ok (some (.data requestId exchange.value))

/-- The replies answer the requests one after the other. -/
def Answered : ClientInner → List Exchange → Prop
  | _, [] => True
  | inner, exchange :: exchanges =>
      exchange.Answers parse (nextId inner).1 ∧ Answered (nextId inner).2 exchanges

variable {parse}

theorem Noise.settleGet {requestId : String} {response : Response}
    (noise : Noise requestId response) : settleGet requestId response = none := by
  rcases noise with other | ⟨id, rfl⟩
  · cases response <;> simp_all [Response.id, Client.settleGet]
  · rfl

theorem Noise.terminalOutcome {requestId : String} {response : Response}
    (noise : Noise requestId response) (diagnostics : RequestDiagnostics) :
    (terminalOutcome response requestId diagnostics).1 = none := by
  rcases noise with other | ⟨id, rfl⟩
  · cases response <;> simp_all [Response.id, Client.terminalOutcome]
  · rfl

variable (parse) in
/-- The link carries these payloads, and the client hears them as these arrivals. -/
structure Holds (link : Link) (payloads : List String) (arrivals : List Arrival) : Prop where
  carries : Carries link.transport link.reads payloads
  heard : Delivers parse link arrivals

/-- The next read is silent or gives the next payload. -/
theorem Holds.recv {link : Link} {payload : String} {payloads : List String}
    {arrivals : List Arrival} (holds : Holds parse link (payload :: payloads) arrivals) :
    ∃ next rest, arrivals = .silent :: rest ∧ (linkStream parse).recv link = (.ok none, next) ∧
        Holds parse next (payload :: payloads) rest ∨
      arrivals = spoken parse payload :: rest ∧
        (linkStream parse).recv link = ((spoken parse payload).decode, next) ∧
        Holds parse next payloads rest := by
  have receives := recvFrame_receives link.reads [] _ link.transport holds.carries
  rw [List.append_nil] at receives
  cases holds.heard with
  | poisoned broken =>
      rw [holds.carries.healthy] at broken
      cases broken
  | drained waiting ended =>
      have silent : recvFrame link.transport link.reads = (.ok none, link.transport, []) := by
        rw [recvFrame, holds.carries.healthy, ended, if_neg (by decide), readFrame, waiting]
      rw [silent, ended] at receives
      generalize outcome : (Except.ok none, link.transport, ([] : List ReadOutcome)) = result
        at receives
      cases receives with
      | yields => cases outcome
      | times carries fewer => cases fewer
      | drained last => cases last
  | @hears link rest later =>
      refine ⟨(hear parse link).2, rest, ?_⟩
      show _ ∧ recvResponse parse link = _ ∧ _ ∨ _ ∧ recvResponse parse link = _ ∧ _
      generalize outcome : recvFrame link.transport link.reads = result at receives
      rw [recvResponse]
      rw [hear, outcome] at later ⊢
      cases receives with
      | yields same carries =>
          obtain ⟨rfl, rfl⟩ := List.cons.inj same
          exact .inr ⟨rfl, rfl, by simpa using carries, later⟩
      | times carries => exact .inl ⟨rfl, rfl, by simpa using carries, later⟩
      | drained last => cases last

/-- A round that is in time writes its command and reads once. -/
theorem pollRounds_written {link : Link} (healthy : link.transport.poisoned = false)
    (requestId : String) (rounds : List Round) (diagnostics : RequestDiagnostics) :
    pollRounds (linkStream parse) requestId (⟨false, .written⟩ :: rounds) link diagnostics =
      match (linkStream parse).recv link with
      | (.error error, next) => (.error error, next)
      | (.ok none, next) => pollRounds (linkStream parse) requestId rounds next diagnostics
      | (.ok (some response), next) =>
          match terminalOutcome response requestId diagnostics with
          | (some outcome, _) => (outcome, next)
          | (none, progress) => pollRounds (linkStream parse) requestId rounds next progress := by
  have clock : (linkStream parse).expired ⟨false, .written⟩ = false := rfl
  rw [Client.pollRounds, clock, if_neg Bool.false_ne_true, linkStream_send,
    sendCommand_written healthy]
  dsimp only
  generalize (linkStream parse).recv link = heard
  obtain ⟨error | _ | response, next⟩ := heard
  · rfl
  · rfl
  · cases settled : terminalOutcome response requestId diagnostics with
    | mk outcome progress => cases outcome <;> simp only [settled]

/-- A queued request reads once before its first round. -/
theorem pollLoop_eq {link : Link} (healthy : link.transport.poisoned = false)
    (requestId request : String) (rounds : List Round) :
    pollLoop (linkStream parse) requestId request rounds link =
      pollRounds (linkStream parse) requestId (⟨false, .written⟩ :: rounds) link
        ⟨requestId, request, none, 0, none, none, none⟩ := by
  rw [pollRounds_written healthy, pollLoop]
  generalize (linkStream parse).recv link = heard
  obtain ⟨error | _ | response, next⟩ := heard
  · rfl
  · rfl
  · cases settled : terminalOutcome response requestId
      ⟨requestId, request, none, 0, none, none, none⟩ with
    | mk outcome progress => cases outcome <;> simp only [settled]

section Reply

variable {requestId : String} {value : Json} {reply : String} {payloads : List String}
  (answer : (spoken parse reply).decode = .ok (some (.data requestId value)))

include answer

theorem Holds.waitForId (noise : List String) (clock : List Bool) {link : Link}
    {arrivals : List Arrival} (holds : Holds parse link (noise ++ reply :: payloads) arrivals)
    (skipped : Skips parse requestId noise) (prompt : pauses (noise.length + 1) arrivals = 0) :
    ∃ next, waitForId (linkStream parse) requestId
        (List.replicate (noise.length + 1) false ++ clock) link = (.ok value, next) ∧
      Holds parse next payloads (afterLoud (noise.length + 1) arrivals) := by
  induction noise generalizing link arrivals with
  | nil =>
      obtain ⟨next, rest, ⟨rfl, heard, later⟩ | ⟨rfl, heard, later⟩⟩ := holds.recv
      · cases prompt
      · refine ⟨next, ?_, by simpa [afterLoud, loud_spoken] using later⟩
        simp [Client.waitForId, heard, answer, Client.settleGet]
  | cons text noise ih =>
      obtain ⟨response, decoded, other⟩ := skipped text List.mem_cons_self
      obtain ⟨next, rest, ⟨rfl, heard, later⟩ | ⟨rfl, heard, later⟩⟩ := holds.recv
      · cases prompt
      · rw [List.length_cons, pauses, if_pos (loud_spoken text)] at prompt
        rw [List.length_cons, List.replicate_succ, List.cons_append, Client.waitForId,
          if_neg Bool.false_ne_true, heard, decoded, afterLoud, if_pos (loud_spoken text)]
        simp only [other.settleGet]
        exact ih later (fun text member => skipped text (List.mem_cons_of_mem _ member)) prompt

theorem Holds.pollRounds (noise : List String) (patience : Nat) (rounds : List Round)
    (diagnostics : RequestDiagnostics) {link : Link} {arrivals : List Arrival}
    (holds : Holds parse link (noise ++ reply :: payloads) arrivals)
    (skipped : Skips parse requestId noise)
    (inTime : pauses (noise.length + 1) arrivals ≤ patience) : ∃ result next,
      pollRounds (linkStream parse) requestId
          (List.replicate (noise.length + 1 + patience) ⟨false, .written⟩ ++ rounds) link
          diagnostics = (result, next) ∧ result.map ExecResult.data = .ok value ∧
        Holds parse next payloads (afterLoud (noise.length + 1) arrivals) := by
  induction arrivals generalizing link noise patience diagnostics with
  | nil =>
      cases noise with
      | nil => obtain ⟨_, _, ⟨none, _⟩ | ⟨none, _⟩⟩ := holds.recv <;> cases none
      | cons => obtain ⟨_, _, ⟨none, _⟩ | ⟨none, _⟩⟩ := holds.recv <;> cases none
  | cons arrival rest ih =>
      obtain ⟨payload, others, split⟩ : ∃ payload others,
          noise ++ reply :: payloads = payload :: others := by
        cases noise <;> exact ⟨_, _, rfl⟩
      have healthy := holds.carries.healthy
      rcases (split ▸ holds).recv with
        ⟨next, later, ⟨same, heard, silent⟩ | ⟨same, heard, spoke⟩⟩
      · obtain ⟨rfl, rfl⟩ := List.cons.inj same
        rw [pauses, if_neg (by decide)] at inTime
        obtain ⟨fewer, rfl⟩ := Nat.exists_eq_add_of_lt inTime
        obtain ⟨result, last, polled, data, after⟩ := ih noise
          (pauses (noise.length + 1) rest + fewer) diagnostics (split ▸ silent) skipped
          (Nat.le_add_right _ _)
        refine ⟨result, last, ?_, data, by rwa [afterLoud, if_neg (by decide)]⟩
        rw [← polled, ← Nat.add_assoc, List.replicate_succ, List.cons_append,
          pollRounds_written healthy, heard]
      · obtain ⟨rfl, rfl⟩ := List.cons.inj same
        cases noise with
        | nil =>
            obtain ⟨rfl, rfl⟩ := List.cons.inj split
            rw [List.length_nil, Nat.zero_add, Nat.add_comm, List.replicate_succ, List.cons_append,
              pollRounds_written healthy, heard, answer]
            simp [Client.terminalOutcome, Except.map, afterLoud, loud_spoken, spoke]
        | cons text noise =>
            obtain ⟨rfl, rfl⟩ := List.cons.inj split
            obtain ⟨response, decoded, other⟩ := skipped text List.mem_cons_self
            have none := other.terminalOutcome diagnostics
            rw [List.length_cons, pauses, if_pos (loud_spoken text)] at inTime
            rw [List.length_cons, Nat.add_right_comm, List.replicate_succ, List.cons_append,
              pollRounds_written healthy, heard, decoded, afterLoud,
              if_pos (loud_spoken text)]
            dsimp only
            generalize Client.terminalOutcome response requestId diagnostics = settled at none ⊢
            obtain ⟨outcome, progress⟩ := settled
            subst none
            exact ih noise patience progress spoke
              (fun text member => skipped text (List.mem_cons_of_mem _ member)) inTime

end Reply

theorem Holds.perform {exchange : Exchange} {requestId : String} {payloads : List String}
    {link : Link} {arrivals : List Arrival}
    (holds : Holds parse link (exchange.texts ++ payloads) arrivals)
    (answers : exchange.Answers parse requestId)
    (inTime : pauses exchange.texts.length arrivals ≤
      (if exchange.queued.isSome then exchange.patience else 0)) : ∃ next,
      exchange.request.perform parse requestId link = (.ok exchange.value, next) ∧
        Holds parse next payloads (afterLoud exchange.texts.length arrivals) := by
  have healthy := holds.carries.healthy
  have written := sendCommand_written healthy
  have length : exchange.texts.length = exchange.noise.length + 1 := by simp [Exchange.texts]
  rw [length] at inTime ⊢
  rw [Exchange.texts, List.append_assoc, List.singleton_append] at holds
  rw [Exchange.request]
  cases queued : exchange.queued with
  | none =>
      rw [queued] at inTime
      obtain ⟨next, waits, later⟩ := holds.waitForId answers.reply exchange.noise
        exchange.clock answers.noise (Nat.le_zero.mp inTime)
      refine ⟨next, ?_, later⟩
      simp only [Request.perform, written, waits]
  | some name =>
      rw [queued] at inTime
      obtain ⟨result, next, polls, data, later⟩ := holds.pollRounds answers.reply exchange.noise
        exchange.patience exchange.rounds ⟨requestId, name, none, 0, none, none, none⟩ answers.noise
        inTime
      rw [Nat.add_right_comm, List.replicate_succ, List.cons_append, ← pollLoop_eq healthy] at polls
      refine ⟨next, ?_, later⟩
      simp only [Request.perform, written, polls, data]

/-- However the stream is cut into reads, each request gives the value of its own reply, where its
deadline leaves time for the silent reads that it meets. -/
theorem perform_answered (inner : ClientInner) (exchanges : List Exchange)
    (answered : Answered parse inner exchanges) {transport : Transport}
    {reads : List ReadOutcome} {arrivals : List Arrival}
    (carries : Carries transport reads (exchanges.flatMap Exchange.texts))
    (heard : Delivers parse ⟨transport, reads⟩ arrivals) (inTime : InTime exchanges arrivals) :
    (perform parse (exchanges.map Exchange.request) inner ⟨transport, reads⟩).map Prod.snd =
      exchanges.map fun exchange => .ok exchange.value := by
  have holds : Holds parse ⟨transport, reads⟩ (exchanges.flatMap Exchange.texts) arrivals :=
    ⟨carries, heard⟩
  generalize (⟨transport, reads⟩ : Link) = link at holds ⊢
  clear carries heard
  induction exchanges generalizing inner link arrivals with
  | nil => rfl
  | cons exchange exchanges ih =>
      obtain ⟨answers, others⟩ := answered
      obtain ⟨own, rest⟩ := inTime
      obtain ⟨next, performed, later⟩ := holds.perform answers own
      rw [List.map_cons, perform]
      simp only [performed, List.map_cons, ih _ others rest _ later]

/-- The server announces the task of the request before it answers it. -/
def signalText : String := "\x7b\"id\":\"RQ.1\",\"res\":\"SIGNAL\"\x7d"

def dataText : String := "\x7b\"data\":7,\"id\":\"RQ.1\",\"res\":\"DATA\"\x7d"

def parseExample (text : String) : Option Json :=
  if text = signalText then some (.obj [("id", .str "RQ.1"), ("res", .str "SIGNAL")])
  else if text = dataText then
    some (.obj [("data", .num 7), ("id", .str "RQ.1"), ("res", .str "DATA")])
  else none

def exchangeExample : Exchange where
  queued := some "SET"
  noise := [signalText]
  reply := dataText
  value := .num 7
  clock := []
  patience := 1
  rounds := []

/-- The frames are cut inside a header, and the stream is silent there. -/
def readsExample : List ReadOutcome :=
  [.bytes ((encodeFrame signalText).take 2), .timedOut,
    .bytes ((encodeFrame signalText).drop 2 ++ encodeFrame dataText)]

theorem carries_example : Carries Wire.connect readsExample
    ([exchangeExample].flatMap Exchange.texts) where
  healthy := rfl
  chunked := by
    intro read member
    simp only [readsExample, List.mem_cons, List.not_mem_nil, or_false] at member
    rcases member with rfl | rfl | rfl
    · exact .inr ⟨_, _, rfl⟩
    · exact .inl rfl
    · exact .inr ⟨_, _, rfl⟩
  admissible := by decide
  stream := by rfl

/-- The silent read costs one round of the patience. -/
theorem perform_answered_example :
    (perform parseExample [exchangeExample.request] connected
      ⟨Wire.connect, readsExample⟩).map Prod.snd = [.ok (.num 7)] :=
  perform_answered connected [exchangeExample] ⟨⟨fun text member => ⟨.signal "RQ.1", by
    obtain rfl := List.mem_singleton.mp member
    exact ⟨rfl, .inr ⟨_, rfl⟩⟩⟩, rfl⟩, trivial⟩ carries_example
    (.hears (.hears (.hears (.drained rfl rfl)))) ⟨by decide, trivial⟩

/-- The handshake meets a silent stream before the first frame. -/
theorem perform_settles_example : ∃ entries : List Entry,
    perform parseExample [exchangeExample.request] connected ⟨Wire.connect, readsExample⟩ =
      entries.map (fun entry => (entry.id, entry.result)) ∧
    ∀ entry ∈ entries, Unanswered entry.id entry.result ∨
      SettledBy entry.id entry.window entry.result := by
  have carries : Carries Wire.connect (.timedOut :: readsExample)
      ([exchangeExample].flatMap Exchange.texts) := {
    healthy := rfl
    chunked := fun read member => (List.mem_cons.mp member).elim .inl (carries_example.chunked read)
    admissible := carries_example.admissible
    stream := carries_example.stream }
  obtain ⟨_, entries, results, _, _, settled⟩ := perform_settles parseExample .written
    [false] [exchangeExample.request] carries (List.forall_mem_nil _) rfl (by decide)
  exact ⟨entries, results, settled⟩

end Answers

end FramaCMcp.Connection
