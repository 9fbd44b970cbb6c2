/-
This file sends requests on one connection, matches the replies of the server to them and reads
whole tables.
-/

import FramaCMcp.Foundation.Json

namespace FramaCMcp.Client

/-- These are the replies of the server. -/
inductive Response where
  | data (id : String) (data : Json)
  | error (id : String) (msg : String)
  | signal (id : String)
  | rejected (id : String)
  | killed (id : String)
  | cmdLineOn
  | cmdLineOff
  deriving Repr, Inhabited

/-- The answer to a kill that followed a timeout is only recorded. -/
inductive CancellationResult where
  | killed
  | killSentThen (response : Response)
  | killSent
  | killSentThenError
  | killSendError
  deriving Repr

structure RequestDiagnostics where
  requestId : String
  request : String
  queuedTaskId : Option String
  signalCount : Nat
  finalResult : Option String
  cancellationResult : Option CancellationResult
  rejectedCommandId : Option String
  deriving Repr

inductive ClientError where
  | transport
  | json
  | unexpectedResponse (message : String)
  | serverError (id msg : String)
  | rejected (id : String)
  | commandFailed (kind id msg : String) (diagnostics : RequestDiagnostics)
  | connectTimeout
  | timeout
  deriving Repr

structure ExecResult where
  data : Json
  diagnostics : RequestDiagnostics
  deriving Repr

def textField (fields : List (String × Json)) (key : String) : String :=
  ((fields.lookup key).bind Json.asStr).getD ""

/-- A text is a command line signal and an object is a reply of its kind. -/
def decodeResponse (value : Json) : Except ClientError Response :=
  match value with
  | .str "CMDLINEON" => .ok .cmdLineOn
  | .str "CMDLINEOFF" => .ok .cmdLineOff
  | .str other => .error (.unexpectedResponse ("unknown string response: " ++ other))
  | .obj fields =>
      let id := textField fields "id"
      match textField fields "res" with
      | "DATA" => .ok (.data id ((fields.lookup "data").getD .null))
      | "ERROR" => .ok (.error id (textField fields "msg"))
      | "SIGNAL" => .ok (.signal id)
      | "REJECTED" => .ok (.rejected id)
      | "KILLED" => .ok (.killed id)
      | other => .error (.unexpectedResponse ("unknown res type: " ++ other))
  | other => .error (.unexpectedResponse ("expected string or object, got: " ++ other.render))

/-- One bounded read gives a message, a text that is no message, silence or a broken stream. -/
inductive Arrival where
  | message (value : Json)
  | notJson
  | silent
  | broken
  deriving Repr, Inhabited

def Arrival.decode : Arrival → Except ClientError (Option Response)
  | .message value => (decodeResponse value).map some
  | .notJson => .error .json
  | .silent => .ok none
  | .broken => .error .transport

/-- A stream without further arrivals is silent. -/
def recvResponse : List Arrival → Except ClientError (Option Response) × List Arrival
  | [] => (.ok none, [])
  | arrival :: rest => (arrival.decode, rest)

/-- The counter of the requests is a machine word. -/
structure ClientInner where
  counter : Nat
  deriving DecidableEq, Repr

def requestName (counter : Nat) : String := "RQ." ++ toString counter

def nextId (inner : ClientInner) : String × ClientInner :=
  (requestName inner.counter, { inner with counter := (inner.counter + 1) % 2 ^ 64 })

/-- A response with the identifier of the request settles it, and any other one is skipped. -/
def settleGet (requestId : String) : Response → Option (Except ClientError Json)
  | .data id data => if id = requestId then some (.ok data) else none
  | .error id msg => if id = requestId then some (.error (.serverError id msg)) else none
  | .rejected id => if id = requestId then some (.error (.rejected id)) else none
  | .killed _ => none
  | .signal _ => none
  | .cmdLineOn => none
  | .cmdLineOff => none

/-- The diagnostics of a settled request name the kind of the response. -/
def commandFailed (kind id msg : String) (diagnostics : RequestDiagnostics) : ClientError :=
  .commandFailed kind id msg { diagnostics with finalResult := some kind }

/-- A terminal response carries the identifier of the request. A signal is counted, and anything
else is noise. -/
def terminalOutcome (response : Response) (requestId : String) (diagnostics : RequestDiagnostics) :
    Option (Except ClientError ExecResult) × RequestDiagnostics :=
  match response with
  | .data id data =>
      if id = requestId then
        let final := { diagnostics with finalResult := some "DATA" }
        (some (.ok { data, diagnostics := final }), final)
      else (none, diagnostics)
  | .error id msg =>
      if id = requestId then (some (.error (commandFailed "ERROR" id msg diagnostics)), diagnostics)
      else (none, diagnostics)
  | .killed id =>
      if id = requestId then
        (some (.error (commandFailed "KILLED" id ("killed: " ++ id)
          { diagnostics with cancellationResult := some .killed })), diagnostics)
      else (none, diagnostics)
  | .rejected id =>
      if id = requestId then
        (some (.error (commandFailed "REJECTED" id ("rejected: " ++ id)
          { diagnostics with rejectedCommandId := some id })), diagnostics)
      else (none, diagnostics)
  | .signal id => (none, { diagnostics with
      signalCount := diagnostics.signalCount + 1
      queuedTaskId := some (diagnostics.queuedTaskId.getD id) })
  | .cmdLineOn => (none, diagnostics)
  | .cmdLineOff => (none, diagnostics)

def cancellation (requestId : String) :
    Except ClientError (Option Response) → CancellationResult
  | .ok (some (.killed id)) =>
      if id = requestId then .killed else .killSentThen (.killed id)
  | .ok (some other) => .killSentThen other
  | .ok none => .killSent
  | .error _ => .killSentThenError

/-- The loops of a request read responses from a stream and write one command in each round. The last
round is the one after those that are given. -/
structure Endpoint (Stream Round : Type) where
  recv : Stream → Except ClientError (Option Response) × Stream
  expired : Round → Bool
  send : Round → Stream → Bool × Stream
  last : Round

section Loops

variable {Stream Round : Type} (endpoint : Endpoint Stream Round)

/-- Each entry of the clock tells whether the deadline has passed at one check. -/
def waitForId (requestId : String) : List Bool → Stream → Except ClientError Json × Stream
  | [], stream => (.error .timeout, stream)
  | expired :: clock, stream =>
      if expired then (.error .timeout, stream)
      else
        match endpoint.recv stream with
        | (.error error, rest) => (.error error, rest)
        | (.ok none, rest) => (.error .timeout, rest)
        | (.ok (some response), rest) =>
            match settleGet requestId response with
            | some result => (result, rest)
            | none => waitForId requestId clock rest

/-- The request is killed at its deadline, and one response to the kill is read and recorded. -/
def killAtDeadline (requestId : String) (round : Round) (stream : Stream)
    (diagnostics : RequestDiagnostics) : Except ClientError ExecResult × Stream :=
  let failed (result : CancellationResult) : Except ClientError ExecResult :=
    .error (commandFailed "TIMEOUT" requestId "timeout"
      { diagnostics with cancellationResult := some result })
  match endpoint.send round stream with
  | (true, sent) =>
      let (response, rest) := endpoint.recv sent
      (failed (cancellation requestId response), rest)
  | (false, rest) => (failed .killSendError, rest)

def pollRounds (requestId : String) :
    List Round → Stream → RequestDiagnostics → Except ClientError ExecResult × Stream
  | [], stream, diagnostics => killAtDeadline endpoint requestId endpoint.last stream diagnostics
  | round :: rounds, stream, diagnostics =>
      if endpoint.expired round then killAtDeadline endpoint requestId round stream diagnostics
      else
        match endpoint.send round stream with
        | (false, rest) => (.error .transport, rest)
        | (true, sent) =>
            match endpoint.recv sent with
            | (.error error, rest) => (.error error, rest)
            | (.ok none, rest) => pollRounds requestId rounds rest diagnostics
            | (.ok (some response), rest) =>
                match terminalOutcome response requestId diagnostics with
                | (some outcome, _) => (outcome, rest)
                | (none, progress) => pollRounds requestId rounds rest progress

/-- A fast request may have answered before the first poll. -/
def pollLoop (requestId request : String) (rounds : List Round) (stream : Stream) :
    Except ClientError ExecResult × Stream :=
  let diagnostics : RequestDiagnostics := {
    requestId
    request
    queuedTaskId := none
    signalCount := 0
    finalResult := none
    cancellationResult := none
    rejectedCommandId := none }
  match endpoint.recv stream with
  | (.error error, rest) => (.error error, rest)
  | (.ok none, rest) => pollRounds endpoint requestId rounds rest diagnostics
  | (.ok (some response), rest) =>
      match terminalOutcome response requestId diagnostics with
      | (some outcome, _) => (outcome, rest)
      | (none, progress) => pollRounds endpoint requestId rounds rest progress

/-- The handshake skips everything in front of the end of the command line. -/
def awaitCommandLine : List Bool → Stream → Except ClientError Unit × Stream
  | [], stream => (.error .connectTimeout, stream)
  | expired :: clock, stream =>
      if expired then (.error .connectTimeout, stream)
      else
        match endpoint.recv stream with
        | (.error error, rest) => (.error error, rest)
        | (.ok none, rest) => (.ok (), rest)
        | (.ok (some .cmdLineOff), rest) => (.ok (), rest)
        | (.ok (some _), rest) => awaitCommandLine clock rest

end Loops

/-- One round of the poll loop checks the clock and sends one command. -/
structure Tick where
  expired : Bool
  sent : Bool
  deriving DecidableEq, Repr

/-- On a list of arrivals a write has its outcome and no other effect. -/
def arrivalStream : Endpoint (List Arrival) Tick where
  recv := recvResponse
  expired := Tick.expired
  send tick arrivals := (tick.sent, arrivals)
  last := ⟨false, true⟩

/-- A request is sent, or its sending fails, and its loop then sees a clock. -/
inductive Call where
  | get (sent : Bool) (clock : List Bool)
  | queued (request : String) (sent : Bool) (ticks : List Tick)
  deriving Repr

/-- This is one request with its identifier. The queued ones are SET and EXEC. -/
def Call.perform (call : Call) (requestId : String) (arrivals : List Arrival) :
    Except ClientError Json × List Arrival :=
  match call with
  | .get sent clock =>
      if sent then waitForId arrivalStream requestId clock arrivals else (.error .transport, arrivals)
  | .queued request sent ticks =>
      if sent then
        let (result, rest) := pollLoop arrivalStream requestId request ticks arrivals
        (result.map ExecResult.data, rest)
      else (.error .transport, arrivals)

def handshake (clock : List Bool) (arrivals : List Arrival) :
    Except ClientError Unit × List Arrival := awaitCommandLine arrivalStream clock arrivals

/-- The probe of the handshake takes the first identifier. -/
def connected : ClientInner := (nextId { counter := 0 }).2

end FramaCMcp.Client

namespace FramaCMcp.Fetch

open Client

def reloadFlag (data : Json) : Bool := ((data.get "reload").bind Json.asBool).getD false

def updatedEntries (data : Json) : List Json := ((data.get "updated").bind Json.asArray).getD []

def pendingCount (data : Json) : Nat := ((data.get "pending").bind Json.asU64).getD 0

/-- The reload flag clears the accumulated entries before the chunk extends them. -/
def extendEntries (entries : List Json) (data : Json) : List Json :=
  (if reloadFlag data then [] else entries) ++ updatedEntries data

/-- The loop of a fetch goes on with the accumulated entries or ends with a result. -/
inductive Fetched where
  | more (entries : List Json)
  | done (result : Except ClientError (List Json))

/-- This is the body of the loop of `fetch_all`, run on the answer to one request. -/
def fetchAll (entries : List Json) : Except ClientError Json → Fetched
  | .error error => .done (.error error)
  | .ok data =>
      let extended := extendEntries entries data
      if pendingCount data = 0 then .done (.ok extended) else .more extended

/-- The server keeps one table and one cursor for all callers. A reload puts every row of the table
on the cursor. A fetch takes a chunk from the cursor, of any length, or starts it again. Nothing
stays on the cursor after a chunk that reports no pending entries. -/
structure CursorServer (State : Type) where
  rows : State → List Json
  owed : State → List Json
  reload : State → Except ClientError Json → State → Prop
  fetch : State → Except ClientError Json → State → Prop
  reloadRows : ∀ {before data after}, reload before (.ok data) after → rows after = rows before
  reloadOwed : ∀ {before data after}, reload before (.ok data) after → owed after = rows before
  fetchRows : ∀ {before data after}, fetch before (.ok data) after → rows after = rows before
  fetchChunk : ∀ {before data after}, fetch before (.ok data) after → reloadFlag data = false →
    updatedEntries data ++ owed after = owed before
  fetchReload : ∀ {before data after}, fetch before (.ok data) after → reloadFlag data = true →
    updatedEntries data ++ owed after = rows before
  fetchPending : ∀ {before data after}, fetch before (.ok data) after → pendingCount data = 0 →
    owed after = []

inductive RequestKind where
  | reload
  | fetch
  deriving DecidableEq, Repr

/-- The server answers the requests of the connection in the order of their arrival. -/
structure Request where
  caller : Nat
  kind : RequestKind
  deriving DecidableEq, Repr

/-- This is the account of the cursor since its last reset: the caller whose request reset it, the
table at that moment, the entries sent and still owed, and whether the array stayed as it was. -/
structure Account where
  resetFor : Option Nat
  table : List Json
  sent : List Json
  owed : List Json
  unchanged : Bool
  deriving Inhabited

/-- An answer waits for its caller together with the account at the time of the answer. -/
structure Answer where
  result : Except ClientError Json
  account : Account

/-- A caller waits for the answer to its reload, then for the answer to each fetch. -/
inductive Phase where
  | idle
  | reloading
  | fetching (entries : List Json)
  | finished (result : Except ClientError (List Json)) (account : Account)

structure System (State : Type) where
  server : State
  account : Account
  queue : List Request
  answers : Nat → Option Answer
  fetchLock : Option Nat
  phase : Nat → Phase

def System.initial {State : Type} (server : State) : System State where
  server
  account := { resetFor := none, table := [], sent := [], owed := [], unchanged := false }
  queue := []
  answers := fun _ => none
  fetchLock := none
  phase := fun _ => .idle

def System.setPhase {State : Type} (system : System State) (caller : Nat) (phase : Phase) :
    System State :=
  { system with phase := Function.update system.phase caller phase }

def System.send {State : Type} (system : System State) (caller : Nat) (kind : RequestKind) :
    System State :=
  { system with
    queue := system.queue ++ [⟨caller, kind⟩]
    answers := Function.update system.answers caller none }

/-- The guard of the lock is dropped at the end of the caller. -/
def System.finish {State : Type} (system : System State) (caller : Nat)
    (result : Except ClientError (List Json)) (account : Account) : System State :=
  { system.setPhase caller (.finished result account) with fetchLock := none }

/-- The lock is taken before the reload is sent. -/
def System.acquire {State : Type} (system : System State) (caller : Nat) : System State :=
  { (system.send caller .reload).setPhase caller .reloading with fetchLock := some caller }

/-- The caller takes the answer to its last request. -/
def System.receive {State : Type} (system : System State) (caller : Nat) (answer : Answer) :
    System State :=
  match system.phase caller with
  | .reloading =>
      match answer.result with
      | .ok _ => (system.send caller .fetch).setPhase caller (.fetching [])
      | .error error => system.finish caller (.error error) answer.account
  | .fetching entries =>
      match fetchAll entries answer.result with
      | .more extended => (system.send caller .fetch).setPhase caller (.fetching extended)
      | .done result => system.finish caller result answer.account
  | .idle => system
  | .finished _ _ => system

/-- The account after the answer to a request. A refused request leaves the array unknown. -/
def Account.served {State : Type} (account : Account) (server : CursorServer State)
    (request : Request) (result : Except ClientError Json) (after : State) : Account :=
  match request.kind, result with
  | _, .error _ => { account with owed := server.owed after, unchanged := false }
  | .reload, .ok _ =>
      { resetFor := some request.caller, table := server.rows after, sent := []
        owed := server.owed after, unchanged := true }
  | .fetch, .ok data =>
      if reloadFlag data then
        { resetFor := some request.caller, table := server.rows after
          sent := updatedEntries data, owed := server.owed after, unchanged := true }
      else
        { account with sent := account.sent ++ updatedEntries data, owed := server.owed after }

/-- The server takes the first request and its answer waits for the caller. -/
def System.serve {State : Type} (system : System State) (server : CursorServer State)
    (request : Request) (rest : List Request) (result : Except ClientError Json) (after : State) :
    System State :=
  let account := system.account.served server request result after
  { system with
    server := after
    account
    queue := rest
    answers := Function.update system.answers request.caller (some ⟨result, account⟩) }

def CursorServer.answers {State : Type} (server : CursorServer State) (kind : RequestKind) :
    State → Except ClientError Json → State → Prop :=
  match kind with
  | .reload => server.reload
  | .fetch => server.fetch

/-- These are the steps of the callers and of the server, in any order. -/
inductive Step {State : Type} (server : CursorServer State) :
    System State → System State → Prop where
  | acquire (system : System State) (caller : Nat) (free : system.fetchLock = none)
      (idle : system.phase caller = .idle) : Step server system (system.acquire caller)
  | serve (system : System State) (request : Request) (rest : List Request)
      (result : Except ClientError Json) (after : State) (first : system.queue = request :: rest)
      (answers : server.answers request.kind system.server result after) :
      Step server system (system.serve server request rest result after)
  | receive (system : System State) (caller : Nat) (answer : Answer)
      (holds : system.fetchLock = some caller) (waits : system.answers caller = some answer) :
      Step server system (system.receive caller answer)
  -- A timeout, a broken stream and a dropped call leave the request with the server or lose it.
  | abandon (system : System State) (caller : Nat) (error : ClientError)
      (holds : system.fetchLock = some caller) :
      Step server system (system.finish caller (.error error) system.account)
  | lose (system : System State) (caller : Nat) (error : ClientError)
      (holds : system.fetchLock = some caller) :
      Step server system
        { system.finish caller (.error error) system.account with
          queue := system.queue.filter fun request => request.caller ≠ caller }
  -- Any other command leaves the array and its cursor alone or changes them.
  | other (system : System State) (after : State)
      (sameRows : server.rows after = server.rows system.server)
      (sameOwed : server.owed after = server.owed system.server) :
      Step server system { system with server := after }
  | change (system : System State) (after : State) :
      Step server system
        { system with
          server := after
          account := { system.account with unchanged := false } }

end FramaCMcp.Fetch
