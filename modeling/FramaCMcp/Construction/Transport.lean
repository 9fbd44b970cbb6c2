/-
This file encodes the length-prefixed frames of the server protocol, exchanges them on one stream
that is poisoned by its first failure, and runs the requests of a client on the bytes of its stream.
-/

import FramaCMcp.Foundation.Framing
import FramaCMcp.Construction.Client

namespace FramaCMcp.Codec

open Hexadecimal

def asBytes (text : String) : List Byte := text.toByteArray.data.toList

/-- Bytes that are not a text have none. -/
def fromUtf8 (bytes : List Byte) : Option String := String.fromUTF8? ⟨bytes.toArray⟩

/-- The letter and the width of the header follow the length of the payload. -/
def header (length : Nat) : List Byte :=
  if length ≤ 0xFFF then 83 :: format 3 length
  else if length ≤ 0xFFFFFFF then 76 :: format 7 length
  else 87 :: format 15 length

def encodeFrame (payload : String) : List Byte :=
  header (asBytes payload).length ++ asBytes payload

def maxFramePayloadBytes : Nat := 256 * 1024 * 1024

/-- A frame is refused for its first byte, its header, its declared length or its payload. -/
inductive FrameError where
  | unexpectedPrefix (byte : Byte)
  | headerNotUtf8
  | invalidHex (header : List Byte)
  | overLimit (declared : Nat)
  | payloadNotUtf8
  deriving DecidableEq, Repr

/-- The first byte gives the number of digits. -/
def hexLen (byte : Byte) : Option Nat :=
  if byte = 83 then some 3 else if byte = 76 then some 7 else if byte = 87 then some 15 else none

/-- The payload is read once all its declared bytes are there. -/
def decodePayload (headerLen payloadLen : Nat) (buf : List Byte) :
    Except FrameError (Option (String × Nat)) :=
  if maxFramePayloadBytes < payloadLen then .error (.overLimit payloadLen)
  else if buf.length < headerLen + payloadLen then .ok none
  else
    match fromUtf8 ((buf.drop headerLen).take payloadLen) with
    | none => .error .payloadNotUtf8
    | some payload => .ok (some (payload, headerLen + payloadLen))

/-- The result is one frame with the bytes it took, nothing where bytes are missing, or an error. -/
def decodeFrame (buf : List Byte) : Except FrameError (Option (String × Nat)) :=
  match buf with
  | [] => .ok none
  | first :: rest =>
      match hexLen first with
      | none => .error (.unexpectedPrefix first)
      | some width =>
          if rest.length < width then .ok none
          else
            match fromUtf8 (rest.take width) with
            | none => .error .headerNotUtf8
            | some _ =>
                match fromStrRadix (rest.take width) with
                | none => .error (.invalidHex (rest.take width))
                | some payloadLen => decodePayload (1 + width) payloadLen buf

end FramaCMcp.Codec

namespace FramaCMcp.Wire

open Hexadecimal Codec

/-- This is the state of one end of the stream. -/
structure Transport where
  readBuf : List Byte
  poisoned : Bool
  deriving DecidableEq, Repr

def connect : Transport where
  readBuf := []
  poisoned := false

/-- A bounded read gives bytes, and no bytes at the end of the stream. -/
inductive ReadOutcome where
  | bytes (chunk : List Byte)
  | failed
  | timedOut
  deriving DecidableEq, Repr

inductive WriteOutcome where
  | written
  | failed
  | timedOut
  deriving DecidableEq, Repr

inductive TransportError where
  | invalidFrame (error : FrameError)
  | unexpectedEof
  | readFailed
  | writeFailed
  | writeTimedOut
  | poisonedTransport
  deriving DecidableEq, Repr

def poison (transport : Transport) : Transport := { transport with poisoned := true }

/-- A write that does not run to completion poisons the stream. -/
def sendFrame (transport : Transport) (outcome : WriteOutcome) :
    Except TransportError Unit × Transport :=
  if transport.poisoned then (.error .poisonedTransport, transport)
  else
    match outcome with
    | .written => (.ok (), transport)
    | .failed => (.error .writeFailed, poison transport)
    | .timedOut => (.error .writeTimedOut, poison transport)

/-- The buffer gives a frame, or an error that poisons the stream, or asks for more bytes. -/
def decodeBuffer (transport : Transport) :
    Option (Except TransportError (Option String) × Transport) :=
  match decodeFrame transport.readBuf with
  | .ok (some (payload, consumed)) =>
      some (.ok (some payload), { transport with readBuf := transport.readBuf.drop consumed })
  | .ok none => none
  | .error error => some (.error (.invalidFrame error), poison transport)

/-- A read fills the buffer, or it ends the wait, or it ends the stream. -/
def takeRead (transport : Transport) : ReadOutcome → Except TransportError (Option Transport)
  | .timedOut => .ok none
  | .failed => .error .readFailed
  | .bytes [] => .error .unexpectedEof
  | .bytes (byte :: chunk) =>
      .ok (some { transport with readBuf := transport.readBuf ++ byte :: chunk })

/-- The buffer is decoded before each read. A silent stream lets the read time out, which keeps the
buffer and does not poison. -/
def readFrame : List ReadOutcome → Transport →
    Except TransportError (Option String) × Transport × List ReadOutcome
  | [], transport =>
      match decodeBuffer transport with
      | some (result, next) => (result, next, [])
      | none => (.ok none, transport, [])
  | read :: rest, transport =>
      match decodeBuffer transport with
      | some (result, next) => (result, next, read :: rest)
      | none =>
          match takeRead transport read with
          | .ok none => (.ok none, transport, rest)
          | .ok (some next) => readFrame rest next
          | .error error => (.error error, poison transport, rest)

def recvFrame (transport : Transport) (reads : List ReadOutcome) :
    Except TransportError (Option String) × Transport × List ReadOutcome :=
  if transport.poisoned then (.error .poisonedTransport, transport, reads)
  else readFrame reads transport

/-- The owner of the stream sends or receives one frame. -/
inductive Operation where
  | send (outcome : WriteOutcome)
  | recv
  deriving DecidableEq, Repr

inductive Outcome where
  | sent (result : Except TransportError Unit)
  | received (result : Except TransportError (Option String))

def Outcome.isError : Outcome → Bool
  | .sent (.error _) => true
  | .received (.error _) => true
  | _ => false

def Outcome.payload : Outcome → Option String
  | .received (.ok payload) => payload
  | _ => none

/-- One operation reads what it needs of the stream. -/
def perform (operation : Operation) (transport : Transport) (reads : List ReadOutcome) :
    Outcome × Transport × List ReadOutcome :=
  match operation with
  | .send outcome =>
      let (result, next) := sendFrame transport outcome
      (.sent result, next, reads)
  | .recv =>
      let (result, next, rest) := recvFrame transport reads
      (.received result, next, rest)

/-- The operations run in order on one stream. -/
def run : List Operation → Transport → List ReadOutcome → List Outcome
  | [], _, _ => []
  | operation :: rest, transport, reads =>
      let (outcome, next, remaining) := perform operation transport reads
      outcome :: run rest next remaining

end FramaCMcp.Wire

namespace FramaCMcp.Connection

open Wire Client

/-- The client owns one end of the stream, and these are the reads that are still to come. -/
structure Link where
  transport : Transport
  reads : List ReadOutcome

section Requests

-- The parser of the payloads is that of a library.
variable (parse : String → Option Json)

/-- A payload is a message where it parses. A stream that fails is broken. -/
def arrivalOf : Except TransportError (Option String) → Arrival
  | .ok (some payload) =>
      match parse payload with
      | some value => .message value
      | none => .notJson
  | .ok none => .silent
  | .error _ => .broken

/-- One frame is received and decoded. -/
def recvResponse (link : Link) : Except ClientError (Option Response) × Link :=
  let (result, transport, reads) := recvFrame link.transport link.reads
  ((arrivalOf parse result).decode, { transport, reads })

/-- The result tells whether the frame of the command was written. -/
def sendCommand (link : Link) (write : WriteOutcome) : Bool × Link :=
  match sendFrame link.transport write with
  | (.ok _, transport) => (true, { link with transport })
  | (.error _, transport) => (false, { link with transport })

/-- One round of the poll loop checks the clock and writes one command. -/
structure Round where
  expired : Bool
  write : WriteOutcome
  deriving DecidableEq, Repr

def linkStream : Endpoint Link Round where
  recv := recvResponse parse
  expired := Round.expired
  send round link := sendCommand link round.write
  last := ⟨false, .written⟩

/-- A request is written to the stream, and its loop then sees a clock. -/
inductive Request where
  | get (write : WriteOutcome) (clock : List Bool)
  | queued (request : String) (write : WriteOutcome) (rounds : List Round)
  deriving Repr

def Request.perform (request : Request) (requestId : String) (link : Link) :
    Except ClientError Json × Link :=
  match request with
  | .get write clock =>
      match sendCommand link write with
      | (true, sent) => waitForId (linkStream parse) requestId clock sent
      | (false, next) => (.error .transport, next)
  | .queued name write rounds =>
      match sendCommand link write with
      | (true, sent) =>
          let (result, next) := pollLoop (linkStream parse) requestId name rounds sent
          (result.map ExecResult.data, next)
      | (false, next) => (.error .transport, next)

/-- The requests run one after the other. Each result comes with its identifier. -/
def perform : List Request → ClientInner → Link → List (String × Except ClientError Json)
  | [], _, _ => []
  | request :: requests, inner, link =>
      let (requestId, after) := nextId inner
      let (result, next) := request.perform parse requestId link
      (requestId, result) :: perform requests after next

/-- The handshake writes its probe and awaits the end of the command line. -/
def handshake (write : WriteOutcome) (clock : List Bool) (link : Link) :
    Except ClientError Unit × Link :=
  match sendCommand link write with
  | (true, sent) => awaitCommandLine (linkStream parse) clock sent
  | (false, next) => (.error .transport, next)

end Requests

end FramaCMcp.Connection
