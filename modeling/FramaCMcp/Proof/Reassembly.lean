/-
This file shows that the receive loop reassembles the frames of any chunked stream and that the
first failure is final.
-/

import FramaCMcp.Proof.FrameGrammar

namespace FramaCMcp.Wire

open Hexadecimal Codec

/-- The frames of the protocol make up a framed stream. -/
def frameFraming : Framing Byte String FrameError where
  encode := encodeFrame
  decode := decodeFrame
  admissible payload := (asBytes payload).length ≤ maxFramePayloadBytes
  nothing := rfl
  whole := by
    intro payload rest fits
    exact decodes_sound (.whole (encodeFrame_isFrame payload fits))
  part := by
    intro payload before after fits split more
    exact decodeFrame_prefix (encodeFrame_isFrame payload fits) split more

/-- These are the bytes that a read puts into the buffer. -/
def ReadOutcome.data : ReadOutcome → List Byte
  | .bytes chunk => chunk
  | .failed => []
  | .timedOut => []

/-- The stream is cut into chunks with timeouts between them. -/
def Chunked (reads : List ReadOutcome) : Prop :=
  ∀ read ∈ reads, read = .timedOut ∨ ∃ byte chunk, read = .bytes (byte :: chunk)

def timeouts (reads : List ReadOutcome) : Nat := reads.countP fun read => read == .timedOut

/-- The receiver or a sender whose writes run to completion uses the stream. -/
def Healthy (operation : Operation) : Prop := operation = .recv ∨ operation = .send .written

def receives (operations : List Operation) : Nat :=
  operations.countP fun operation => operation == .recv

/-- These are the received payloads in order. -/
def received (outcomes : List Outcome) : List String := outcomes.filterMap Outcome.payload

/-- The buffer and the chunks to come are the frames of the payloads. -/
structure Carries (transport : Transport) (reads : List ReadOutcome) (payloads : List String) :
    Prop where
  healthy : transport.poisoned = false
  chunked : Chunked reads
  admissible : ∀ payload ∈ payloads, (asBytes payload).length ≤ maxFramePayloadBytes
  stream : transport.readBuf ++ reads.flatMap ReadOutcome.data = payloads.flatMap encodeFrame

/-- One call yields the next payload, or it times out and loses nothing, or all payloads were
yielded and it reads the end of the stream. -/
inductive Receives (reads ending : List ReadOutcome) (payloads : List String) :
    Except TransportError (Option String) × Transport × List ReadOutcome → Prop where
  | yields {payload : String} {rest : List String} {next : Transport}
      {remaining : List ReadOutcome} (first : payloads = payload :: rest)
      (carries : Carries next remaining rest) (fewer : timeouts remaining ≤ timeouts reads) :
      Receives reads ending payloads (.ok (some payload), next, remaining ++ ending)
  | times {next : Transport} {remaining : List ReadOutcome} (carries : Carries next remaining payloads)
      (fewer : timeouts remaining + 1 ≤ timeouts reads) :
      Receives reads ending payloads (.ok none, next, remaining ++ ending)
  | drained {next : Transport} (last : payloads = []) (carries : Carries next [] payloads) :
      Receives reads ending payloads (readFrame ending next)

theorem Receives.mono {reads more ending : List ReadOutcome} {payloads : List String}
    {result : Except TransportError (Option String) × Transport × List ReadOutcome}
    (receives : Receives reads ending payloads result) (fewer : timeouts reads ≤ timeouts more) :
    Receives more ending payloads result := by
  cases receives with
  | yields first carries less => exact .yields first carries (Nat.le_trans less fewer)
  | times carries less => exact .times carries (Nat.le_trans less fewer)
  | drained last carries => exact .drained last carries

theorem Chunked.tail {read : ReadOutcome} {rest : List ReadOutcome} (chunked : Chunked (read :: rest)) :
    Chunked rest := fun other member => chunked other (List.mem_cons_of_mem read member)

/-- A decoded frame leaves the reads alone. -/
theorem readFrame_decoded {transport next : Transport}
    {result : Except TransportError (Option String)} (reads : List ReadOutcome)
    (decoded : decodeBuffer transport = some (result, next)) :
    readFrame reads transport = (result, next, reads) := by
  cases reads <;> rw [readFrame, decoded]

/-- The buffer holds the next frame, or it holds a part of it and something is still unread. -/
theorem Carries.decode {transport : Transport} {reads : List ReadOutcome} {payloads : List String}
    (carries : Carries transport reads payloads) :
    (∃ payload rest next, payloads = payload :: rest ∧
        decodeBuffer transport = some (.ok (some payload), next) ∧ Carries next reads rest) ∨
      decodeBuffer transport = none ∧ (payloads = [] ∨ reads.flatMap ReadOutcome.data ≠ []) := by
  rcases frameFraming.decode_stream payloads carries.admissible transport.readBuf _
    carries.stream with ⟨payload, rest, first, decoded, stream⟩ | ⟨decoded, more⟩
  · refine .inl ⟨payload, rest,
      { transport with readBuf := transport.readBuf.drop (encodeFrame payload).length }, first, ?_, {
      healthy := carries.healthy
      chunked := carries.chunked
      admissible := ?_
      stream }⟩
    · have found : decodeFrame transport.readBuf =
          .ok (some (payload, (encodeFrame payload).length)) := decoded
      rw [decodeBuffer, found]
    · intro other member
      exact carries.admissible other (first ▸ List.mem_cons_of_mem payload member)
  · have found : decodeFrame transport.readBuf = .ok none := decoded
    refine .inr ⟨?_, more⟩
    rw [decodeBuffer, found]

theorem readFrame_receives (reads ending : List ReadOutcome) (payloads : List String)
    (transport : Transport) (carries : Carries transport reads payloads) :
    Receives reads ending payloads (readFrame (reads ++ ending) transport) := by
  induction reads generalizing transport with
  | nil =>
      rcases carries.decode with ⟨payload, rest, next, first, decoded, later⟩ | ⟨_, more⟩
      · rw [readFrame_decoded _ decoded]
        exact .yields first later (Nat.le_refl _)
      · rcases more with last | unread
        · exact .drained last carries
        · exact absurd rfl unread
  | cons read rest ih =>
      rcases carries.decode with ⟨payload, others, next, first, decoded, later⟩ | ⟨waiting, _⟩
      · rw [readFrame_decoded _ decoded]
        exact .yields first later (Nat.le_refl _)
      have tail := carries.chunked.tail
      have stream := carries.stream
      rw [List.flatMap_cons] at stream
      rw [List.cons_append, readFrame, waiting]
      rcases carries.chunked read List.mem_cons_self with rfl | ⟨byte, chunk, rfl⟩
      · refine .times ⟨carries.healthy, tail, carries.admissible, stream⟩ ?_
        rw [timeouts, timeouts, List.countP_cons_of_pos (by decide)]
      · -- The chunk moves from the stream into the buffer and the loop goes on.
        have moved : Carries { transport with readBuf := transport.readBuf ++ byte :: chunk } rest
            payloads := {
          healthy := carries.healthy
          chunked := tail
          admissible := carries.admissible
          stream := by rw [← stream, List.append_assoc]; rfl }
        have same : timeouts rest ≤ timeouts (.bytes (byte :: chunk) :: rest) := by
          rw [timeouts, timeouts, List.countP_cons_of_neg (by simp)]
        exact (ih _ moved).mono same

theorem recvFrame_receives (reads ending : List ReadOutcome) (payloads : List String)
    (transport : Transport) (carries : Carries transport reads payloads) :
    Receives reads ending payloads (recvFrame transport (reads ++ ending)) := by
  rw [recvFrame, carries.healthy]
  exact readFrame_receives reads ending payloads transport carries

theorem run_recv (rest : List Operation) (transport : Transport) (reads : List ReadOutcome) :
    run (.recv :: rest) transport reads = .received (recvFrame transport reads).1 ::
      run rest (recvFrame transport reads).2.1 (recvFrame transport reads).2.2 := rfl

theorem run_written (rest : List Operation) (transport : Transport) (reads : List ReadOutcome)
    (healthy : transport.poisoned = false) : run (.send .written :: rest) transport reads =
      .sent (.ok ()) :: run rest transport reads := by
  rw [run, perform, sendFrame, healthy]
  rfl

theorem received_cons_payload (payload : String) (outcomes : List Outcome) :
    received (.received (.ok (some payload)) :: outcomes) = payload :: received outcomes := rfl

theorem received_cons_none (outcomes : List Outcome) :
    received (.received (.ok none) :: outcomes) = received outcomes := rfl

theorem received_cons_sent (result : Except TransportError Unit) (outcomes : List Outcome) :
    received (.sent result :: outcomes) = received outcomes := rfl

theorem exists_tail_of_error {first outcome : Outcome} {rest before after : List Outcome}
    (split : first :: rest = before ++ outcome :: after) (fine : first.isError = false)
    (error : outcome.isError = true) :
    ∃ tail, before = first :: tail ∧ rest = tail ++ outcome :: after := by
  cases before with
  | nil =>
      obtain rfl := (List.cons.inj split).1
      rw [fine] at error
      cases error
  | cons head tail =>
      obtain ⟨rfl, remainder⟩ := List.cons.inj split
      exact ⟨tail, rfl, remainder⟩

/-- The receiver sees no error before the last payload of the stream. -/
theorem run_error (ending : List ReadOutcome) (operations : List Operation)
    (healthy : ∀ operation ∈ operations, Healthy operation) (transport : Transport)
    (reads : List ReadOutcome) (payloads : List String) (carries : Carries transport reads payloads)
    (before after : List Outcome) (outcome : Outcome)
    (split : run operations transport (reads ++ ending) = before ++ outcome :: after)
    (error : outcome.isError = true) : payloads <+: received before := by
  induction operations generalizing transport reads payloads before with
  | nil =>
      have length := congrArg List.length split
      simp [run] at length
  | cons operation rest ih =>
      have later := ih fun other member => healthy other (List.mem_cons_of_mem operation member)
      rcases healthy operation List.mem_cons_self with rfl | rfl
      · rw [run_recv] at split
        have receives := recvFrame_receives reads ending payloads transport carries
        generalize recvFrame transport (reads ++ ending) = result at receives split
        cases receives with
        | @yields payload others next remaining first carried _ =>
            obtain ⟨tail, rfl, remainder⟩ := exists_tail_of_error split rfl error
            rw [received_cons_payload, first, List.cons_prefix_cons]
            exact ⟨rfl, later next remaining others carried tail remainder⟩
        | @times next remaining carried _ =>
            obtain ⟨tail, rfl, remainder⟩ := exists_tail_of_error split rfl error
            rw [received_cons_none]
            exact later next remaining payloads carried tail remainder
        | drained last _ =>
            rw [last]
            exact List.nil_prefix
      · rw [run_written rest transport _ carries.healthy] at split
        obtain ⟨tail, rfl, remainder⟩ := exists_tail_of_error split rfl error
        rw [received_cons_sent]
        exact later transport reads payloads carries tail remainder

/-- A drained stream stays silent. -/
theorem readFrame_silent (transport : Transport) (carries : Carries transport [] []) :
    readFrame [] transport = (.ok none, transport, []) := by
  rcases carries.decode with ⟨payload, rest, next, first, _⟩ | ⟨waiting, _⟩
  · cases first
  · rw [readFrame, waiting]

/-- On the stream of the payloads the received ones are a prefix of them without an error, and
enough calls receive them all. -/
theorem run_receives (operations : List Operation)
    (healthy : ∀ operation ∈ operations, Healthy operation) (transport : Transport)
    (reads : List ReadOutcome) (payloads : List String)
    (carries : Carries transport reads payloads) :
    (∀ outcome ∈ run operations transport reads, outcome.isError = false) ∧
      received (run operations transport reads) <+: payloads ∧
      (payloads.length + timeouts reads ≤ receives operations →
        received (run operations transport reads) = payloads) := by
  induction operations generalizing transport reads payloads with
  | nil =>
      refine ⟨by simp [run], List.nil_prefix, ?_⟩
      intro enough
      have empty : payloads.length = 0 := by
        simp only [receives, List.countP_nil] at enough
        omega
      rw [List.length_eq_zero_iff.mp empty]
      rfl
  | cons operation rest ih =>
      have later := ih fun other member => healthy other (List.mem_cons_of_mem operation member)
      rcases healthy operation List.mem_cons_self with rfl | rfl
      · have calls : receives (.recv :: rest) = receives rest + 1 := by
          rw [receives, receives, List.countP_cons_of_pos (by decide)]
        have result := recvFrame_receives reads [] payloads transport carries
        rw [List.append_nil] at result
        rw [run_recv, calls]
        generalize recvFrame transport reads = found at result
        cases result with
        | @yields payload others next remaining first carried fewer =>
            rw [List.append_nil]
            obtain ⟨fine, ordered, complete⟩ := later next remaining others carried
            refine ⟨?_, ?_, ?_⟩
            · exact List.forall_mem_cons.mpr ⟨rfl, fine⟩
            · rw [received_cons_payload, first, List.cons_prefix_cons]
              exact ⟨rfl, ordered⟩
            · intro enough
              rw [first, List.length_cons] at enough
              rw [received_cons_payload, first, complete (by omega)]
        | @times next remaining carried fewer =>
            rw [List.append_nil]
            obtain ⟨fine, ordered, complete⟩ := later next remaining payloads carried
            refine ⟨?_, ordered, fun enough => complete (by omega)⟩
            exact List.forall_mem_cons.mpr ⟨rfl, fine⟩
        | @drained next last carried =>
            subst last
            rw [readFrame_silent next carried]
            obtain ⟨fine, ordered, complete⟩ := later next [] [] carried
            refine ⟨?_, ordered, fun _ => List.prefix_nil.mp ordered⟩
            exact List.forall_mem_cons.mpr ⟨rfl, fine⟩
      · have calls : receives (.send .written :: rest) = receives rest := by
          rw [receives, receives, List.countP_cons_of_neg (by decide)]
        rw [run_written rest transport _ carries.healthy, calls, received_cons_sent]
        obtain ⟨fine, ordered, complete⟩ := later transport reads payloads carries
        refine ⟨?_, ordered, complete⟩
        exact List.forall_mem_cons.mpr ⟨rfl, fine⟩

theorem decodeBuffer_settles {transport next : Transport}
    {result : Except TransportError (Option String)}
    (decoded : decodeBuffer transport = some (result, next)) : result ≠ .ok none := by
  unfold decodeBuffer at decoded
  split at decoded
  · obtain ⟨rfl, _⟩ := Prod.mk.inj (Option.some.inj decoded)
    simp
  · cases decoded
  · obtain ⟨rfl, _⟩ := Prod.mk.inj (Option.some.inj decoded)
    simp

/-- A call that times out keeps every byte. -/
theorem readFrame_timedOut (reads : List ReadOutcome) (transport next : Transport)
    (remaining : List ReadOutcome)
    (timedOut : readFrame reads transport = (.ok none, next, remaining)) :
    next.poisoned = transport.poisoned ∧ next.readBuf ++ remaining.flatMap ReadOutcome.data =
      transport.readBuf ++ reads.flatMap ReadOutcome.data := by
  cases decoded : decodeBuffer transport with
  | some settled =>
      rw [readFrame_decoded reads decoded, Prod.mk.injEq] at timedOut
      exact absurd timedOut.1 (decodeBuffer_settles decoded)
  | none =>
      induction reads generalizing transport with
      | nil =>
          rw [readFrame, decoded] at timedOut
          obtain ⟨rfl, rfl⟩ : transport = next ∧ remaining = [] := by simpa using timedOut
          exact ⟨rfl, rfl⟩
      | cons read rest ih =>
          rw [readFrame, decoded] at timedOut
          rcases read with (_ | ⟨byte, chunk⟩) | _ | _
          · simp [takeRead] at timedOut
          · simp only [takeRead] at timedOut
            cases again : decodeBuffer
                { transport with readBuf := transport.readBuf ++ byte :: chunk } with
            | some settled =>
                rw [readFrame_decoded rest again, Prod.mk.injEq] at timedOut
                exact absurd timedOut.1 (decodeBuffer_settles again)
            | none =>
                obtain ⟨same, kept⟩ := ih _ timedOut again
                refine ⟨same, kept.trans ?_⟩
                rw [List.flatMap_cons, List.append_assoc]
                rfl
          · simp [takeRead] at timedOut
          · simp only [takeRead] at timedOut
            obtain ⟨rfl, rfl⟩ : transport = next ∧ rest = remaining := by simpa using timedOut
            exact ⟨rfl, rfl⟩

theorem recvFrame_timedOut (reads : List ReadOutcome) (transport next : Transport)
    (remaining : List ReadOutcome)
    (timedOut : recvFrame transport reads = (.ok none, next, remaining)) :
    next.poisoned = false ∧ next.readBuf ++ remaining.flatMap ReadOutcome.data =
      transport.readBuf ++ reads.flatMap ReadOutcome.data := by
  rw [recvFrame] at timedOut
  split_ifs at timedOut with poisoned
  · simp at timedOut
  · obtain ⟨same, kept⟩ := readFrame_timedOut reads transport next remaining timedOut
    exact ⟨same.trans (by simpa using poisoned), kept⟩

/-- Each failed operation poisons the stream. -/
theorem readFrame_error (reads : List ReadOutcome) (transport : Transport) (error : TransportError)
    (failed : (readFrame reads transport).1 = .error error) :
    (readFrame reads transport).2.1.poisoned = true := by
  have decodes : ∀ result next, decodeBuffer transport = some (result, next) →
      result = .error error → next.poisoned = true := by
    intro result next decoded wrong
    unfold decodeBuffer at decoded
    split at decoded
    · obtain ⟨rfl, _⟩ := Prod.mk.inj (Option.some.inj decoded)
      cases wrong
    · cases decoded
    · obtain ⟨_, rfl⟩ := Prod.mk.inj (Option.some.inj decoded)
      rfl
  cases decoded : decodeBuffer transport with
  | some settled =>
      rw [readFrame_decoded reads decoded] at failed ⊢
      exact decodes settled.1 settled.2 decoded failed
  | none =>
      cases reads with
      | nil =>
          rw [readFrame, decoded] at failed
          cases failed
      | cons read rest =>
          rw [readFrame, decoded] at failed ⊢
          rcases read with (_ | ⟨byte, chunk⟩) | _ | _
          · rfl
          · exact readFrame_error rest _ error failed
          · rfl
          · cases failed

theorem perform_error (operation : Operation) (transport : Transport) (reads : List ReadOutcome)
    (failed : (perform operation transport reads).1.isError = true) :
    (perform operation transport reads).2.1.poisoned = true := by
  cases operation with
  | send outcome =>
      simp only [perform, sendFrame] at failed ⊢
      by_cases poisoned : transport.poisoned = true
      · simp [poisoned]
      · rw [if_neg poisoned] at failed ⊢
        cases outcome with
        | written => cases failed
        | failed => rfl
        | timedOut => rfl
  | recv =>
      simp only [perform, recvFrame] at failed ⊢
      by_cases poisoned : transport.poisoned = true
      · simp [poisoned]
      · rw [if_neg poisoned] at failed ⊢
        cases result : (readFrame reads transport).1 with
        | ok payload => simp [result, Outcome.isError] at failed
        | error error => exact readFrame_error reads transport error result

/-- A poisoned stream refuses everything and stays poisoned. -/
theorem perform_poisoned (operation : Operation) (transport : Transport) (reads : List ReadOutcome)
    (poisoned : transport.poisoned = true) :
    (perform operation transport reads).1.isError = true ∧
      (perform operation transport reads).2.1.poisoned = true := by
  cases operation with
  | send outcome =>
      simp only [perform, sendFrame, poisoned, if_true]
      exact ⟨rfl, trivial⟩
  | recv =>
      simp only [perform, recvFrame, poisoned, if_true]
      exact ⟨rfl, trivial⟩

theorem run_poisoned (operations : List Operation) (transport : Transport)
    (reads : List ReadOutcome) (poisoned : transport.poisoned = true) :
    ∀ outcome ∈ run operations transport reads, outcome.isError = true := by
  induction operations generalizing transport reads with
  | nil => simp [run]
  | cons operation rest ih =>
      obtain ⟨error, again⟩ := perform_poisoned operation transport reads poisoned
      intro outcome member
      rw [run] at member
      rcases List.mem_cons.mp member with rfl | behind
      · exact error
      · exact ih _ _ again outcome behind

theorem run_after_error (operations : List Operation) (transport : Transport)
    (reads : List ReadOutcome) (before after : List Outcome) (outcome : Outcome)
    (split : run operations transport reads = before ++ outcome :: after)
    (error : outcome.isError = true) : ∀ later ∈ after, later.isError = true := by
  induction operations generalizing transport reads before with
  | nil =>
      have length := congrArg List.length split
      simp [run] at length
  | cons operation rest ih =>
      rw [run] at split
      cases before with
      | nil =>
          obtain ⟨rfl, rfl⟩ := List.cons.inj split
          exact run_poisoned rest _ _ (perform_error operation transport reads error)
      | cons head tail =>
          obtain ⟨_, remainder⟩ := List.cons.inj split
          exact ih _ _ tail remainder

/-- The receive loop yields the payloads of every chunked stream in order and has no error before
its end, a timeout keeps every byte, and after an error every operation fails. -/
theorem recvFrame_reassembles :
    (∀ payloads reads operations, (∀ payload ∈ payloads,
        (asBytes payload).length ≤ maxFramePayloadBytes) → Chunked reads →
      reads.flatMap ReadOutcome.data = payloads.flatMap encodeFrame →
      (∀ operation ∈ operations, Healthy operation) →
      (∀ outcome ∈ run operations connect reads, outcome.isError = false) ∧
      received (run operations connect reads) <+: payloads ∧
      (payloads.length + timeouts reads ≤ receives operations →
        received (run operations connect reads) = payloads) ∧
      ∀ ending before outcome after,
        run operations connect (reads ++ ending) = before ++ outcome :: after →
          outcome.isError = true → payloads <+: received before) ∧
    (∀ transport reads next remaining, recvFrame transport reads = (.ok none, next, remaining) →
      next.poisoned = false ∧ next.readBuf ++ remaining.flatMap ReadOutcome.data =
        transport.readBuf ++ reads.flatMap ReadOutcome.data) ∧
    (∀ transport reads error, decodeFrame transport.readBuf = .error error →
      (perform .recv transport reads).1.isError = true) ∧
    (∀ transport reads, decodeFrame transport.readBuf = .ok none →
      (perform .recv transport (.bytes [] :: reads)).1.isError = true) ∧
    (∀ transport reads outcome, outcome ≠ .written →
      (perform (.send outcome) transport reads).1.isError = true) ∧
    ∀ operations transport reads before outcome after,
      run operations transport reads = before ++ outcome :: after → outcome.isError = true →
        ∀ later ∈ after, later.isError = true := by
  refine ⟨?_, ?_, ?_, ?_, ?_, ?_⟩
  · intro payloads reads operations admissible chunked stream healthy
    have carries : Carries connect reads payloads := ⟨rfl, chunked, admissible, stream⟩
    obtain ⟨fine, ordered, complete⟩ := run_receives operations healthy connect reads payloads carries
    refine ⟨fine, ordered, complete, ?_⟩
    intro ending before outcome after split error
    exact run_error ending operations healthy connect reads payloads carries before after outcome
      split error
  · intro transport reads next remaining
    exact recvFrame_timedOut reads transport next remaining
  · intro transport reads error malformed
    have decoded : decodeBuffer transport = some (.error (.invalidFrame error), poison transport) := by
      rw [decodeBuffer, malformed]
    simp only [perform, recvFrame]
    split_ifs
    · rfl
    · rw [readFrame_decoded reads decoded]
      rfl
  · intro transport reads waiting
    have decoded : decodeBuffer transport = none := by
      rw [decodeBuffer, waiting]
    simp only [perform, recvFrame]
    split_ifs
    · rfl
    · rw [readFrame, decoded]
      rfl
  · intro transport reads outcome broken
    simp only [perform, sendFrame]
    split_ifs
    · rfl
    · cases outcome with
      | written => exact absurd rfl broken
      | failed => rfl
      | timedOut => rfl
  · intro operations transport reads before outcome after split error
    exact run_after_error operations transport reads before after outcome split error

/-- Two frames are cut inside a header and inside a payload with a timeout between the chunks. -/
theorem recvFrame_reassembles_example :
    received (run [.recv, .recv, .recv] connect
      [.bytes [83, 48], .timedOut, .bytes [48, 49, 65, 83, 48, 48, 50, 66], .bytes [67]]) =
        ["A", "BC"] :=
  (recvFrame_reassembles.1 ["A", "BC"]
    [.bytes [83, 48], .timedOut, .bytes [48, 49, 65, 83, 48, 48, 50, 66], .bytes [67]]
    [.recv, .recv, .recv] (by decide)
    (by simp [Chunked]) (by decide) (by simp [Healthy])).2.2.1 (by decide)

end FramaCMcp.Wire
