import SnowTG.Tcp.Ingress

/-!
# Transmission and the application calls

`tcp_tx_flush` and the two functions that take payload from the send buffer, the
application calls `tcp_send`, `tcp_recv` and `tcp_close`, and the timer callback
of the synchronized states.
-/

namespace SnowTG.Tcp

open SnowTG.Lib

/-- `TCP_DATA_MAX_RETRIES`. -/
def tcpDataMaxRetries : Nat := 5

/-- `enum tcp_sndbuf_flush_result`. -/
inductive SndbufFlush where
  | idle
  | sent
  | retry
  | arpWait
  | destroyed
  deriving DecidableEq, Repr

/-- `SOCK_TX_FLUSH_*`. -/
inductive TxFlush where
  | idle
  | retry
  | arpWait
  | destroyed
  deriving DecidableEq, Repr

/-- `tcp_options_data_mss`, given the size of the options in words. -/
def tcpOptionsDataMss (s : Stream) (words : Nat) : Nat := min s.smss (tcpDefaultMss - words * 4)

/-- `tcp_build_pkt` and the output ring; `false` when either fails. -/
def tcpEmit (s : Stream) (seg : WireSeg) : Bool × Stream :=
  let (built, s) := s.ask
  if built = 0 then (false, s)
  else
    let (room, s) := s.ask
    if room = 0 then (false, s) else (true, { s with out := s.out ++ [seg] })

/-- Congestion window of the congestion-control module. -/
def tcpCcSendWindow (s : Stream) : Nat × Stream :=
  let (cwnd, s) := s.ask
  (cwnd % 2 ^ 32, s)

/-- First part of `tcp_tx_flush_recovery_retransmit`: in SACK recovery choose a candidate when the
congestion window has room for a segment. -/
def recoverySchedule (s : Stream) : Stream :=
  if s.pending = none ∧ s.mode = .sack then
    let (pipe, tp) := tcpSackSetPipe s.toScoreboard (tcpSackPayloadFlightEnd s)
    let (cwnd, s) := tcpCcSendWindow { s with toScoreboard := tp }
    if cwnd ≥ pipe.toNat ∧ cwnd - pipe.toNat ≥ s.sndMss then
      let sndbufEnd := s.sndbuf.headSeq + BitVec.ofNat 32 s.sndbuf.len
      { s with
        toScoreboard :=
          (tcpSackScheduleNext s.toScoreboard sndbufEnd (Serial.lt s.sentSeq sndbufEnd)).2 }
    else s
  else s

/-- Give up the pending candidate. -/
def Stream.cancelCandidate (s : Stream) : Stream :=
  { s with toScoreboard := tcpSackCancelCandidate s.toScoreboard }

/-- Second part of `tcp_tx_flush_recovery_retransmit`: send the pending range again, read from the
send buffer at its own sequence number. -/
def recoveryRetransmit (s : Stream) (candidate : RecoveryCandidate) : SndbufFlush × Stream :=
  if s.sndbuf.len = 0 || Serial.lt candidate.seq s.sndbuf.headSeq ||
      !Serial.lt candidate.seq candidate.stop ||
      Serial.gt candidate.stop (tcpSackPayloadFlightEnd s) then
    (.idle, s.cancelCandidate)
  else
    match tcpSndbufPeek s.sndbuf candidate.seq with
    | none => (.idle, s.cancelCandidate)
    | some chunk =>
      let (mac, s) := s.ask
      if mac = 0 then (.arpWait, s)
      else
        let (options, s) := tcpOptionsApplyEstablished s
        if !options.1 then (.retry, s)
        else
          let seglen := min (min (candidate.stop - candidate.seq).toNat
            (tcpOptionsDataMss s options.2)) chunk.length
          if seglen = 0 then (.idle, s.cancelCandidate)
          else
            match tcpEmit s
              { seq := candidate.seq, ack := s.rx.recvAck, payload := chunk.take seglen,
                optLen := options.2 } with
            | (false, s) => (.retry, s)
            | (true, s) =>
              (.sent,
                { s with
                  ackPending := false
                  toScoreboard := tcpSackCommitCandidate s.toScoreboard
                    (candidate.seq + BitVec.ofNat 32 seglen) })

/-- `tcp_tx_flush_recovery_retransmit`. -/
def tcpTxFlushRecoveryRetransmit (s : Stream) : SndbufFlush × Stream :=
  let s := recoverySchedule s
  match s.pending with
  | some candidate =>
    if candidate.kind = .retransmit then recoveryRetransmit s candidate else (.idle, s)
  | none => (.idle, s)

/-- The states in which `tcp_tx_flush_sndbuf` sends payload. -/
def Status.sendsPayload : Status → Bool
  | .established | .closeWait | .finWait1 | .closing | .lastAck => true
  | _ => false

/-- Outstanding bytes that `tcp_tx_flush_sndbuf` charges against the window: the scoreboard's
estimate in SACK recovery and limited transmit, else everything sent and not acknowledged. -/
def congestionInFlight (s : Stream) : Nat × Stream :=
  if s.mode = .sack ∨ s.limitedTransmit = true then
    let (pipe, tp) := tcpSackSetPipe s.toScoreboard (tcpSackPayloadFlightEnd s)
    (pipe.toNat, { s with toScoreboard := tp })
  else ((s.sentSeq - s.sndUna).toNat, s)

/-- The bound a pending choice of new data puts on a segment. -/
def newDataBound (s : Stream) (seglen : Nat) : Nat :=
  match s.pending with
  | some candidate =>
    if candidate.kind = .newData ∧ candidate.seq = s.sentSeq then
      min seglen (candidate.stop - s.sentSeq).toNat
    else seglen
  | none => seglen

/-- The pending choice is new data. -/
def Stream.pendingNewData (s : Stream) : Bool :=
  s.pending.any fun candidate => candidate.kind = .newData

/-- Account for `seglen` new bytes on the wire. -/
def sndbufCharge (s : Stream) (seglen : Nat) : Stream :=
  let sentSeq := s.sentSeq + BitVec.ofNat 32 seglen
  let tp :=
    if s.pendingNewData then tcpSackCommitCandidate s.toScoreboard sentSeq
    else tcpSackNoteNewData s.toScoreboard sentSeq
  { s with
    toScoreboard := { tp with limitedTransmit := false }
    ackPending := false
    sentSeq := sentSeq
    sndbuf := { s.sndbuf with unacked := s.sndbuf.unacked + seglen } }

/-- Last part of `tcp_tx_flush_sndbuf`: the accounts, and the timer of a stream that was idle. -/
def sndbufSent (s : Stream) (wasIdle : Bool) (seglen : Nat) : SndbufFlush × Stream :=
  let s := sndbufCharge s seglen
  if wasIdle then
    let (armed, s) := armOrAbort { s with retries := 0 } true
    (if armed then .sent else .destroyed, s)
  else (.sent, s)

/-- Middle part of `tcp_tx_flush_sndbuf`: resolve, build and send at most `seglen` bytes of
`chunk` at `sent_seq`. -/
def sndbufTransmit (s : Stream) (chunk : List UInt8) (unsent seglen : Nat) :
    SndbufFlush × Stream :=
  let inFlight := (s.sentSeq - s.sndUna).toNat
  let (mac, s) := s.ask
  if mac = 0 then (.arpWait, s)
  else
    let (options, s) := tcpOptionsApplyEstablished s
    let mss := tcpOptionsDataMss s options.2
    if !s.nodelay && inFlight ≠ 0 && unsent < mss && !s.appClosed && !s.pendingNewData then
      (.idle, s)
    else
      let seglen := min seglen mss
      if seglen = 0 then (.idle, s)
      else
        match tcpEmit s
          { seq := s.sentSeq, ack := s.rx.recvAck, payload := chunk.take seglen,
            optLen := options.2 } with
        | (false, s) => (.retry, s)
        | (true, s) => sndbufSent s (s.sndUna = s.sentSeq) seglen

/-- What both windows leave of `chunk`, given the bytes charged against them. -/
def sndbufWindow (s : Stream) (chunk : List UInt8) (unsent charged cwnd : Nat) :
    SndbufFlush × Stream :=
  let sendWindow := min s.sndWnd cwnd
  if charged ≥ sendWindow then (.idle, s)
  else
    let seglen := newDataBound s (min (min unsent (sendWindow - charged)) chunk.length)
    if seglen = 0 then (.idle, s) else sndbufTransmit s chunk unsent seglen

/-- `tcp_tx_flush_sndbuf`. -/
def tcpTxFlushSndbuf (s : Stream) : SndbufFlush × Stream :=
  let bufEnd := s.sndbuf.headSeq + BitVec.ofNat 32 s.sndbuf.len
  if !s.status.sendsPayload || s.sndbuf.chunks.isEmpty || s.sndbuf.len = 0 ||
      !Serial.lt s.sentSeq bufEnd then (.idle, s)
  else
    match tcpSndbufPeek s.sndbuf s.sentSeq with
    | none => (.idle, s)
    | some chunk =>
      let (charged, s') := congestionInFlight s
      let (cwnd, s') := tcpCcSendWindow s'
      sndbufWindow s' chunk (bufEnd - s.sentSeq).toNat charged cwnd

/-- `nsock_tcp_tx_requeue_head` and the return that follows it; a fragment that cannot be put back
is dropped, and a ring takes it back behind the others. -/
def requeueControl (s : Stream) (f : Fragment) (rest : List Fragment) (result : TxFlush) :
    Option TxFlush × Stream :=
  if rest.length ≥ s.txCapacity then (some .idle, { s with txQueue := rest })
  else (some result, { s with txQueue := if s.rx.ioRings then rest ++ [f] else f :: rest })

/-- The segment built from a control fragment. -/
def Fragment.toWire (f : Fragment) : WireSeg :=
  { seq := f.seq, ack := f.ack, fin := f.fin, syn := f.syn, acks := f.acks }

/-- Drain loop of `tcp_tx_flush` over the queued control fragments; no result when the queue was
emptied. -/
def tcpTxFlushControl : List Fragment → Stream → Option TxFlush × Stream
  | [], s => (none, { s with txQueue := [] })
  | f :: rest, s =>
    let (mac, s) := s.ask
    if mac = 0 then requeueControl s f rest .arpWait
    else
      let emitted := tcpEmit s f.toWire
      if emitted.1 then
        let current := f.acks && !f.syn && f.ack = emitted.2.rx.recvAck &&
          f.rxWin = tcpWireRcvWnd emitted.2
        tcpTxFlushControl rest
          { emitted.2 with ackPending := emitted.2.ackPending && !current }
      else requeueControl emitted.2 f rest .retry

/-- A deferred FIN can be sent: every buffered byte has its sequence number. -/
def finReady (s : Stream) : Bool :=
  (s.status = .finWait1 || s.status = .lastAck || s.status = .closing) && s.finDeferred &&
    s.sentSeq = s.sndUna + BitVec.ofNat 32 s.sndbuf.len

/-- The deferred FIN of `tcp_tx_flush`. -/
def flushDeferredFin (s : Stream) : Option TxFlush × Stream :=
  match tcpEnqueueFragment s true s.sentSeq with
  | (false, s) => (some .destroyed, tcpAbortStream s enobufs true)
  | (true, s) =>
    let (armed, s) := armOrAbort { s with sentSeq := s.sentSeq + 1, finDeferred := false } true
    (if armed then none else some .destroyed, s)

/-- One round of `tcp_tx_flush` behind the recovery loop; no result means another round. -/
def flushPayloadRound (s : Stream) : Option TxFlush × Stream :=
  match tcpTxFlushSndbuf s with
  | (.arpWait, s) => (some .arpWait, s)
  | (.retry, s) => (some .retry, s)
  | (.destroyed, s) => (some .destroyed, s)
  | (.sent, s) => (none, s)
  | (.idle, s) =>
    if s.ackPending then
      match tcpEnqueueFragment s false s.sentSeq with
      | (false, s) => (some .retry, s)
      | (true, s) => (none, { s with ackPending := false })
    else if finReady s then flushDeferredFin s
    else (some .idle, s)

/-- One turn of the recovery loop of `tcp_tx_flush`. -/
def flushRecoveryTurn (s : Stream) : Option SndbufFlush × Stream :=
  match tcpTxFlushRecoveryRetransmit s with
  | (.sent, s) => (none, s)
  | (result, s) => (some result, s)

/-- One round of `tcp_tx_flush`: control fragments, retransmissions, new payload.  `turns` bounds
the recovery loop. -/
def tcpTxFlushRound (turns : Nat) (s : Stream) : Option TxFlush × Stream :=
  match tcpTxFlushControl s.txQueue s with
  | (some result, s) => (some result, s)
  | (none, s) =>
    match repeatUntil flushRecoveryTurn turns s with
    | (some .arpWait, s) => (some .arpWait, s)
    | (some .retry, s) => (some .retry, s)
    | (_, s) => flushPayloadRound s

/-- The states in which `tcp_tx_flush` does something. -/
def Status.flushes : Status → Bool
  | .closed | .listen => false
  | _ => true

/-- `tcp_tx_flush`, for at most `rounds` rounds. -/
def tcpTxFlush (rounds : Nat) (s : Stream) : Option TxFlush × Stream :=
  if !s.status.flushes then (some .idle, s)
  else repeatUntil (tcpTxFlushRound rounds) rounds s

/-- `tcp_app_snd_space`. -/
def tcpAppSndSpace (s : Stream) : Nat :=
  (if s.sndWndValid && s.sndWnd < tcpSndbufSize then s.sndWnd else tcpSndbufSize) - s.sndbuf.len

/-- `tcp_send`: the number of bytes accepted, or `errno`. -/
def tcpSend (s : Stream) (data : List UInt8) : Except Nat Nat × Stream :=
  if data = [] then (.ok 0, s)
  else if s.status ≠ .established ∧ s.status ≠ .closeWait then
    (.error (if s.terminalError ≠ 0 then s.terminalError else epipe), s)
  else
    let space := tcpAppSndSpace s
    if space = 0 then (.error eagain, s)
    else
      let (sndbuf, env, n) := tcpSndbufAppend s.sndbuf s.env (data.take space)
      let s := { s with sndbuf := sndbuf, env := env }
      if n = 0 then (.error enobufs, s) else (.ok n, s)

/-- What `tcp_recv` reports for a request of at least one byte. -/
inductive Received where
  | data (bytes : List UInt8)
  | eof
  | error (errno : Nat)
  deriving DecidableEq, Repr

/-- The blob `tcp_recv` reads from: the current one or the next of the queue. -/
def nsockTcpRxCurrent (rx : Rx) : Option RxBlob × Rx :=
  match rx.rxCurrent, rx.rxQueue with
  | some blob, _ => (some blob, rx)
  | none, [] => (none, rx)
  | none, blob :: rest => (some blob, { rx with rxCurrent := some blob, rxQueue := rest })

/-- The receive side after `n` more bytes of its current blob were copied out. -/
def Rx.advance (rx : Rx) (blob : RxBlob) (n : Nat) : Rx :=
  { rx with
    rxCurrent := some { blob with off := blob.off + n }
    rcvbufUsed := rx.rcvbufUsed - n }

/-- `tcp_recv` from a blob: copy bytes out, drain what now fits, and drop the blob once it is
read. -/
def recvBlob (s : Stream) (rx : Rx) (blob : RxBlob) (len : Nat) : Received × Stream :=
  let bytes := (blob.data.drop blob.off).take len
  let applied := tcpApplyPeerEof { s with rx := tcpOfoDrain (rx.advance blob bytes.length) }
  (.data bytes, unlessAborted applied fun s =>
    if blob.off + bytes.length < blob.data.length then { s with ackPending := true }
    else { s with ackPending := true, rx := { s.rx with rxCurrent := none } })

/-- `tcp_recv` of `len` bytes; a request of zero bytes changes nothing and reports no bytes. -/
def tcpRecv (s : Stream) (len : Nat) : Received × Stream :=
  if len = 0 then (.data [], s)
  else if s.terminalError ≠ 0 then (.error s.terminalError, s)
  else
    match nsockTcpRxCurrent s.rx with
    | (none, _) =>
      (if s.rx.peerEof || s.status = .closed then .eof else .error eagain, s)
    | (some blob, rx) => recvBlob s rx blob len

/-- The FIN of `tcp_close`: deferred behind unsent payload, else queued at `sent_seq`. -/
def closeFin (s : Stream) : Bool × Stream :=
  if Serial.lt s.sentSeq (s.sndbuf.headSeq + BitVec.ofNat 32 s.sndbuf.len) then
    (true, { s with finDeferred := true })
  else
    match tcpEnqueueFragment s true s.sentSeq with
    | (false, s) => (false, s)
    | (true, s) => (true, { s with sentSeq := s.sentSeq + 1 })

/-- Timers of `tcp_close` once the FIN is placed. -/
def closeTimers (s : Stream) : Bool × Stream :=
  if s.sndUna ≠ s.sentSeq ∨ s.closeDeadline ≠ 0 then armOrAbort s true else (true, s)

/-- `tcp_close` of a stream that still sends: place the FIN and enter `next`. -/
def closeSending (s : Stream) (next : Status) : Stream :=
  match closeFin s with
  | (false, s) => tcpAbortStream s enobufs true
  | (true, s) =>
    unlessAborted (closeTimers { s with retries := 0, status := next }) fun s =>
      if next = .lastAck then tcpDrainRecv s else s

/-- The close deadline a non-zero linger time sets. -/
def closeLinger (s : Stream) : Stream :=
  if s.lingerEnabled && s.closeDeadline = 0 then
    let (delay, s) := s.ask
    let (now, s) := s.ask
    { s with closeDeadline := min (now + delay) (2 ^ 64 - 1) }
  else s

/-- `tcp_close` of a connection that is not reset. -/
def closeOrderly (s : Stream) : Stream :=
  match s.status with
  | .established | .synRecv => closeSending s .finWait1
  | .closeWait => closeSending s .lastAck
  | _ => s

/-- `tcp_close`, called by the owner after it marked the socket closed by the application. -/
def tcpClose (s : Stream) : Stream :=
  let s := { s with appClosed := true }
  match s.status with
  | .closed | .synSent =>
    { tcpDrainRecv (tcpDrainSend { s with status := .closed }) with freed := true }
  | .listen => { s with freed := true }
  | _ =>
    if s.lingerEnabled && s.lingerSeconds = 0 then tcpAbortStream s econnreset true
    else closeOrderly (closeLinger s)

/-- Data part of a retransmission timeout. -/
def timeoutData (s : Stream) : Stream :=
  let flightEnd := tcpSackPayloadFlightEnd s
  { s with
    ccFlights := s.ccFlights ++ [(flightEnd - s.sndUna).toNat]
    toScoreboard := tcpSackOnRto s.toScoreboard flightEnd }

/-- A retransmission timeout with something in flight: `resend` schedules what is sent again. -/
def tcpTimeout (s : Stream) (resend : Stream → Stream) : Stream :=
  if s.sndUna = s.sentSeq then s
  else if s.retries ≥ tcpDataMaxRetries then tcpAbortStream s etimedout true
  else
    (armOrAbort (resend { s with retries := s.retries + 1 }) true).2

/-- What the timer does in a state, the close deadline aside. -/
def timerExpired (s : Stream) : Stream :=
  match s.status with
  | .timeWait =>
    let s := tcpDrainSend (tcpDrainRecv { s with status := .closed })
    { s with freed := s.freed || s.appClosed }
  | .established | .closeWait => tcpTimeout s timeoutData
  | .finWait1 | .lastAck | .closing =>
    tcpTimeout s fun s =>
      if s.sndbuf.len > 0 then timeoutData s else (tcpEnqueueFragment s true s.sndUna).2
  | _ => s

/-- `tcp_timer_cb` in the synchronized states. -/
def tcpTimerCb (s : Stream) (now : Nat) : Stream :=
  let s := { s with timerArmed := false }
  if s.closeDeadline ≠ 0 ∧ now ≥ s.closeDeadline then tcpAbortStream s etimedout true
  else timerExpired s

end SnowTG.Tcp
