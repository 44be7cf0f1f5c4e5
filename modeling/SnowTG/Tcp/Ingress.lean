import SnowTG.Tcp.Stream

/-!
# Segment arrival in the synchronized states

`tcp_process_peer_ack_ex` with the recovery decisions it makes on the
scoreboard, the handlers of the synchronized states and the dispatch of
`tcp_ingress`.
-/

namespace SnowTG.Tcp

open SnowTG.Lib

/-- `tcp_sack_payload_flight_end`. -/
def tcpSackPayloadFlightEnd (s : Stream) : Seq :=
  let bufferEnd := s.sndbuf.headSeq + BitVec.ofNat 32 s.sndbuf.len
  if Serial.lt s.sentSeq bufferEnd then s.sentSeq else bufferEnd

/-- `tcp_update_snd_wnd_local`. -/
def tcpUpdateSndWndLocal (s : Stream) (segSeq segAck : Seq) (segWnd : BitVec 16) (scale : Nat) :
    Stream :=
  if !s.sndWndValid || Serial.lt s.sndWl1 segSeq ||
      (s.sndWl1 = segSeq && Serial.leq s.sndWl2 segAck) then
    { s with
      sndWnd := (segWnd.setWidth 32 <<< scale).toNat
      sndWl1 := segSeq
      sndWl2 := segAck
      sndWndValid := true }
  else s

/-- NewReno part of `tcp_process_peer_ack_ex`: leave recovery, or send the next hole again. -/
def ackNewreno (tp : Scoreboard) (oldMode : RecoveryMode) (progressed : Bool) (ack flightEnd : Seq) :
    Scoreboard :=
  if oldMode = .newreno && progressed then
    if !Serial.lt ack tp.recoveryPoint then
      tcpSackCancelCandidate { tp with mode := .normal, dupAcks := 0 }
    else (tcpSackScheduleNewrenoPartial tp flightEnd).2
  else tp

/-- Recovery entry of `tcp_process_peer_ack_ex`; the flag says that recovery was entered. -/
def ackEnterRecovery (tp : Scoreboard) (newInformation progressed classicDup : Bool)
    (flightEnd : Seq) : Bool × Scoreboard :=
  if tp.sackPermitted && newInformation && tp.mode = .normal then
    let tp := { tp with dupAcks := tp.dupAcks + 1 }
    if tp.dupAcks ≥ tcpSackDupThresh || tcpSackIsLost tp tp.sndUna then
      (true, (tcpSackSetPipe (tcpSackEnterRecovery tp .sack flightEnd) flightEnd).2)
    else (false, (tcpSackSetPipe { tp with limitedTransmit := true } flightEnd).2)
  else if !tp.sackPermitted && !progressed && classicDup && Serial.lt tp.sndUna flightEnd &&
      tp.mode = .normal then
    let tp := { tp with dupAcks := tp.dupAcks + 1 }
    if tp.dupAcks ≥ tcpSackDupThresh then (true, tcpSackEnterRecovery tp .newreno flightEnd)
    else (false, tp)
  else (false, tp)

/-- What `tcp_process_peer_ack_ex` schedules once the mode is settled. -/
def ackSchedule (tp : Scoreboard) (newInformation progressed : Bool) (flightEnd sndbufEnd : Seq) :
    Scoreboard :=
  if tp.mode = .sack then (tcpSackSetPipe tp flightEnd).2
  else if tp.mode = .rto && (progressed || newInformation) then
    (tcpSackScheduleNext tp sndbufEnd false).2
  else tp

/-- The scoreboard after an accepted acknowledgement, and whether it entered recovery. -/
def ackScoreboard (tp : Scoreboard) (oldMode : RecoveryMode) (progressed classicDup : Bool)
    (ack : Seq) (sacks : List SackBlock) (flightEnd sndbufEnd : Seq) : Bool × Scoreboard :=
  let (result, tp) := tcpSackUpdate tp ack (if tp.sackPermitted then sacks else []) flightEnd
  let tp := ackNewreno tp oldMode progressed ack flightEnd
  let tp := if progressed then { tp with dupAcks := 0 } else tp
  let (entered, tp) :=
    ackEnterRecovery tp result.newSackInformation progressed classicDup flightEnd
  (entered, ackSchedule tp result.newSackInformation progressed flightEnd sndbufEnd)

/-- Timer part of `tcp_process_peer_ack_ex`; `false` when the stream was aborted. -/
def ackTimer (s : Stream) (progressed : Bool) : Bool × Stream :=
  if progressed && s.sndUna = s.sentSeq then
    let armed := s.timerArmed &&
      (s.status = .timeWait || s.status = .synSent || s.status = .synRecv)
    (true, { s with timerArmed := armed, retries := 0 })
  else if progressed then
    armOrAbort { s with retries := 0 } true
  else (true, s)

/-- Retire the acknowledged bytes. -/
def ackRetire (s : Stream) (ack : Seq) : Stream :=
  if ack = s.sndUna then s
  else
    { s with
      sndbuf := tcpSndbufRemove s.sndbuf (min (ack - s.sndUna).toNat s.sndbuf.len)
      sndUna := ack }

/-- `tcp_process_peer_ack_ex` of an acknowledgement number in range, once the window is updated. -/
def ackAccept (s : Stream) (ack : Seq) (sacks : List SackBlock) (classicDup : Bool) :
    Bool × Stream :=
  let flightEnd := tcpSackPayloadFlightEnd s
  let flightSize := (flightEnd - s.sndUna).toNat
  let progressed := ack ≠ s.sndUna
  let oldMode := s.mode
  let s := ackRetire s ack
  let (entered, tp) := ackScoreboard s.toScoreboard oldMode progressed classicDup ack sacks
    flightEnd (s.sndbuf.headSeq + BitVec.ofNat 32 s.sndbuf.len)
  ackTimer
    { s with
      toScoreboard := tp
      ccFlights := s.ccFlights ++ if entered then [flightSize, flightSize] else [flightSize] }
    progressed

/-- `tcp_process_peer_ack_ex`; the SACK blocks are those of the segment.  `false` when the stream
was aborted. -/
def tcpProcessPeerAckEx (s : Stream) (ack : Seq) (sacks : List SackBlock)
    (classicDup applyWindow : Bool) (segSeq : Seq) (segWnd : BitVec 16) (scale : Nat) :
    Bool × Stream :=
  if Serial.lt ack s.sndUna || Serial.gt ack s.sentSeq then (true, s)
  else
    let s := if applyWindow then tcpUpdateSndWndLocal s segSeq ack segWnd scale else s
    ackAccept s ack sacks classicDup

/-- `tcp_process_peer_ack`: states that do not use the advertised window. -/
def tcpProcessPeerAck (s : Stream) (seg : Segment) : Bool × Stream :=
  tcpProcessPeerAckEx s seg.ackNum seg.sacks false false 0 0 0

/-- `tcp_state_established`. -/
def tcpStateEstablished (s : Stream) (seg : Segment) : Stream :=
  if seg.ack then
    let advertised := (seg.window.setWidth 32 <<< s.sndWscale).toNat
    let classicDup := seg.payload.isEmpty && !seg.fin && !seg.syn && s.sndWndValid &&
      advertised = s.sndWnd
    unlessAborted
      (tcpProcessPeerAckEx s seg.ackNum seg.sacks classicDup true seg.seq seg.window s.sndWscale)
      fun s => (tcpReceiveStreamSegment s seg).2
  else (tcpReceiveStreamSegment s seg).2

/-- The acknowledgement, then the payload. -/
def tcpStateAckThenData (s : Stream) (seg : Segment) : Stream :=
  if seg.ack then
    unlessAborted (tcpProcessPeerAck s seg) fun s => (tcpReceiveStreamSegment s seg).2
  else (tcpReceiveStreamSegment s seg).2

/-- `tcp_state_close_wait`. -/
def tcpStateCloseWait : Stream → Segment → Stream := tcpStateAckThenData

/-- `tcp_state_fin_wait_2`. -/
def tcpStateFinWait2 : Stream → Segment → Stream := tcpStateAckThenData

/-- `tcp_state_time_wait`. -/
def tcpStateTimeWait (s : Stream) (seg : Segment) : Stream := (tcpReceiveStreamSegment s seg).2

/-- The payload, then the acknowledgement, and `final` if that is the one of `sent_seq`: the shape
of `tcp_state_last_ack` and `tcp_state_closing`. -/
def tcpStateFinal (final : Stream → Stream) (s : Stream) (seg : Segment) : Stream :=
  unlessAborted (tcpReceiveStreamSegment s seg) fun s =>
    if !seg.ack then s
    else
      unlessAborted (tcpProcessPeerAck s seg) fun s =>
        if seg.ackNum ≠ s.sentSeq then s else final s

/-- Last lines of `tcp_state_last_ack`. -/
def tcpLastAckDone (s : Stream) : Stream :=
  let s := tcpDrainRecv (tcpDrainSend { s with status := .closed })
  { s with freed := s.freed || s.appClosed }

/-- `tcp_state_last_ack`. -/
def tcpStateLastAck : Stream → Segment → Stream := tcpStateFinal tcpLastAckDone

/-- `tcp_state_closing`. -/
def tcpStateClosing : Stream → Segment → Stream := tcpStateFinal fun s => (tcpEnterTimeWait s).2

/-- The move of `tcp_state_fin_wait_1` to FIN_WAIT_2; `false` when the stream was aborted. -/
def tcpEnterFinWait2 (s : Stream) : Bool × Stream :=
  let (now, s) := s.ask
  let (timeout, s) := s.ask
  let deadline := min (now + timeout) (2 ^ 64 - 1)
  let closeDeadline :=
    if s.closeDeadline = 0 ∨ deadline < s.closeDeadline then deadline else s.closeDeadline
  armOrAbort { s with status := .finWait2, closeDeadline := closeDeadline } true

/-- `tcp_state_fin_wait_1`. -/
def tcpStateFinWait1 (s : Stream) (seg : Segment) : Stream :=
  if seg.ack then
    unlessAborted (tcpProcessPeerAck s seg) fun s =>
      if seg.ackNum = s.sentSeq then
        unlessAborted (tcpEnterFinWait2 s) fun s => (tcpReceiveStreamSegment s seg).2
      else (tcpReceiveStreamSegment s seg).2
  else (tcpReceiveStreamSegment s seg).2

/-- `tcp_rst_acceptable` of a segment with the RST flag. -/
def tcpRstAcceptable (s : Stream) (seg : Segment) : Bool :=
  match s.status with
  | .synSent => seg.ack && seg.ackNum = s.sentSeq + 1
  | .timeWait => false
  | _ => seg.seq = s.rx.recvAck

/-- The table `tcp_state_ops` for the synchronized states. -/
def tcpStateHandle (s : Stream) (seg : Segment) : Stream :=
  match s.status with
  | .established => tcpStateEstablished s seg
  | .closeWait => tcpStateCloseWait s seg
  | .lastAck => tcpStateLastAck s seg
  | .timeWait => tcpStateTimeWait s seg
  | .closing => tcpStateClosing s seg
  | .finWait1 => tcpStateFinWait1 s seg
  | .finWait2 => tcpStateFinWait2 s seg
  | .closed | .listen | .synSent | .synRecv => s

/-- `tcp_ingress` of a segment that matches the stream.  The verdict of the timestamp check is
answered by the environment: zero passes, one is a missing option, anything else a stale
timestamp, which counts only for an acceptable segment at or behind `recv_ack`. -/
def tcpIngress (s : Stream) (seg : Segment) : Stream :=
  if s.status = .closed then s
  else if seg.rst then
    if tcpRstAcceptable s seg then tcpAbortStream s econnreset false else s
  else
    let (verdict, s) := s.ask
    if verdict = 0 then tcpStateHandle s seg
    else if verdict = 1 then s
    else if s.status = .established && tcpSegmentAcceptable s.rx seg.seq seg.payload.length seg.fin &&
        !Serial.lt seg.seq s.rx.recvAck then
      (tcpEnqueueFragment { s with rx := tcpSackNoteDuplicate s.rx seg.seq seg.payload.length }
        false s.sentSeq).2
    else tcpStateHandle s seg

end SnowTG.Tcp
