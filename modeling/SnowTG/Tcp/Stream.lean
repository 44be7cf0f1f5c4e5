import SnowTG.Tcp.Receive
import SnowTG.Tcp.Sack
import SnowTG.Tcp.Sndbuf

/-!
# A synchronized TCP stream

The fields of `struct nsock` and `struct tcp_stream` that the synchronized
states use, and the functions of `tcp.c` that acknowledgements, received
segments and teardown go through.  The receive side is a record of its own; the
scoreboard fields are shared with `tcp_sack.c`.  Segments handed to the output
ring are appended to a log.
-/

namespace SnowTG.Tcp

/-- `ECONNRESET`. -/
def econnreset : Nat := 104

/-- `ETIMEDOUT`. -/
def etimedout : Nat := 110

/-- `EPIPE`. -/
def epipe : Nat := 32

/-- A queued control segment (`struct tcp_fragment`).  Only the handshake queues one with the SYN
flag or without the ACK flag. -/
structure Fragment where
  seq : Seq
  ack : Seq
  fin : Bool
  rxWin : Nat
  syn : Bool := false
  acks : Bool := true
  deriving DecidableEq, Repr

/-- A segment handed to the output ring; `optLen` is the size of a data segment's options in
words. -/
structure WireSeg where
  seq : Seq
  ack : Seq
  fin : Bool := false
  rst : Bool := false
  syn : Bool := false
  acks : Bool := true
  payload : List UInt8 := []
  optLen : Nat := 0
  deriving DecidableEq, Repr

/-- A received segment after checksum and option parsing. -/
structure Segment where
  seq : Seq
  ackNum : Seq
  ack : Bool := true
  syn : Bool := false
  fin : Bool := false
  rst : Bool := false
  window : BitVec 16 := 0
  payload : List UInt8 := []
  sacks : List SackBlock := []
  deriving DecidableEq, Repr

/-- One stream.  `out` is the log of emitted segments, `ccFlights` the flight sizes reported to
congestion control; answers of the environment other than the receive path's come from `env`. -/
structure Stream extends Scoreboard where
  status : Status := .established
  terminalError : Nat := 0
  appClosed : Bool := false
  freed : Bool := false
  rx : Rx
  sentSeq : Seq
  sndbuf : Sndbuf
  sndWnd : Nat := 0
  sndWl1 : Seq := 0
  sndWl2 : Seq := 0
  sndWndValid : Bool := false
  sndWscale : Nat := 0
  rcvWscale : Nat := 0
  finDeferred : Bool := false
  retries : Nat := 0
  closeDeadline : Nat := 0
  timerArmed : Bool := false
  lingerEnabled : Bool := false
  lingerSeconds : Nat := 0
  nodelay : Bool := false
  txQueue : List Fragment := []
  ackPending : Bool := false
  out : List WireSeg := []
  ccFlights : List Nat := []
  /-- `tcp_options_note_receive_progress` was called. -/
  tsNoted : Bool := false
  deriving DecidableEq, Repr

/-- Ask the environment one question. -/
def Stream.ask (s : Stream) : Nat × Stream :=
  (s.env.ask.1, { s with env := s.env.ask.2 })

/-- What surrounds one event: the answers of the environment on either path and the gauges the
stream shares with the other sockets of its owner. -/
structure Surroundings where
  env : Tape := []
  rxEnv : Tape := []
  owner : OfoOwner := {}
  deriving DecidableEq, Repr

/-- The stream in given surroundings. -/
def Stream.within (s : Stream) (w : Surroundings) : Stream :=
  { s with env := w.env, rx := { s.rx with env := w.rxEnv, owner := w.owner } }

/-- `tcp_drain_send`. -/
def tcpDrainSend (s : Stream) : Stream :=
  { s with
    toScoreboard := tcpSackStateReset { s.toScoreboard with sndUna := s.sentSeq } s.sentSeq
    txQueue := []
    ackPending := false
    sndbuf := tcpSndbufInit s.sentSeq }

/-- `tcp_drain_recv`. -/
def tcpDrainRecv (s : Stream) : Stream :=
  { s with
    rx := { tcpOfoPurge { s.rx with rxQueue := [], rxCurrent := none } with rcvbufUsed := 0 } }

/-- `owner_timer_arm_at` and `owner_timer_arm_after_ms` on the timer of the stream. -/
def tcpArmTimer (s : Stream) : Bool × Stream :=
  let (armed, s) := s.ask
  if armed = 0 then (false, s) else (true, { s with timerArmed := true })

/-- `tcp_try_send_abort_reset`; one answer stands for the pool, the resolver and the ring. -/
def tcpTrySendAbortReset (s : Stream) : Stream :=
  let (sent, s) := s.ask
  if sent = 0 then s
  else { s with out := s.out ++ [{ seq := s.sentSeq, ack := s.rx.recvAck, rst := true }] }

/-- The states in which `tcp_abort_stream` notifies the peer. -/
def Status.resetsPeer : Status → Bool
  | .closed | .listen | .synSent | .timeWait => false
  | _ => true

/-- `tcp_abort_stream`. -/
def tcpAbortStream (s : Stream) (error : Nat) (sendReset : Bool) : Stream :=
  let old := s.status
  let s := { s with timerArmed := false, closeDeadline := 0 }
  let s := if sendReset && old.resetsPeer then tcpTrySendAbortReset s else s
  let s := tcpDrainRecv (tcpDrainSend { s with status := .closed })
  { s with terminalError := error, freed := s.freed || s.appClosed || old = .synRecv }

/-- Arm the timer of the stream, and abort the stream when that fails. -/
def armOrAbort (s : Stream) (sendReset : Bool) : Bool × Stream :=
  match tcpArmTimer s with
  | (true, s) => (true, s)
  | (false, s) => (false, tcpAbortStream s enobufs sendReset)

/-- Go on with a stream that was not aborted. -/
def unlessAborted (result : Bool × Stream) (next : Stream → Stream) : Stream :=
  if result.1 then next result.2 else result.2

/-- `tcp_enter_time_wait`; `false` when the stream was aborted. -/
def tcpEnterTimeWait (s : Stream) : Bool × Stream :=
  armOrAbort { s with status := .timeWait, retries := 0, closeDeadline := 0 } false

/-- `tcp_apply_peer_eof`. -/
def tcpApplyPeerEof (s : Stream) : Bool × Stream :=
  if !s.rx.peerEof then (true, s)
  else
    match s.status with
    | .established => (true, { s with status := .closeWait })
    | .finWait1 => (true, { s with status := .closing })
    | .finWait2 => tcpEnterTimeWait s
    | _ => (true, s)

/-- The receive path goes on to the payload: the peer's FIN is not consumed and the segment meets
the window. -/
def Rx.takes (rx : Rx) (status : Status) (seq : Seq) (payloadLen : Nat) (hasFin : Bool) : Bool :=
  !(status.peerFinConsumed || rx.peerEof) && tcpSegmentAcceptable rx seq payloadLen hasFin

/-- `tcp_receive_stream_range`. -/
def tcpReceiveStreamRange (s : Stream) (seq : Seq) (payload : List UInt8) (hasFin : Bool) :
    Bool × Stream :=
  let rx := tcpReceiveRange s.rx s.status seq payload hasFin
  if s.rx.takes s.status seq payload.length hasFin then tcpApplyPeerEof { s with rx := rx }
  else (true, { s with rx := rx })

/-- `tcp_wire_rcv_wnd` of a segment without SYN. -/
def tcpWireRcvWnd (s : Stream) : Nat := min (tcpRcvWnd s.rx / 2 ^ s.rcvWscale) (2 ^ 16 - 1)

/-- `tcp_options_apply_established`: whether the options fit, and their size in words.  Which of
the one-shot SACK notes the header carried away is answered by the environment. -/
def tcpOptionsApplyEstablished (s : Stream) : (Bool × Nat) × Stream :=
  let (fits, s) := s.ask
  let (words, s) := s.ask
  let (carried, s) := s.ask
  ((fits ≠ 0, words % 11),
    { s with
      rx := { s.rx with
        dsackPending := s.rx.dsackPending && carried = 0
        sackRecentValid := s.rx.sackRecentValid && carried = 0 } })

/-- Fragments the control queue holds: a ring gives one of its places up. -/
def Stream.txCapacity (s : Stream) : Nat := if s.rx.ioRings then ringSize - 1 else ringSize

/-- `nsock_tcp_tx_enqueue`. -/
def nsockTcpTxEnqueue (s : Stream) (f : Fragment) : Bool × Stream :=
  if s.txQueue.length ≥ s.txCapacity then (false, s)
  else (true, { s with txQueue := s.txQueue ++ [f] })

/-- `tcp_make_fragment` followed by `tcp_enqueue_fragment`, as every caller combines them; the
acknowledgement number is the current one. -/
def tcpEnqueueFragment (s : Stream) (fin : Bool) (seq : Seq) : Bool × Stream :=
  let (fragment, s) := s.ask
  if fragment = 0 then (false, s)
  else
    let f : Fragment := { seq := seq, ack := s.rx.recvAck, fin := fin, rxWin := tcpWireRcvWnd s }
    nsockTcpTxEnqueue (tcpOptionsApplyEstablished s).2 f

/-- `tcp_receive_stream_segment`. -/
def tcpReceiveStreamSegment (s : Stream) (seg : Segment) : Bool × Stream :=
  if seg.payload = [] ∧ seg.fin = false then (true, s)
  else if seg.syn then (true, s)
  else
    let oldRecvAck := s.rx.recvAck
    match tcpReceiveStreamRange s seg.seq seg.payload seg.fin with
    | (false, s) => (false, s)
    | (true, s) =>
      let s := { s with tsNoted := s.tsNoted || s.rx.recvAck ≠ oldRecvAck }
      if !seg.fin && seg.seq = oldRecvAck && s.rx.recvAck ≠ oldRecvAck && s.rx.ofo.isEmpty &&
          !s.rx.dsackPending && !s.rx.peerEof then
        (true, { s with ackPending := true })
      else (true, (tcpEnqueueFragment s false s.sentSeq).2)

end SnowTG.Tcp
