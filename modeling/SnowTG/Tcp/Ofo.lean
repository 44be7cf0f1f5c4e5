import SnowTG.Tcp.Types

/-!
# The out-of-order queue

State of the receive side of one stream and the reassembly queue of
`tcp_ofo.c`.  The queue is its doubly linked list here, and searches run along
that list.  The source searches the red-black tree over the nodes, which
`OfoTree` adds: it has them in the order of the list unless a FIN came inside a
buffered node.  The cursor of the insertion loop is the split of the list into
the nodes before it and the nodes from it on.

The owner's gauges and counters are part of the state because admission reads
them; streams of the same owner change them between two calls.
-/

namespace SnowTG.Tcp

open SnowTG.Lib

/-- `struct tcp_ofo_seg`; `data` is the live part, behind the trimmed bytes. -/
structure OfoSeg where
  seq : Seq
  data : List UInt8
  hasFin : Bool
  deriving DecidableEq, Repr

/-- Exclusive right edge of the payload of a node. -/
def OfoSeg.endSeq (seg : OfoSeg) : Seq := seg.seq + BitVec.ofNat 32 seg.data.length

/-- `struct tcp_rx_blob`. -/
structure RxBlob where
  data : List UInt8
  off : Nat
  deriving DecidableEq, Repr

/-- `struct tcp_ofo_owner_state`: gauges, counters and pressure latch of one owner. -/
structure OfoOwner where
  segmentsCurrent : Nat := 0
  segmentsPeak : Nat := 0
  bytesCurrent : Nat := 0
  bytesPeak : Nat := 0
  acceptedSegments : Nat := 0
  acceptedBytes : Nat := 0
  releasedSegments : Nat := 0
  releasedBytes : Nat := 0
  reorderDistanceMax : Nat := 0
  dropRcvbuf : Nat := 0
  dropSegLimit : Nat := 0
  dropByteLimit : Nat := 0
  dropOwnerLimit : Nat := 0
  dropAlloc : Nat := 0
  dropPressure : Nat := 0
  pressureTransitions : Nat := 0
  lifetimeSegmentsPeak : Nat := 0
  lifetimeBytesPeak : Nat := 0
  pressure : Bool := false
  deriving DecidableEq, Repr

/-- Receive-side fields of `struct tcp_stream`. -/
structure Rx where
  recvAck : Seq
  rcvbufSize : Nat := tcpRcvbufSize
  rcvbufUsed : Nat := 0
  peerEof : Bool := false
  rxCurrent : Option RxBlob := none
  rxQueue : List RxBlob := []
  /-- `io_mode == NSOCK_IO_RINGS`: the receive queue is a ring of the environment. -/
  ioRings : Bool := false
  ofo : List OfoSeg := []
  ofoCount : Nat := 0
  ofoBytes : Nat := 0
  ofoReorderDistancePeak : Nat := 0
  sackPermitted : Bool := false
  sackRecentValid : Bool := false
  sackRecent : SackBlock := ⟨0, 0⟩
  sackHistoryCount : Nat := 0
  dsackPending : Bool := false
  dsackBlock : SackBlock := ⟨0, 0⟩
  owner : OfoOwner := {}
  env : Tape := []
  deriving DecidableEq, Repr

/-- Ask the environment one question. -/
def Rx.ask (rx : Rx) : Nat × Rx := (rx.env.ask.1, { rx with env := rx.env.ask.2 })

/-- Apply an update to the owner's gauges and counters. -/
def Rx.count (rx : Rx) (f : OfoOwner → OfoOwner) : Rx := { rx with owner := f rx.owner }

/-- `tcp_rcv_wnd` and `tcp_ofo_rcv_wnd`, two copies of one computation. -/
def tcpRcvWnd (rx : Rx) : Nat :=
  if rx.rcvbufUsed ≥ rx.rcvbufSize then 0 else rx.rcvbufSize - rx.rcvbufUsed

/-- `tcp_ofo_set_pressure`. -/
def tcpOfoSetPressure (state : OfoOwner) (pressure : Bool) : OfoOwner :=
  if state.pressure = pressure then state
  else { state with pressure := pressure, pressureTransitions := state.pressureTransitions + 1 }

/-- `tcp_ofo_update_pressure`; the environment answers the two pool levels. -/
def tcpOfoUpdatePressure (rx : Rx) : Rx :=
  let (ofoAvailable, rx) := rx.ask
  let (payloadAvailable, rx) := rx.ask
  let enterBytes := tcpOfoOwnerMaxBytes * tcpOfoPressureEnterPercent / 100
  let exitBytes := tcpOfoOwnerMaxBytes * tcpOfoPressureExitPercent / 100
  rx.count fun state =>
    if !state.pressure then
      if ofoAvailable ≤ tcpMemoryLowWater || payloadAvailable ≤ tcpMemoryLowWater ||
          state.bytesCurrent ≥ enterBytes then
        tcpOfoSetPressure state true
      else state
    else if ofoAvailable ≥ tcpMemoryHighWater && payloadAvailable ≥ tcpMemoryHighWater &&
        state.bytesCurrent ≤ exitBytes then
      tcpOfoSetPressure state false
    else state

/-- `tcp_ofo_owner_can_reserve`. -/
def tcpOfoOwnerCanReserve (state : OfoOwner) (bytes : Nat) : Bool :=
  bytes = 0 ||
    !(state.bytesCurrent > tcpOfoOwnerMaxBytes || bytes > tcpOfoOwnerMaxBytes - state.bytesCurrent)

/-- `tcp_ofo_metrics_release`; both gauges saturate at zero. -/
def tcpOfoMetricsRelease (state : OfoOwner) (bytes : Nat) (segment : Bool) : OfoOwner :=
  let state := { state with
    bytesCurrent := state.bytesCurrent - bytes
    releasedBytes := state.releasedBytes + bytes }
  if segment then
    { state with
      segmentsCurrent := state.segmentsCurrent - 1
      releasedSegments := state.releasedSegments + 1 }
  else state

/-- `tcp_ofo_metrics_accept`. -/
def tcpOfoMetricsAccept (state : OfoOwner) (bytes : Nat) : OfoOwner :=
  let segments := state.segmentsCurrent + 1
  let total := state.bytesCurrent + bytes
  { state with
    segmentsCurrent := segments
    bytesCurrent := total
    lifetimeSegmentsPeak := max state.lifetimeSegmentsPeak segments
    lifetimeBytesPeak := max state.lifetimeBytesPeak total
    acceptedSegments := state.acceptedSegments + 1
    acceptedBytes := state.acceptedBytes + bytes
    segmentsPeak := max state.segmentsPeak segments
    bytesPeak := max state.bytesPeak total }

/-- `struct tcp_ofo_limits`. -/
structure OfoLimits where
  segments : Nat
  bytes : Nat
  deriving DecidableEq, Repr

/-- `tcp_ofo_effective_limits`. -/
def tcpOfoEffectiveLimits (rx : Rx) (reorderDistance : Nat) : OfoLimits × Rx :=
  let rx := tcpOfoUpdatePressure rx
  if !rx.owner.pressure then (⟨tcpOfoMaxSegs, tcpOfoMaxBytes⟩, rx)
  else if reorderDistance ≤ tcpOfoPressureNearDistance then (⟨8, 16 * 1024⟩, rx)
  else if reorderDistance ≤ tcpOfoPressureMediumDistance then (⟨16, 32 * 1024⟩, rx)
  else (⟨24, 48 * 1024⟩, rx)

/-- Nodes before and from the first node that can touch `seq`: `tcp_ofo_lower_bound`, moved one
node back when the predecessor reaches beyond `seq`. -/
def tcpOfoCursor (ofo : List OfoSeg) (seq : Seq) : List OfoSeg × List OfoSeg :=
  let pre := ofo.takeWhile fun cur => Serial.lt cur.seq seq
  let rest := ofo.dropWhile fun cur => Serial.lt cur.seq seq
  match pre.getLast? with
  | some prev => if Serial.gt prev.endSeq seq then (pre.dropLast, prev :: rest) else (pre, rest)
  | none => (pre, rest)

/-- Loop of `tcp_ofo_range_buffered`; `none` is its early `return false`. -/
def tcpOfoRangeWalk (stop : Seq) :
    List OfoSeg → Seq → Option OfoSeg → Option (Seq × Option OfoSeg)
  | [], cursor, last => some (cursor, last)
  | node :: rest, cursor, last =>
    if !Serial.lt cursor stop then some (cursor, last)
    else if Serial.gt node.seq cursor then none
    else tcpOfoRangeWalk stop rest
      (if Serial.gt node.endSeq cursor then node.endSeq else cursor) (some node)

/-- `tcp_ofo_range_buffered`. -/
def tcpOfoRangeBuffered (rx : Rx) (seq : Seq) (len : Nat) (hasFin : Bool) : Bool :=
  let stop := seq + BitVec.ofNat 32 len
  match tcpOfoRangeWalk stop (tcpOfoCursor rx.ofo seq).2 seq none with
  | none => false
  | some (cursor, last) =>
    if Serial.lt cursor stop then false
    else if !hasFin then true
    else if last.any fun node => node.hasFin && node.endSeq == stop then true
    else (rx.ofo.dropWhile fun cur => Serial.lt cur.seq stop).head?.any fun node =>
      node.seq == stop && node.data.length == 0 && node.hasFin

/-- `tcp_ofo_record_rcv_window_drop`. -/
def tcpOfoRecordRcvWindowDrop (rx : Rx) (seq : Seq) (len : Nat) (hasFin : Bool) : Rx :=
  if tcpOfoRangeBuffered rx seq len hasFin then rx
  else rx.count fun state => { state with dropRcvbuf := state.dropRcvbuf + 1 }

/-- Bookkeeping of `tcp_ofo_unlink` for a node of `len` bytes; the caller updates the list. -/
def tcpOfoUnlink (rx : Rx) (len : Nat) : Rx :=
  let rx := { rx with ofoCount := rx.ofoCount - 1, ofoBytes := rx.ofoBytes - len }
  let rx := rx.count fun state => tcpOfoMetricsRelease state len true
  if rx.ofoCount = 0 then { rx with ofoReorderDistancePeak := 0 } else rx

/-- `tcp_ofo_rcvbuf_sub`, saturating at zero. -/
def tcpOfoRcvbufSub (rx : Rx) (bytes : Nat) : Rx :=
  { rx with rcvbufUsed := rx.rcvbufUsed - bytes }

/-- `tcp_ofo_purge`. -/
def tcpOfoPurge (rx : Rx) : Rx :=
  let rx := rx.ofo.foldl
    (fun rx seg => tcpOfoUnlink (tcpOfoRcvbufSub rx seg.data.length) seg.data.length) rx
  { rx with
    ofo := []
    ofoCount := 0
    ofoBytes := 0
    ofoReorderDistancePeak := 0
    sackRecentValid := false
    sackHistoryCount := 0
    dsackPending := false }

/-- The admission checks of `tcp_ofo_link`, with the drop counter of the first that fails. -/
def tcpOfoAdmit (rx : Rx) (limits : OfoLimits) (len : Nat) : Bool × Rx :=
  if len > tcpRcvWnd rx then
    (false, rx.count fun state => { state with dropRcvbuf := state.dropRcvbuf + 1 })
  else if rx.ofoCount ≥ limits.segments then
    (false, rx.count fun state => { state with
      dropSegLimit := state.dropSegLimit + 1
      dropPressure := state.dropPressure + if limits.segments < tcpOfoMaxSegs then 1 else 0 })
  else if rx.ofoBytes > limits.bytes || len > limits.bytes - rx.ofoBytes then
    (false, rx.count fun state => { state with
      dropByteLimit := state.dropByteLimit + 1
      dropPressure := state.dropPressure + if limits.bytes < tcpOfoMaxBytes then 1 else 0 })
  else if !tcpOfoOwnerCanReserve rx.owner len then
    (false, rx.count fun state => { state with dropOwnerLimit := state.dropOwnerLimit + 1 })
  else if len > tcpMemoryChunkSize then
    (false, rx.count fun state => { state with dropAlloc := state.dropAlloc + 1 })
  else
    let (descriptor, rx) := rx.ask
    if descriptor = 0 then
      (false, rx.count fun state => { state with dropAlloc := state.dropAlloc + 1 })
    else if len = 0 then (true, rx)
    else
      let (payload, rx) := rx.ask
      if payload = 0 then
        (false, rx.count fun state => { state with dropAlloc := state.dropAlloc + 1 })
      else (true, rx)

/-- `tcp_ofo_link`: insert one node between `pre` and `rest`, the node `before` being the head of
`rest`.  The result is `true` for the return code zero. -/
def tcpOfoLink (rx : Rx) (pre rest : List OfoSeg) (seq : Seq) (data : List UInt8)
    (hasFin : Bool) : Bool × Rx :=
  if data.length = 0 && !hasFin then (true, rx)
  else if rest.head?.any fun before => before.seq == seq then (true, rx)
  else
    let reorderDistance :=
      if Serial.gt seq rx.recvAck then (seq - rx.recvAck).toNat else 0
    let episodeDistance := max reorderDistance rx.ofoReorderDistancePeak
    let rx := rx.count fun state => { state with
      reorderDistanceMax := max state.reorderDistanceMax reorderDistance }
    let (limits, rx) := tcpOfoEffectiveLimits rx episodeDistance
    match tcpOfoAdmit rx limits data.length with
    | (false, rx) => (false, rx)
    | (true, rx) =>
      let rx := { rx with
        ofo := pre ++ (⟨seq, data, hasFin⟩ : OfoSeg) :: rest
        ofoCount := rx.ofoCount + 1
        ofoBytes := rx.ofoBytes + data.length
        ofoReorderDistancePeak := episodeDistance
        rcvbufUsed := rx.rcvbufUsed + data.length }
      let rx := rx.count fun state => tcpOfoMetricsAccept state data.length
      (true, tcpOfoUpdatePressure rx)

/-- Overlap loop of `tcp_ofo_queue_insert`; `rest` starts at `cur`. -/
def tcpOfoInsertLoop (hasFin : Bool) :
    Rx → List OfoSeg → List OfoSeg → Seq → List UInt8 → Bool × Rx
  | rx, pre, [], seq, data => tcpOfoLink rx pre [] seq data hasFin
  | rx, pre, cur :: rest, seq, data =>
    if data.length = 0 then tcpOfoLink rx pre (cur :: rest) seq data hasFin
    else
      let segEnd := seq + BitVec.ofNat 32 data.length
      let skip := (cur.endSeq - seq).toNat
      if Serial.leq cur.endSeq seq then
        tcpOfoInsertLoop hasFin rx (pre ++ [cur]) rest seq data
      else if Serial.leq segEnd cur.seq then
        tcpOfoLink rx pre (cur :: rest) seq data hasFin
      else if Serial.lt seq cur.seq then
        let left := (cur.seq - seq).toNat
        match tcpOfoLink rx pre (cur :: rest) seq (data.take left) false with
        | (false, rx) => (false, rx)
        | (true, rx) =>
          if skip > data.length || (skip = data.length && !hasFin) then (true, rx)
          else
            -- a linked left part is now the last node before `cur`
            tcpOfoInsertLoop hasFin rx (pre ++ [⟨seq, data.take left, false⟩, cur]) rest
              cur.endSeq (data.drop skip)
      else if skip > data.length || (skip = data.length && !hasFin) then (true, rx)
      else tcpOfoInsertLoop hasFin rx (pre ++ [cur]) rest cur.endSeq (data.drop skip)

/-- `tcp_ofo_queue_insert` behind its left trim. -/
def tcpOfoQueueAhead (rx : Rx) (seq : Seq) (data : List UInt8) (hasFin : Bool) : Bool × Rx :=
  let wndEnd := rx.recvAck + BitVec.ofNat 32 (tcpRcvWnd rx)
  if !Serial.lt seq wndEnd then
    if tcpOfoRangeBuffered rx seq data.length hasFin then (true, rx)
    else (true, tcpOfoRecordRcvWindowDrop rx seq data.length hasFin)
  else
    let clipped := Serial.gt (seq + BitVec.ofNat 32 data.length) wndEnd
    let data := if clipped then data.take (wndEnd - seq).toNat else data
    let hasFin := hasFin && !clipped
    if data.length = 0 && !hasFin then (true, rx)
    else
      let (pre, rest) := tcpOfoCursor rx.ofo seq
      tcpOfoInsertLoop hasFin rx pre rest seq data

/-- `tcp_ofo_queue_insert`, as it is while list and tree have the nodes in one order: no FIN came
inside a buffered node. -/
def tcpOfoQueueInsert (rx : Rx) (seq : Seq) (data : List UInt8) (hasFin : Bool) : Bool × Rx :=
  if Serial.lt seq rx.recvAck then
    let skip := (rx.recvAck - seq).toNat
    if skip > data.length || (skip = data.length && !hasFin) then (true, rx)
    else tcpOfoQueueAhead rx rx.recvAck (data.drop skip) hasFin
  else tcpOfoQueueAhead rx seq data hasFin

end SnowTG.Tcp
