import SnowTG.Tcp.Ofo

/-!
# The shared stream receive path

Window acceptance, duplicate notes for SACK, delivery into the application
queue, draining of the out-of-order queue and the payload/FIN range handler of
`tcp.c`.  State changes of the connection that follow a peer FIN are made by the
stream, not here.
-/

namespace SnowTG.Tcp

open SnowTG.Lib

/-- `tcp_segment_acceptable`. -/
def tcpSegmentAcceptable (rx : Rx) (seq : Seq) (payloadLen : Nat) (hasFin : Bool) : Bool :=
  let rcvNxt := rx.recvAck
  let rcvWnd := tcpRcvWnd rx
  let segLen := payloadLen + if hasFin then 1 else 0
  let segEnd := seq + BitVec.ofNat 32 segLen
  if rcvWnd = 0 then segLen == 0 && seq == rcvNxt
  else if segLen = 0 then
    !Serial.lt seq rcvNxt && Serial.lt seq (rcvNxt + BitVec.ofNat 32 rcvWnd)
  else
    Serial.lt seq (rcvNxt + BitVec.ofNat 32 rcvWnd) && Serial.gt segEnd rcvNxt

/-- Overlap scan of `tcp_sack_note_duplicate` over the out-of-order nodes. -/
def tcpSackDuplicateIn (seq stop : Seq) : List OfoSeg → Option SackBlock
  | [] => none
  | seg :: rest =>
    if !Serial.lt seg.seq stop then none
    else if !Serial.lt seq seg.endSeq then tcpSackDuplicateIn seq stop rest
    else
      let left := if Serial.gt seq seg.seq then seq else seg.seq
      let right := if Serial.lt stop seg.endSeq then stop else seg.endSeq
      if Serial.lt left right then some ⟨left, right⟩ else tcpSackDuplicateIn seq stop rest

/-- `tcp_sack_note_duplicate`. -/
def tcpSackNoteDuplicate (rx : Rx) (seq : Seq) (len : Nat) : Rx :=
  let stop := seq + BitVec.ofNat 32 len
  let rx := { rx with dsackPending := false }
  if !rx.sackPermitted || len = 0 then rx
  else
    let right := if Serial.lt stop rx.recvAck then stop else rx.recvAck
    if Serial.lt seq rx.recvAck && Serial.lt seq right then
      { rx with dsackBlock := ⟨seq, right⟩, dsackPending := true }
    else
      match tcpSackDuplicateIn seq stop rx.ofo with
      | some block => { rx with dsackBlock := block, dsackPending := true }
      | none => rx

/-- `tcp_sack_note_recent`; the last node that overlaps the trigger wins. -/
def tcpSackNoteRecent (rx : Rx) (seq : Seq) (len : Nat) : Rx :=
  let stop := seq + BitVec.ofNat 32 len
  let overlaps := rx.ofo.filter fun seg =>
    seg.data.length ≠ 0 && Serial.gt seg.endSeq seq && Serial.gt stop seg.seq
  match if len = 0 then none else overlaps.getLast? with
  | none => { rx with sackRecentValid := false }
  | some seg => { rx with
      sackRecent := ⟨if Serial.gt seg.seq seq then seg.seq else seq,
        if Serial.lt seg.endSeq stop then seg.endSeq else stop⟩
      sackRecentValid := true }

/-- `nsock_tcp_rx_enqueue`. -/
def nsockTcpRxEnqueue (rx : Rx) (blob : RxBlob) : Bool × Rx :=
  if rx.ioRings then
    let (room, rx) := rx.ask
    if room = 0 then (false, rx) else (true, { rx with rxQueue := rx.rxQueue ++ [blob] })
  else if rx.rxQueue.length ≥ ringSize then (false, rx)
  else (true, { rx with rxQueue := rx.rxQueue ++ [blob] })

/-- `tcp_deliver_payload`; `true` is the return code zero. -/
def tcpDeliverPayload (rx : Rx) (data : List UInt8) : Bool × Rx :=
  if data.length = 0 then (true, rx)
  else if data.length > tcpMemoryChunkSize then (false, rx)
  else
    let (blob, rx) := rx.ask
    if blob = 0 then (false, rx)
    else
      let (storage, rx) := rx.ask
      if storage = 0 then (false, rx)
      else nsockTcpRxEnqueue rx ⟨data, 0⟩

/-- `tcp_ofo_insert`. -/
def tcpOfoInsert (rx : Rx) (seq : Seq) (data : List UInt8) (hasFin : Bool) : Rx :=
  let rx := tcpSackNoteDuplicate rx seq data.length
  let rx := (tcpOfoQueueInsert rx seq data hasFin).2
  tcpSackNoteRecent rx seq data.length

/-- Node left at the head by one round of `tcp_ofo_drain` after the prefix below `recv_ack` is cut
off, with the bookkeeping of `tcp_ofo_rekey_after_trim`; `none` when nothing of it is new. -/
def tcpOfoTrimHead (rx : Rx) (seg : OfoSeg) : Option OfoSeg × Rx :=
  if Serial.lt seg.seq rx.recvAck then
    let skip := (rx.recvAck - seg.seq).toNat
    let len := seg.data.length
    if skip > len || (skip = len && !seg.hasFin) then
      (none, tcpOfoUnlink (tcpOfoRcvbufSub rx len) len)
    else
      let rx := { rx with ofoBytes := rx.ofoBytes - skip }
      let rx := rx.count fun state => tcpOfoMetricsRelease state skip false
      (some ⟨seg.seq + BitVec.ofNat 32 skip, seg.data.drop skip, seg.hasFin⟩,
        tcpOfoRcvbufSub rx skip)
  else (some seg, rx)

/-- Loop of `tcp_ofo_drain` over the nodes not yet visited. -/
def tcpOfoDrainLoop : Rx → List OfoSeg → Rx
  | rx, [] => { rx with ofo := [] }
  | rx, seg :: rest =>
    if Serial.gt seg.seq rx.recvAck then { rx with ofo := seg :: rest }
    else
      match tcpOfoTrimHead rx seg with
      | (none, rx) => tcpOfoDrainLoop rx rest
      | (some seg, rx) =>
        match tcpDeliverPayload rx seg.data with
        | (false, rx) => { rx with ofo := seg :: rest }
        | (true, rx) =>
          let rx := tcpOfoUnlink rx seg.data.length
          let rx := { rx with recvAck := rx.recvAck + BitVec.ofNat 32 seg.data.length }
          if seg.hasFin then
            tcpOfoPurge { rx with recvAck := rx.recvAck + 1, peerEof := true, ofo := rest }
          else tcpOfoDrainLoop rx rest

/-- `tcp_ofo_drain` with the callbacks of the stream receive path. -/
def tcpOfoDrain (rx : Rx) : Rx := tcpOfoDrainLoop rx rx.ofo

/-- The states in which `tcp_receive_stream_range` takes the peer FIN as already consumed. -/
def Status.peerFinConsumed : Status → Bool
  | .closeWait | .lastAck | .closing | .timeWait => true
  | _ => false

/-- `tcp_receive_stream_range` up to the state transition of `tcp_apply_peer_eof`. -/
def tcpReceiveRange (rx : Rx) (status : Status) (seq : Seq) (payload : List UInt8)
    (hasFin : Bool) : Rx :=
  let rcvNxt := rx.recvAck
  let wndEnd := rcvNxt + BitVec.ofNat 32 (tcpRcvWnd rx)
  let rx := tcpSackNoteDuplicate rx seq payload.length
  let rx := if status.peerFinConsumed then { rx with peerEof := true } else rx
  if rx.peerEof then rx
  else if !tcpSegmentAcceptable rx seq payload.length hasFin then
    if !Serial.lt seq rcvNxt then tcpOfoRecordRcvWindowDrop rx seq payload.length hasFin else rx
  else
    let dataEnd := seq + BitVec.ofNat 32 payload.length
    let clipped := Serial.gt dataEnd wndEnd
    let payload := if clipped then payload.take (wndEnd - seq).toNat else payload
    let hasFin := hasFin && !clipped && Serial.lt dataEnd wndEnd
    if seq = rcvNxt then
      match tcpDeliverPayload rx payload with
      | (false, rx) => tcpOfoInsert rx seq payload hasFin
      | (true, rx) =>
        let rx := { rx with
          recvAck := rx.recvAck + BitVec.ofNat 32 payload.length
          rcvbufUsed := rx.rcvbufUsed + payload.length }
        if hasFin then tcpOfoPurge { rx with recvAck := rx.recvAck + 1, peerEof := true }
        else tcpOfoDrain rx
    else tcpOfoDrain (tcpOfoInsert rx seq payload hasFin)

end SnowTG.Tcp
