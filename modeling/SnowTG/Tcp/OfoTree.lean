import SnowTG.Lib.RedBlack
import SnowTG.Tcp.Transmit

/-!
# The out-of-order queue with both of its representations

`tcp_ofo.c` links every node into a doubly linked list and into a red-black
tree keyed by sequence number.  The tree answers where a search starts, the list
is walked from there, and a node is linked into each of them by its own rule.
Here the two are kept apart.  The accounting of a stream is that of `Rx`, whose
queue field always holds the contents of the list.
-/

namespace SnowTG.Tcp

open SnowTG.Lib

/-- A node; its identity is that of the memory it occupies. -/
structure OfoNode where
  id : Nat
  seg : OfoSeg
  deriving DecidableEq, Repr

/-- The receive side of a stream with the list, head first, and the tree over the same nodes. -/
structure IndexedRx where
  rx : Rx
  queue : List OfoNode := []
  tree : RedBlack.Tree OfoNode := .leaf
  fresh : Nat := 0
  deriving DecidableEq, Repr

namespace IndexedRx

/-- The contents of nodes. -/
def segs (nodes : List OfoNode) : List OfoSeg := nodes.map OfoNode.seg

/-- `tcp_ofo_lower_bound`. -/
def lowerBound (ix : IndexedRx) (seq : Seq) : Option OfoNode :=
  RedBlack.lowerBound (fun cur => Serial.lt cur.seg.seq seq) ix.tree none

/-- The list before and from a node; the end of the list for no node. -/
def around (ix : IndexedRx) : Option OfoNode → List OfoNode × List OfoNode
  | none => (ix.queue, [])
  | some cur => (ix.queue.takeWhile (· ≠ cur), ix.queue.dropWhile (· ≠ cur))

/-- The node before a node in the tree, by `rb_prev`; by `rb_last` for the end of the tree. -/
def prevOf (ix : IndexedRx) : Option OfoNode → Option OfoNode
  | some node => RedBlack.prev node ix.tree
  | none => RedBlack.maximum ix.tree

/-- The node `tcp_ofo_queue_insert` starts at: the lower bound, or the node before it in the tree
when that reaches beyond `seq`. -/
def cursor (ix : IndexedRx) (seq : Seq) : Option OfoNode :=
  let before := ix.lowerBound seq
  match ix.prevOf before with
  | some node => if Serial.gt node.seg.endSeq seq then some node else before
  | none => before

/-- The nodes `tcp_ofo_range_buffered` walks: from the lower bound on, or from the node before it in
the list when that reaches beyond `seq`. -/
def walkFrom (ix : IndexedRx) (seq : Seq) : List OfoNode :=
  let (pre, rest) := ix.around (ix.lowerBound seq)
  match pre.getLast? with
  | some node => if Serial.gt node.seg.endSeq seq then node :: rest else rest
  | none => rest

/-- `tcp_ofo_range_buffered`. -/
def rangeBuffered (ix : IndexedRx) (seq : Seq) (len : Nat) (hasFin : Bool) : Bool :=
  let stop := seq + BitVec.ofNat 32 len
  match tcpOfoRangeWalk stop (segs (ix.walkFrom seq)) seq none with
  | none => false
  | some (cursor, last) =>
    if Serial.lt cursor stop then false
    else if !hasFin then true
    else if last.any fun node => node.hasFin && node.endSeq == stop then true
    else (ix.lowerBound stop).any fun node =>
      node.seg.seq == stop && node.seg.data.length == 0 && node.seg.hasFin

/-- `tcp_ofo_record_rcv_window_drop`. -/
def recordRcvWindowDrop (ix : IndexedRx) (seq : Seq) (len : Nat) (hasFin : Bool) : IndexedRx :=
  if ix.rangeBuffered seq len hasFin then ix
  else
    { ix with
      rx := ix.rx.count fun state => { state with dropRcvbuf := state.dropRcvbuf + 1 } }

/-- `tcp_ofo_tree_insert`. -/
def treeInsert (node : OfoNode) (tree : RedBlack.Tree OfoNode) : RedBlack.Tree OfoNode :=
  RedBlack.insert (fun cur => Serial.lt node.seg.seq cur.seg.seq) node tree

/-- `tcp_ofo_link` before the node `before`.  The accounting of `tcpOfoLink` says whether a node was
linked; if so, it enters the tree by its key and the list before `before`. -/
def link (ix : IndexedRx) (before : Option OfoNode) (seq : Seq) (data : List UInt8)
    (hasFin : Bool) : Bool × IndexedRx :=
  let (pre, rest) := ix.around before
  let (ok, rx) := tcpOfoLink ix.rx (segs pre) (segs rest) seq data hasFin
  if rx.ofoCount = ix.rx.ofoCount then (ok, { ix with rx := rx })
  else
    let node : OfoNode := { id := ix.fresh, seg := ⟨seq, data, hasFin⟩ }
    (ok,
      { rx := rx
        queue := pre ++ node :: rest
        tree := treeInsert node ix.tree
        fresh := ix.fresh + 1 })

/-- Overlap loop of `tcp_ofo_queue_insert` over `cur` and the nodes behind it in the list. -/
def insertLoop (hasFin : Bool) : IndexedRx → List OfoNode → Seq → List UInt8 → Bool × IndexedRx
  | ix, [], seq, data => ix.link none seq data hasFin
  | ix, cur :: rest, seq, data =>
    if data.length = 0 then ix.link (some cur) seq data hasFin
    else
      let segEnd := seq + BitVec.ofNat 32 data.length
      let skip := (cur.seg.endSeq - seq).toNat
      if Serial.leq cur.seg.endSeq seq then insertLoop hasFin ix rest seq data
      else if Serial.leq segEnd cur.seg.seq then ix.link (some cur) seq data hasFin
      else if Serial.lt seq cur.seg.seq then
        let left := (cur.seg.seq - seq).toNat
        match ix.link (some cur) seq (data.take left) false with
        | (false, ix) => (false, ix)
        | (true, ix) =>
          if skip > data.length || (skip = data.length && !hasFin) then (true, ix)
          else insertLoop hasFin ix rest cur.seg.endSeq (data.drop skip)
      else if skip > data.length || (skip = data.length && !hasFin) then (true, ix)
      else insertLoop hasFin ix rest cur.seg.endSeq (data.drop skip)

/-- `tcp_ofo_queue_insert` behind its left trim. -/
def queueAhead (ix : IndexedRx) (seq : Seq) (data : List UInt8) (hasFin : Bool) :
    Bool × IndexedRx :=
  let wndEnd := ix.rx.recvAck + BitVec.ofNat 32 (tcpRcvWnd ix.rx)
  if !Serial.lt seq wndEnd then
    if ix.rangeBuffered seq data.length hasFin then (true, ix)
    else (true, ix.recordRcvWindowDrop seq data.length hasFin)
  else
    let clipped := Serial.gt (seq + BitVec.ofNat 32 data.length) wndEnd
    let data := if clipped then data.take (wndEnd - seq).toNat else data
    let hasFin := hasFin && !clipped
    if data.length = 0 && !hasFin then (true, ix)
    else insertLoop hasFin ix (ix.around (ix.cursor seq)).2 seq data

/-- `tcp_ofo_queue_insert`. -/
def queueInsert (ix : IndexedRx) (seq : Seq) (data : List UInt8) (hasFin : Bool) :
    Bool × IndexedRx :=
  if Serial.lt seq ix.rx.recvAck then
    let skip := (ix.rx.recvAck - seq).toNat
    if skip > data.length || (skip = data.length && !hasFin) then (true, ix)
    else ix.queueAhead ix.rx.recvAck (data.drop skip) hasFin
  else ix.queueAhead seq data hasFin

/-- `tcp_ofo_insert`. -/
def insert (ix : IndexedRx) (seq : Seq) (data : List UInt8) (hasFin : Bool) : IndexedRx :=
  let ix := { ix with rx := tcpSackNoteDuplicate ix.rx seq data.length }
  let ix := (ix.queueInsert seq data hasFin).2
  { ix with rx := tcpSackNoteRecent ix.rx seq data.length }

/-- `tcp_ofo_purge`; the tree and the list are reset behind the loop. -/
def purge (ix : IndexedRx) : IndexedRx :=
  { ix with rx := tcpOfoPurge ix.rx, queue := [], tree := .leaf }

/-- The head of the list leaves both representations; `rx` is the accounting behind it. -/
def dropHead (ix : IndexedRx) (rx : Rx) (node : OfoNode) (rest : List OfoNode) : IndexedRx :=
  { ix with
    rx := { rx with ofo := segs rest }
    queue := rest
    tree := RedBlack.erase node ix.tree }

/-- The head of the list is now `seg`.  A trimmed head has another key, and
`tcp_ofo_rekey_after_trim` takes it out of the tree and puts it back. -/
def rekeyHead (ix : IndexedRx) (rx : Rx) (node : OfoNode) (seg : OfoSeg) (rest : List OfoNode) :
    IndexedRx :=
  let node' := { node with seg := seg }
  { ix with
    rx := { rx with ofo := seg :: segs rest }
    queue := node' :: rest
    tree :=
      if Serial.lt node.seg.seq ix.rx.recvAck then
        treeInsert node' (RedBlack.erase node ix.tree)
      else ix.tree }

/-- Loop of `tcp_ofo_drain`; the list argument is the queue. -/
def drainLoop : IndexedRx → List OfoNode → IndexedRx
  | ix, [] => ix
  | ix, node :: rest =>
    if Serial.gt node.seg.seq ix.rx.recvAck then ix
    else
      match tcpOfoTrimHead ix.rx node.seg with
      | (none, rx) => drainLoop (ix.dropHead rx node rest) rest
      | (some seg, rx) =>
        let ix := ix.rekeyHead rx node seg rest
        match tcpDeliverPayload ix.rx seg.data with
        | (false, rx) => { ix with rx := rx }
        | (true, rx) =>
          let rx := tcpOfoUnlink rx seg.data.length
          let rx := { rx with recvAck := rx.recvAck + BitVec.ofNat 32 seg.data.length }
          let ix := ix.dropHead rx { node with seg := seg } rest
          if seg.hasFin then
            purge { ix with
              rx := { ix.rx with recvAck := ix.rx.recvAck + 1, peerEof := true } }
          else drainLoop ix rest

/-- `tcp_ofo_drain` with the callbacks of the stream receive path. -/
def drain (ix : IndexedRx) : IndexedRx := drainLoop ix ix.queue

/-- `tcp_receive_stream_range` up to the state transition of `tcp_apply_peer_eof`. -/
def receiveRange (ix : IndexedRx) (status : Status) (seq : Seq) (payload : List UInt8)
    (hasFin : Bool) : IndexedRx :=
  let rcvNxt := ix.rx.recvAck
  let wndEnd := rcvNxt + BitVec.ofNat 32 (tcpRcvWnd ix.rx)
  let ix := { ix with rx := tcpSackNoteDuplicate ix.rx seq payload.length }
  let ix :=
    if status.peerFinConsumed then { ix with rx := { ix.rx with peerEof := true } } else ix
  if ix.rx.peerEof then ix
  else if !tcpSegmentAcceptable ix.rx seq payload.length hasFin then
    if !Serial.lt seq rcvNxt then ix.recordRcvWindowDrop seq payload.length hasFin else ix
  else
    let dataEnd := seq + BitVec.ofNat 32 payload.length
    let clipped := Serial.gt dataEnd wndEnd
    let payload := if clipped then payload.take (wndEnd - seq).toNat else payload
    let hasFin := hasFin && !clipped && Serial.lt dataEnd wndEnd
    if seq = rcvNxt then
      match tcpDeliverPayload ix.rx payload with
      | (false, rx) => { ix with rx := rx }.insert seq payload hasFin
      | (true, rx) =>
        let rx := { rx with
          recvAck := rx.recvAck + BitVec.ofNat 32 payload.length
          rcvbufUsed := rx.rcvbufUsed + payload.length }
        if hasFin then
          purge { ix with rx := { rx with recvAck := rx.recvAck + 1, peerEof := true } }
        else drain { ix with rx := rx }
    else drain (ix.insert seq payload hasFin)

/-- The receive side of `tcp_recv` for a request of `len` bytes. -/
def recv (ix : IndexedRx) (len : Nat) : IndexedRx :=
  match nsockTcpRxCurrent ix.rx with
  | (none, _) => ix
  | (some blob, rx) =>
    let n := ((blob.data.drop blob.off).take len).length
    let ix := drain { ix with rx := rx.advance blob n }
    if blob.off + n < blob.data.length then ix
    else { ix with rx := { ix.rx with rxCurrent := none } }

/-- `tcp_drain_recv`. -/
def drainRecv (ix : IndexedRx) : IndexedRx :=
  let ix := purge { ix with rx := { ix.rx with rxQueue := [], rxCurrent := none } }
  { ix with rx := { ix.rx with rcvbufUsed := 0 } }

end IndexedRx

end SnowTG.Tcp
