import SnowTG.Lib.System
import SnowTG.Tcp.OfoReceive

/-!
# Runs of the out-of-order queues of one owner

One owner serves several streams, each with its own queue, and counts the nodes
and bytes of all of them.  Segments arrive, queues are drained and purged, and
the application reads, in any order and whatever the allocator answers.
-/

namespace SnowTG.Tcp

open SnowTG.Lib List
open SnowTG.Lib.Serial (pos_add Near pos)

/-- The calls that touch the queue of a stream. -/
inductive QueueCall where
  | insert (seq : Seq) (data : List UInt8) (hasFin : Bool)
  | drain
  | purge
  | segment (status : Status) (seq : Seq) (payload : List UInt8) (hasFin : Bool)
  | recv (len : Nat)
  | drainRecv
  deriving DecidableEq, Repr

namespace QueueCall

def apply (ix : IndexedRx) : QueueCall → IndexedRx
  | insert seq data hasFin => ix.insert seq data hasFin
  | drain => ix.drain
  | purge => ix.purge
  | segment status seq payload hasFin => ix.receiveRange status seq payload hasFin
  | recv len => ix.recv len
  | drainRecv => ix.drainRecv

/-- Whether the call ends with a drain of the queue. -/
def drains (ix : IndexedRx) : QueueCall → Bool
  | drain => true
  | segment status seq payload hasFin => ix.rangeDrains status seq payload hasFin
  | recv _ => (nsockTcpRxCurrent ix.rx).1.isSome
  | _ => false

/-- The payload that arrives with the call. -/
def payload : QueueCall → List UInt8
  | insert _ data _ => data
  | segment _ _ data _ => data
  | _ => []

/-- A FIN without payload whose sequence number lies strictly inside a node. -/
def finInside (ix : IndexedRx) : QueueCall → Bool
  | insert seq [] true => ix.covers seq
  | segment _ seq [] true => ix.covers seq
  | _ => false

end QueueCall

/-- A stream, and whether its last call drained the queue. -/
structure OwnedStream where
  ix : IndexedRx
  drained : Bool := false
  deriving DecidableEq, Repr

/-- All streams of one owner, and the gauges and counters they share. -/
structure StreamOwner where
  streams : List OwnedStream
  owner : OfoOwner
  deriving DecidableEq, Repr

/-- A call on a stream, with what the allocator answers. -/
structure QueueEvent where
  stream : Nat
  call : QueueCall
  tape : Tape := []
  deriving DecidableEq, Repr

/-- A stream as its owner works on it. -/
def IndexedRx.under (ix : IndexedRx) (owner : OfoOwner) (tape : Tape) : IndexedRx :=
  { ix with rx := { ix.rx with owner := owner, env := tape } }

def QueueEvent.apply (e : QueueEvent) (owner : OfoOwner) (s : OwnedStream) : OwnedStream :=
  { ix := e.call.apply (s.ix.under owner e.tape)
    drained := e.call.drains (s.ix.under owner e.tape) }

def ownerStep (st : StreamOwner) (e : QueueEvent) : StreamOwner :=
  match st.streams[e.stream]? with
  | none => st
  | some s =>
    { streams := st.streams.set e.stream (e.apply st.owner s)
      owner := (e.apply st.owner s).ix.rx.owner }

/-- A stream that has not received anything. -/
structure OwnedStream.Unused (s : OwnedStream) : Prop where
  queue : s.ix.queue = []
  tree : s.ix.tree = .leaf
  ofo : s.ix.rx.ofo = []
  ofoCount : s.ix.rx.ofoCount = 0
  ofoBytes : s.ix.rx.ofoBytes = 0
  rcvbufUsed : s.ix.rx.rcvbufUsed = 0
  rxCurrent : s.ix.rx.rxCurrent = none
  rxQueue : s.ix.rx.rxQueue = []
  rcvbufSize : s.ix.rx.rcvbufSize ≤ tcpRcvbufSize
  drained : s.drained = false

/-- Any number of unused streams; payload arrives in datagrams of less than 64 KiB. -/
def ownerSystem : System StreamOwner QueueEvent where
  init st := (∀ s ∈ st.streams, s.Unused) ∧ st.owner.gauges = (0, 0)
  enabled _ e := e.call.payload.length < 2 ^ 16
  step := ownerStep

/-- The event is not a FIN without payload strictly inside a node. -/
def FinOutside (st : StreamOwner) (e : QueueEvent) : Prop :=
  ∀ s ∈ st.streams[e.stream]?, e.call.finInside s.ix = false

instance (st : StreamOwner) (e : QueueEvent) : Decidable (FinOutside st e) :=
  inferInstanceAs (Decidable (∀ s ∈ st.streams[e.stream]?, e.call.finInside s.ix = false))

instance (st : StreamOwner) (e : QueueEvent) : Decidable (ownerSystem.enabled st e) :=
  inferInstanceAs (Decidable (_ < _))

/-- The second range starts at or behind the first, and no sequence number lies in both. -/
def OfoSeg.Before (a b : OfoSeg) : Prop :=
  Serial.leq a.seq b.seq = true ∧
    ∀ i < a.data.length, ∀ j < b.data.length,
      a.seq + BitVec.ofNat 32 i ≠ b.seq + BitVec.ofNat 32 j

/-- The representations of a stream's queue and its receive accounting agree. -/
structure OwnedStream.Consistent (s : OwnedStream) : Prop where
  order : s.ix.queue = s.ix.tree.inorder
  ranges : (IndexedRx.segs s.ix.queue).Pairwise OfoSeg.Before
  count : s.ix.rx.ofoCount = s.ix.queue.length
  bytes : s.ix.rx.ofoBytes = bytesOf (IndexedRx.segs s.ix.queue)
  segLimit : s.ix.rx.ofoCount ≤ tcpOfoMaxSegs
  byteLimit : s.ix.rx.ofoBytes ≤ tcpOfoMaxBytes
  used : s.ix.rx.rcvbufUsed = s.ix.rx.readable.length + s.ix.rx.ofoBytes
  ahead : s.drained = true → s.ix.Ahead

/-- So they do in every stream, and the gauges of the owner are the sums over its streams. -/
structure StreamOwner.Consistent (st : StreamOwner) : Prop where
  stream : ∀ s ∈ st.streams, s.Consistent
  segments : st.owner.segmentsCurrent = (st.streams.map fun s => s.ix.queue.length).sum
  bytes : st.owner.bytesCurrent =
    (st.streams.map fun s => bytesOf (IndexedRx.segs s.ix.queue)).sum

variable {base : Seq} {others : Nat × Nat} {k : Nat} {ix : IndexedRx} {st : StreamOwner}
  {s : OwnedStream} {used : Nat} {blobs : List RxBlob} {data : List UInt8}

theorem IndexedRx.Settled.under (h : ix.Settled base others k) {owner : OfoOwner}
    (others' : Nat × Nat) (tape : Tape)
    (hgauges : owner.gauges = (others'.1 + ix.rx.ofoCount, others'.2 + ix.rx.ofoBytes)) :
    (ix.under owner tape).Settled base others' k :=
  ⟨⟨{ h with gauges := hgauges }, h.content, h.order, h.ids, h.distinct, h.placed⟩, h.ack⟩

/-- Every call leads from a settled state to a settled one. -/
theorem IndexedRx.Settled.apply (h : ix.Settled base others k) (call : QueueCall)
    (hlen : call.payload.length < 2 ^ 16) (hfin : call.finInside ix = false) :
    ∃ k', (call.apply ix).Settled base others k' ∧
      (call.drains ix = true → (call.apply ix).Ahead) := by
  have hnever : ∀ {P : Prop}, false = true → P := fun hfalse => absurd hfalse Bool.false_ne_true
  cases call with
  | insert seq data hasFin =>
    refine ⟨k, h.insert hlen ?_, hnever⟩
    rintro rfl rfl
    exact hfin
  | drain =>
    obtain ⟨k', hsettled, hahead⟩ := h.drain
    exact ⟨k', hsettled, fun _ => hahead⟩
  | purge => exact ⟨k, h.purge, hnever⟩
  | segment status seq payload hasFin =>
    refine h.receiveRange hlen ?_
    rintro rfl rfl
    exact hfin
  | recv len => exact h.recv len
  | drainRecv => exact ⟨k, h.drainRecv, hnever⟩

/-- What the sums over the streams are made of. -/
structure StreamOwner.Inv (st : StreamOwner) : Prop where
  settled : ∀ s ∈ st.streams, ∃ base others k, s.ix.Settled base others k
  ahead : ∀ s ∈ st.streams, s.drained = true → s.ix.Ahead
  gauges : st.owner.gauges = ((st.streams.map fun s => s.ix.rx.ofoCount).sum,
    (st.streams.map fun s => s.ix.rx.ofoBytes).sum)

/-- Every call keeps the queues of all streams and the counts. -/
theorem StreamOwner.Inv.step (h : st.Inv) {e : QueueEvent} (henabled : ownerSystem.enabled st e)
    (hfin : FinOutside st e) : (ownerStep st e).Inv := by
  rw [ownerStep]
  cases hstream : st.streams[e.stream]? with
  | none => exact h
  | some s =>
    obtain ⟨pre, post, hsplit, hlength⟩ : ∃ pre post, st.streams = pre ++ s :: post ∧
        pre.length = e.stream := by
      obtain ⟨hlt, hget⟩ := List.getElem?_eq_some_iff.mp hstream
      refine ⟨st.streams.take e.stream, st.streams.drop (e.stream + 1), ?_, ?_⟩
      · rw [← hget, getElem_cons_drop, take_append_drop]
      · rw [length_take]
        omega
    obtain ⟨base, others, k, hsettled⟩ := h.settled s (by rw [hsplit]; simp)
    have hgauges := h.gauges
    simp only [hsplit, map_append, map_cons, sum_append, sum_cons] at hgauges
    -- what the other streams hold does not change
    have hwork := hsettled.under
      ((pre.map fun s => s.ix.rx.ofoCount).sum + (post.map fun s => s.ix.rx.ofoCount).sum,
        (pre.map fun s => s.ix.rx.ofoBytes).sum + (post.map fun s => s.ix.rx.ofoBytes).sum)
      e.tape (hgauges.trans (by rw [Prod.mk.injEq]; omega))
    obtain ⟨k', hafter, hahead⟩ := hwork.apply e.call henabled (hfin s hstream)
    have hset : st.streams.set e.stream (e.apply st.owner s) =
        pre ++ e.apply st.owner s :: post := by
      rw [hsplit, ← hlength, set_append_right _ _ le_rfl, Nat.sub_self, set_cons_zero]
    dsimp only
    rw [hset]
    have hmem : ∀ {other : OwnedStream}, other ∈ pre ++ e.apply st.owner s :: post →
        other = e.apply st.owner s ∨ other ∈ st.streams := by
      intro other hother
      rw [hsplit]
      simp only [mem_append, mem_cons] at hother ⊢
      tauto
    refine ⟨fun other hother => ?_, fun other hother hdrained => ?_, ?_⟩
    · rcases hmem hother with rfl | hold
      · exact ⟨base, _, k', hafter⟩
      · exact h.settled other hold
    · rcases hmem hother with rfl | hold
      · exact hahead hdrained
      · exact h.ahead other hold hdrained
    · simp only [map_append, map_cons, sum_append, sum_cons]
      refine hafter.gauges.trans ?_
      rw [Prod.mk.injEq]
      dsimp only [QueueEvent.apply]
      omega

theorem OwnedStream.Unused.settled (h : s.Unused) :
    s.ix.Settled s.ix.rx.recvAck (s.ix.rx.owner.segmentsCurrent, s.ix.rx.owner.bytesCurrent) 0 := by
  have hunread : s.ix.rx.unreadLen = 0 := by
    rw [Rx.unreadLen, Rx.readable, h.rxCurrent, h.rxQueue]
    rfl
  refine ⟨⟨⟨?_, ?_, ?_, ?_, h.rcvbufSize, ?_, ?_, ?_⟩, ?_, ?_, ?_, ?_, ?_⟩, ?_⟩
  · rw [h.ofoCount, h.ofo]
    rfl
  · rw [h.ofoBytes, h.ofo]
    rfl
  · rw [h.rcvbufUsed, hunread, h.ofoBytes]
  · rw [h.rcvbufUsed]
    exact zero_le
  · rw [h.ofoCount]
    exact zero_le
  · rw [h.ofoBytes]
    exact zero_le
  · rw [h.ofoCount, h.ofoBytes]
    rfl
  · rw [h.queue, h.ofo]
    rfl
  · rw [h.tree, h.queue]
    rfl
  · rw [h.queue]
    simp
  · rw [h.queue]
    simp
  · rw [h.ofo]
    exact zero_le
  · rw [Serial.pos_zero]

theorem ownerInit_inv (h : ownerSystem.init st) : st.Inv := by
  obtain ⟨hunused, hgauges⟩ := h
  refine ⟨fun s hs => ⟨_, _, _, (hunused s hs).settled⟩, fun s hs hdrained => ?_, ?_⟩
  · rw [(hunused s hs).drained] at hdrained
    exact absurd hdrained Bool.false_ne_true
  · have hzero : ∀ {f : OwnedStream → Nat}, (∀ s ∈ st.streams, f s = 0) →
        (st.streams.map f).sum = 0 := by
      intro f hf
      rw [map_congr_left hf]
      simp
    rw [hgauges, hzero fun s hs => (hunused s hs).ofoCount,
      hzero fun s hs => (hunused s hs).ofoBytes]

/-- Nodes of a chain lie before each other. -/
theorem Chain.pairwise {edge behind lo hi : Nat} {l : List OfoSeg}
    (h : Chain base edge behind lo l hi) (hnear : hi ≤ lo + 2 ^ 20) : l.Pairwise OfoSeg.Before := by
  induction l generalizing lo with
  | nil => exact List.Pairwise.nil
  | cons seg rest ih =>
    obtain ⟨o, hlo, hseq, -, hrest⟩ := h
    refine List.Pairwise.cons ?_ (ih hrest (by omega))
    intro other hother
    obtain ⟨q, hq, hseq', hend, -⟩ := hrest.position hother
    refine ⟨?_, fun i hi j hj => ?_⟩
    · rw [hseq, hseq', Serial.leq_pos_iff _ (by omega) (by omega)]
      omega
    · rw [hseq, hseq', pos_add, pos_add, ne_eq, Serial.pos_inj base (by omega) (by omega)]
      omega

theorem IndexedRx.Settled.consistent (h : s.ix.Settled base others k)
    (hahead : s.drained = true → s.ix.Ahead) : s.Consistent := by
  have hlength : s.ix.queue.length = s.ix.rx.ofo.length := by
    rw [← h.content]
    exact (length_map _).symm
  have hedge := h.edge_le
  refine ⟨h.order.symm, ?_, ?_, ?_, h.segLimit, h.byteLimit, h.used, hahead⟩
  · rw [h.content]
    exact h.placed.pairwise (by omega)
  · rw [h.count, hlength]
  · rw [h.bytes, h.content]

theorem StreamOwner.Inv.consistent (h : st.Inv) : st.Consistent := by
  have hstream : ∀ s ∈ st.streams, s.Consistent := by
    intro s hs
    obtain ⟨base, others, k, hsettled⟩ := h.settled s hs
    exact hsettled.consistent (h.ahead s hs)
  have hgauges := h.gauges
  rw [map_congr_left fun s hs => (hstream s hs).count,
    map_congr_left fun s hs => (hstream s hs).bytes] at hgauges
  obtain ⟨hsegments, hbytes⟩ := Prod.mk.inj hgauges
  exact ⟨hstream, hsegments, hbytes⟩

/-- In every run in which no FIN without payload arrives strictly inside a node, list and tree
agree, the ranges are sorted and disjoint, and every count is right. -/
theorem queues_consistent_of_finOutside (h : ownerSystem.Reach FinOutside st) : st.Consistent :=
  (h.invariant (P := StreamOwner.Inv) (fun _ => ownerInit_inv)
    fun _ _ hinv henabled hok => hinv.step henabled hok).consistent

/-- One unused stream that expects the sequence number zero. -/
def oneStream : StreamOwner where
  streams := [{ ix := { rx := { recvAck := 0 } } }]
  owner := {}

theorem oneStream_run (ok : StreamOwner → QueueEvent → Prop) (events : List QueueEvent)
    (h : ownerSystem.Admissible ok oneStream events) :
    ownerSystem.Reach ok (ownerSystem.run oneStream events) := by
  refine System.Reach.run (.init ⟨?_, rfl⟩) h
  intro s hs
  obtain rfl := mem_singleton.mp hs
  exact ⟨rfl, rfl, rfl, rfl, rfl, rfl, rfl, rfl, le_rfl, rfl⟩

/-- Two segments out of order, a third one over both, and a drain whose delivery fails. -/
theorem queues_consistent_after_overlap :
    (ownerSystem.run oneStream
      [⟨0, .segment .established 6 [6, 7] false, [9, 9, 1, 1]⟩,
        ⟨0, .segment .established 2 [2, 3] true, [9, 9, 1, 1]⟩,
        ⟨0, .insert 3 [3, 4, 5, 6] false, [9, 9, 1, 1]⟩,
        ⟨0, .segment .established 0 [0, 1] false, [1, 1, 1]⟩]).Consistent :=
  queues_consistent_of_finOutside (oneStream_run FinOutside _ (by decide))

/-- A FIN inside a node: the list has it before the node, the tree behind it. -/
theorem fin_inside_node_disorders :
    ∃ st, ownerSystem.Reach (fun _ _ => True) st ∧
      ∃ s ∈ st.streams, s.ix.queue ≠ s.ix.tree.inorder :=
  ⟨_, oneStream_run (fun _ _ => True)
    [⟨0, .segment .established 30 [1, 2, 3, 4] false, [9, 9, 1, 1]⟩,
      ⟨0, .segment .established 32 [] true, [9, 9, 1]⟩] (by decide), by decide⟩

namespace IndexedRx

/-- Some node holds the byte with this sequence number. -/
def holds (ix : IndexedRx) (seq : Seq) : Bool :=
  ix.queue.any fun node => (seq - node.seg.seq).toNat < node.seg.data.length

/-- The missing bytes between `recv_ack` and the first buffered segment, as offsets from
`recv_ack`. -/
def missing (ix : IndexedRx) : List Nat :=
  match ix.queue with
  | [] => []
  | head :: _ =>
    if Serial.gt head.seg.seq ix.rx.recvAck then
      (List.range (head.seg.seq - ix.rx.recvAck).toNat).filter fun i =>
        !ix.holds (ix.rx.recvAck + BitVec.ofNat 32 i)
    else []

/-- The missing bytes are no more than the window and lie inside it. -/
structure HoleFits (ix : IndexedRx) : Prop where
  count : ix.missing.length ≤ tcpRcvWnd ix.rx
  inside : ∀ i ∈ ix.missing, i < tcpRcvWnd ix.rx

instance (ix : IndexedRx) : Decidable ix.HoleFits :=
  decidable_of_iff (ix.missing.length ≤ tcpRcvWnd ix.rx ∧ ∀ i ∈ ix.missing, i < tcpRcvWnd ix.rx)
    ⟨fun h => ⟨h.1, h.2⟩, fun h => ⟨h.count, h.inside⟩⟩

theorem Settled.holeFits (h : ix.Settled base others k) : ix.HoleFits := by
  have hdistance : ∀ head rest, ix.queue = head :: rest →
      (head.seg.seq - ix.rx.recvAck).toNat ≤ tcpRcvWnd ix.rx := by
    intro head rest hqueue
    have hplaced := h.placed
    have hedge := h.edge_eq
    have hnear := h.near_edge
    rw [h.ofo_cons hqueue] at hplaced hedge
    obtain ⟨o, hko, hseq, hfit, hrest⟩ := hplaced
    rw [bytesOf_cons] at hedge
    rw [hseq, h.ack, Near.toNat_sub base (Near.between le_rfl hko (by omega) hnear)
      (Near.between le_rfl le_rfl h.placed.le hnear) hko]
    omega
  have hbelow : ∀ i ∈ ix.missing, i < tcpRcvWnd ix.rx := by
    intro i hi
    rw [missing] at hi
    cases hqueue : ix.queue with
    | nil => simp [hqueue] at hi
    | cons head rest =>
      simp only [hqueue] at hi
      split_ifs at hi
      · have hrange := mem_range.mp (mem_filter.mp hi).1
        exact hrange.trans_le (hdistance head rest hqueue)
      · simp at hi
  refine ⟨?_, hbelow⟩
  rw [missing]
  cases hqueue : ix.queue with
  | nil => exact zero_le
  | cons head rest =>
    dsimp only
    split_ifs
    · refine (length_filter_le _ _).trans ?_
      rw [length_range]
      exact hdistance head rest hqueue
    · exact zero_le

end IndexedRx

/-- In every run in which no FIN without payload arrives strictly inside a node, the hole before the
first buffered segment fits the window. -/
theorem hole_fits_window_of_finOutside (h : ownerSystem.Reach FinOutside st) :
    ∀ s ∈ st.streams, s.ix.HoleFits := by
  have hinv := h.invariant (P := StreamOwner.Inv) (fun _ => ownerInit_inv)
    fun _ _ hinv henabled hok => hinv.step henabled hok
  intro s hs
  obtain ⟨base, others, k, hsettled⟩ := hinv.settled s hs
  exact hsettled.holeFits

/-- Two segments out of order behind a hole of two bytes. -/
theorem hole_fits_before_two_segments :
    (ownerSystem.run oneStream
      [⟨0, .segment .established 6 [6, 7] false, [9, 9, 1, 1]⟩,
        ⟨0, .segment .established 2 [2, 3] false, [9, 9, 1, 1]⟩]).streams.length = 1 ∧
    ∀ s ∈ (ownerSystem.run oneStream
      [⟨0, .segment .established 6 [6, 7] false, [9, 9, 1, 1]⟩,
        ⟨0, .segment .established 2 [2, 3] false, [9, 9, 1, 1]⟩]).streams, s.ix.HoleFits :=
  ⟨by decide, hole_fits_window_of_finOutside (oneStream_run FinOutside _ (by decide))⟩

/-- A stream of which the application has read nothing yet. -/
def unreadStream (used : Nat) (blobs : List RxBlob) : IndexedRx where
  rx := { recvAck := Serial.pos 0 used, rcvbufUsed := used, rxQueue := blobs }

/-- In-order payload is accepted as long as the window has room for it. -/
theorem unreadStream_segment (hne : data ≠ []) (hchunk : data.length ≤ tcpMemoryChunkSize)
    (hroom : used + data.length ≤ tcpRcvbufSize) (hring : blobs.length < ringSize)
    (owner : OfoOwner) :
    ((unreadStream used blobs).under owner [1, 1]).receiveRange .established (pos 0 used)
      data false = (unreadStream (used + data.length) (blobs ++ [⟨data, 0⟩])).under owner [] := by
  have hpos := length_pos_of_ne_nil hne
  have hsize : tcpRcvbufSize = 2 ^ 18 := rfl
  generalize hix : (unreadStream used blobs).under owner [1, 1] = ix
  have hack : ix.rx.recvAck = pos 0 used := by rw [← hix]; rfl
  have hwnd : tcpRcvWnd ix.rx = tcpRcvbufSize - used := by
    rw [← hix]
    exact if_neg (by simp only [IndexedRx.under, unreadStream]; omega)
  have hnearu : Near used used := ⟨le_rfl, by omega⟩
  have hneard : Near used (used + data.length) := ⟨by omega, by omega⟩
  have hnearw : Near used (used + tcpRcvWnd ix.rx) := ⟨by omega, by omega⟩
  have hnote : tcpSackNoteDuplicate ix.rx (pos 0 used) data.length = ix.rx := by
    rw [← hix]
    rfl
  have hacc : tcpSegmentAcceptable ix.rx (pos 0 used) data.length false = true := by
    simp only [tcpSegmentAcceptable, hack, pos_add, Bool.false_eq_true, if_false, add_zero]
    rw [if_neg (by omega), if_neg (by omega), Bool.and_eq_true, Near.lt_iff _ hnearu hnearw,
      Near.gt_iff _ hneard hnearu]
    omega
  have hclip : Serial.gt (pos (0 : Seq) (used + data.length))
      (pos 0 (used + tcpRcvWnd ix.rx)) = false := by
    rw [Bool.eq_false_iff, ne_eq, Near.gt_iff _ hneard hnearw]
    omega
  have hdeliver : tcpDeliverPayload ix.rx data = (true, { ix.rx with
      env := [], rxQueue := blobs ++ [⟨data, 0⟩] }) := by
    rw [tcpDeliverPayload, if_neg (by omega), if_neg (by omega), ← hix]
    simp [Rx.ask, Tape.ask, nsockTcpRxEnqueue, IndexedRx.under, unreadStream, hring]
  have heof : ix.rx.peerEof = false := by rw [← hix]; rfl
  have hopen : Status.established.peerFinConsumed = false := rfl
  simp only [IndexedRx.receiveRange, hnote, hack, pos_add, hacc, hclip, hdeliver, heof,
    hopen, Bool.false_eq_true, if_false, Bool.not_true, if_true, Bool.false_and]
  rw [← hix]
  rfl

/-- One owner with one such stream. -/
def unreadOwner (used : Nat) (blobs : List RxBlob) (drained : Bool) : StreamOwner where
  streams := [{ ix := unreadStream used blobs, drained := drained }]
  owner := {}

theorem unreadOwner_step (hne : data ≠ [])
    (hchunk : data.length ≤ tcpMemoryChunkSize) (hroom : used + data.length ≤ tcpRcvbufSize)
    (hring : blobs.length < ringSize) (drained : Bool) :
    ∃ drained', ownerStep (unreadOwner used blobs drained)
        ⟨0, .segment .established (pos 0 used) data false, [1, 1]⟩ =
      unreadOwner (used + data.length) (blobs ++ [⟨data, 0⟩]) drained' := by
  have hseg := unreadStream_segment hne hchunk hroom hring {}
  refine ⟨((unreadStream used blobs).under {} [1, 1]).rangeDrains .established
    (pos 0 used) data false, ?_⟩
  simp only [ownerStep, unreadOwner, List.getElem?_cons_zero, QueueEvent.apply, QueueCall.apply,
    hseg]
  rfl

/-- A peer can fill the buffer while nothing is read. -/
theorem unreadOwner_reach (hne : data ≠ []) (hchunk : data.length ≤ tcpMemoryChunkSize) (n : Nat)
    (hroom : n * data.length ≤ tcpRcvbufSize) (hring : n ≤ ringSize) :
    ∃ drained, ownerSystem.Reach (fun _ _ => True)
      (unreadOwner (n * data.length) (List.replicate n ⟨data, 0⟩) drained) := by
  induction n with
  | zero =>
    refine ⟨false, ?_⟩
    rw [Nat.zero_mul]
    exact oneStream_run (fun _ _ => True) [] trivial
  | succ n ih =>
    rw [Nat.succ_mul] at hroom ⊢
    obtain ⟨drained, hreach⟩ := ih (by omega) (by omega)
    have hblobs : (List.replicate n (⟨data, 0⟩ : RxBlob)).length < ringSize := by
      rw [length_replicate]
      omega
    obtain ⟨drained', hstep⟩ := unreadOwner_step hne hchunk hroom hblobs drained
    have hshort : data.length < 2 ^ 16 := hchunk.trans_lt (by decide)
    refine ⟨drained', ?_⟩
    rw [replicate_succ', ← hstep]
    exact hreach.after
      ⟨0, .segment .established (pos 0 (n * data.length)) data false, [1, 1]⟩ hshort
      trivial

/-- With sixteen bytes of window left, a FIN falls inside the second of two segments, and in-order
payload overlaps a third one. -/
def finInsideSegments : List QueueEvent :=
  [⟨0, .segment .established 262142 [14, 15] false, [9, 9, 1, 1]⟩,
    ⟨0, .segment .established 262136 [8, 9, 10] false, [9, 9, 1, 1]⟩,
    ⟨0, .segment .established 262137 [] true, [9, 9, 1]⟩,
    ⟨0, .segment .established 262129 [1, 2, 3, 4, 5, 6] false, [9, 9, 1, 1]⟩,
    ⟨0, .segment .established 262128 [0, 1, 2, 3, 4] false, [1, 1]⟩]

/-- The list starts with the FIN, so that the segment behind it is not trimmed and in-order payload
is held twice.  Nothing is read: the window is closed while byte 7 of the sixteen is missing. -/
theorem fin_inside_node_closes_window :
    ∃ st, ownerSystem.Reach (fun _ _ => True) st ∧
      ∃ s ∈ st.streams, tcpRcvWnd s.ix.rx = 0 ∧ s.ix.missing = [2] ∧ ¬s.ix.HoleFits := by
  have hlength : (List.replicate 2032 (0 : UInt8)).length = 2032 := length_replicate
  obtain ⟨drained, hreach⟩ := unreadOwner_reach (ne_nil_of_length_eq_add_one hlength)
    (hlength.le.trans (by decide)) 129 (by rw [hlength]; decide) (by decide)
  rw [hlength] at hreach
  have hrun : ownerSystem.Admissible (fun _ _ => True) (unreadOwner (129 * 2032)
      (List.replicate 129 ⟨List.replicate 2032 0, 0⟩) drained) finInsideSegments := by
    cases drained <;> decide
  refine ⟨_, hreach.run hrun, ?_⟩
  cases drained <;> decide +kernel

end SnowTG.Tcp
