import SnowTG.Tcp.OfoDrain

/-!
# What a drain does to a stream

A drain takes nodes off the head of the queue and may cut the node that is then
the head.  It moves `recv_ack` over bytes the buffer already holds, and what was
noted for the next report stays unless a FIN purges the queue.  What the receive
path needs to know about a drain follows from that.
-/

namespace SnowTG.Tcp

open SnowTG.Lib List

/-- `recv_ack` moves on by `filled` at least and by `limit` at most, and the buffer fills by no more
than `filled`. -/
def Rx.Forward (filled limit : Nat) (rx rx' : Rx) : Prop :=
  ∃ n, filled ≤ n ∧ n ≤ limit ∧ rx'.recvAck = rx.recvAck + BitVec.ofNat 32 n ∧
    rx'.rcvbufUsed ≤ rx.rcvbufUsed + filled ∧ rx'.rcvbufSize = rx.rcvbufSize

section Forward

variable {a b c d limit : Nat} {rx rx' rx'' : Rx}

theorem Rx.Forward.stay (hack : rx'.recvAck = rx.recvAck)
    (hused : rx'.rcvbufUsed ≤ rx.rcvbufUsed) (hsize : rx'.rcvbufSize = rx.rcvbufSize) :
    Rx.Forward 0 0 rx rx' :=
  ⟨0, le_rfl, le_rfl, by rw [hack]; exact (add_zero _).symm, hused, hsize⟩

theorem Rx.Forward.refl (rx : Rx) : Rx.Forward 0 0 rx rx := .stay rfl le_rfl rfl

theorem Rx.Forward.trans (h : Rx.Forward a b rx rx') (h' : Rx.Forward c d rx' rx'') :
    Rx.Forward (a + c) (b + d) rx rx'' := by
  obtain ⟨n, han, hnb, hack, hused, hsize⟩ := h
  obtain ⟨m, hcm, hmd, hack', hused', hsize'⟩ := h'
  refine ⟨n + m, Nat.add_le_add han hcm, Nat.add_le_add hnb hmd, ?_, by omega, hsize'.trans hsize⟩
  rw [hack', hack, BitVec.ofNat_add, add_assoc]

theorem Rx.Forward.mono (h : Rx.Forward a b rx rx') (hle : b ≤ d) : Rx.Forward a d rx rx' := by
  obtain ⟨n, han, hnb, hrest⟩ := h
  exact ⟨n, han, hnb.trans hle, hrest⟩

/-- What stays behind does not add to a move. -/
theorem Rx.Forward.then_stay (h : Rx.Forward a b rx rx') (h' : Rx.Forward 0 0 rx' rx'') :
    Rx.Forward a b rx rx'' := h.trans h'

theorem Rx.SameAccounts.forward (h : rx.SameAccounts rx') (hack : rx'.recvAck = rx.recvAck) :
    Rx.Forward 0 0 rx rx' :=
  .stay hack h.rcvbufUsed.le h.rcvbufSize

theorem Rx.OnlyOwner.forward (h : rx.OnlyOwner rx') : Rx.Forward 0 0 rx rx' :=
  h.sameAccounts.forward h.sameReader.recvAck

theorem purge_forward (rx : Rx) : Rx.Forward 0 0 rx (tcpOfoPurge rx) := by
  have hreader := purge_sameReader rx
  apply Rx.Forward.stay hreader.recvAck _ hreader.rcvbufSize
  rw [(purge_released rx).1]
  exact Nat.sub_le _ _

theorem unlink_forward (rx : Rx) (len : Nat) : Rx.Forward 0 0 rx (tcpOfoUnlink rx len) :=
  .stay (unlink_sameReader rx len).recvAck (unlink_rcvbufUsed rx len).le
    (unlink_released rx len).size

/-- Consuming a FIN moves `recv_ack` and takes no room. -/
theorem fin_forward (h : Rx.Forward a b rx rx') :
    Rx.Forward a (b + 1) rx
      (tcpOfoPurge { rx' with recvAck := rx'.recvAck + 1, peerEof := true }) :=
  have hfin : Rx.Forward 0 1 rx' { rx' with recvAck := rx'.recvAck + 1, peerEof := true } :=
    ⟨1, zero_le, le_rfl, rfl, le_rfl, rfl⟩
  (h.trans hfin).then_stay (purge_forward _)

end Forward

/-- What is remembered of the last queued segment and of earlier reports. -/
def Rx.sackNotes (rx : Rx) : Bool × SackBlock × Nat :=
  (rx.sackRecentValid, rx.sackRecent, rx.sackHistoryCount)

/-- What is remembered for the next report, with the duplicate. -/
def Rx.notes (rx : Rx) : (Bool × SackBlock × Nat) × Bool × SackBlock :=
  (rx.sackNotes, rx.dsackPending, rx.dsackBlock)

/-- A node without its first bytes. -/
def OfoSeg.TailOf (part seg : OfoSeg) : Prop :=
  ∃ n, part.seq = seg.seq + BitVec.ofNat 32 n ∧ part.data = seg.data.drop n

theorem OfoSeg.TailOf.refl (seg : OfoSeg) : seg.TailOf seg :=
  ⟨0, (add_zero _).symm, drop_zero.symm⟩

theorem OfoSeg.TailOf.length_le {part seg : OfoSeg} (h : part.TailOf seg) :
    part.data.length ≤ seg.data.length := by
  obtain ⟨n, -, hdata⟩ := h
  rw [hdata, length_drop]
  exact Nat.sub_le _ _

theorem OfoSeg.TailOf.data_nil {part seg : OfoSeg} (h : part.TailOf seg) (hnil : seg.data = []) :
    part.data = [] := by
  have hle := h.length_le
  rw [hnil] at hle
  exact length_eq_zero_iff.mp (Nat.le_zero.mp hle)

/-- Taking a node off the counters touches neither the notes nor what is read. -/
theorem unlink_notes (rx : Rx) (len : Nat) : (tcpOfoUnlink rx len).notes = rx.notes := by
  simp only [tcpOfoUnlink]
  split_ifs <;> rfl

/-- Cutting off the head what is old makes room and leaves the end of the node. -/
theorem trimHead_moves (rx : Rx) (seg : OfoSeg) :
    Rx.Forward 0 0 rx (tcpOfoTrimHead rx seg).2 ∧
      (tcpOfoTrimHead rx seg).2.notes = rx.notes ∧
      (tcpOfoTrimHead rx seg).2.rxCurrent = rx.rxCurrent ∧
      ∀ part ∈ (tcpOfoTrimHead rx seg).1, part.TailOf seg := by
  simp only [tcpOfoTrimHead]
  split_ifs
  · have hsub : Rx.Forward 0 0 rx (tcpOfoRcvbufSub rx seg.data.length) :=
      .stay rfl (Nat.sub_le _ _) rfl
    refine ⟨hsub.then_stay (unlink_forward _ _), unlink_notes _ _,
      (unlink_sameReader _ _).rxCurrent, ?_⟩
    exact fun part hpart => absurd hpart (Option.not_mem_none _)
  · refine ⟨.stay rfl (Nat.sub_le _ _) rfl, rfl, rfl, ?_⟩
    rintro part ⟨⟩
    exact ⟨_, rfl, rfl⟩
  · refine ⟨.refl rx, rfl, rfl, ?_⟩
    rintro part ⟨⟩
    exact .refl seg

namespace IndexedRx

/-- A delivered head moves `recv_ack` over bytes the buffer already holds. -/
theorem headDelivered_forward (rx : Rx) (env : Tape) (data : List UInt8) :
    Rx.Forward 0 data.length rx (headDelivered rx env data) := by
  have h := unlink_forward { rx with
    env := env
    rxQueue := rx.rxQueue ++ if data = [] then [] else [⟨data, 0⟩] } data.length
  have hmove : Rx.Forward 0 data.length rx { rx with
      recvAck := rx.recvAck + BitVec.ofNat 32 data.length } :=
    ⟨data.length, zero_le, le_rfl, rfl, le_rfl, rfl⟩
  obtain ⟨n, hn, hzero, hack, hused, hsize⟩ := h
  obtain rfl : n = 0 := Nat.le_zero.mp hzero
  refine ⟨data.length, zero_le, le_rfl, ?_, hused, hsize⟩
  rw [headDelivered, hack]
  exact congrArg (· + _) (add_zero _)

/-- `ix'` is `ix` behind a drain. -/
structure Drained (ix ix' : IndexedRx) : Prop where
  nodes : ix'.queue = [] ∨ ∃ pre node rest part, ix.queue = pre ++ node :: rest ∧
    ix'.queue = { node with seg := part } :: rest ∧ part.TailOf node.seg
  content : segs ix.queue = ix.rx.ofo → segs ix'.queue = ix'.rx.ofo
  notes : ix'.rx.notes = ix.rx.notes ∨ ix'.queue = [] ∧ ix'.rx.dsackPending = false
  current : ix'.rx.rxCurrent = ix.rx.rxCurrent
  forward : Rx.Forward 0 (bytesOf (segs ix.queue) + 1) ix.rx ix'.rx

variable {ix ix' ix'' : IndexedRx} {node : OfoNode} {rest : List OfoNode}

theorem Drained.refl (ix : IndexedRx) : Drained ix ix := by
  refine ⟨?_, id, .inl rfl, rfl, (Rx.Forward.refl _).mono zero_le⟩
  cases hqueue : ix.queue with
  | nil => exact .inl rfl
  | cons node rest => exact .inr ⟨[], node, rest, node.seg, rfl, rfl, .refl _⟩

/-- The head has left the queue. -/
structure HeadGone (ix ix' : IndexedRx) (node : OfoNode) (rest : List OfoNode) : Prop where
  queue : ix.queue = node :: rest
  queue' : ix'.queue = rest
  content : ix'.rx.ofo = segs rest
  notes : ix'.rx.notes = ix.rx.notes
  current : ix'.rx.rxCurrent = ix.rx.rxCurrent
  forward : Rx.Forward 0 node.seg.data.length ix.rx ix'.rx

/-- A drain may begin with nodes that leave. -/
theorem HeadGone.drained (h : HeadGone ix ix' node rest) (h' : Drained ix' ix'') :
    Drained ix ix'' := by
  have hbytes : bytesOf (segs ix.queue) = node.seg.data.length + bytesOf (segs ix'.queue) := by
    rw [h.queue, h.queue']
    exact bytesOf_cons ..
  refine ⟨?_, fun _ => h'.content ?_, ?_, h'.current.trans h.current,
    (h.forward.trans h'.forward).mono (by omega)⟩
  · refine h'.nodes.imp_right ?_
    rintro ⟨pre, head, tail, part, hqueue, hdrained⟩
    refine ⟨node :: pre, head, tail, part, ?_, hdrained⟩
    rw [h.queue, ← h.queue', hqueue, cons_append]
  · rw [h.content, h.queue']
  · exact h'.notes.imp_left fun hsame => hsame.trans h.notes

theorem Drained.mem (h : Drained ix ix') {node' : OfoNode} (hnode : node' ∈ ix'.queue) :
    ∃ node ∈ ix.queue, node'.seg.TailOf node.seg := by
  rcases h.nodes with hnil | ⟨pre, head, rest, part, hqueue, hqueue', hpart⟩
  · rw [hnil] at hnode
    exact absurd hnode not_mem_nil
  rw [hqueue]
  rw [hqueue'] at hnode
  rcases mem_cons.mp hnode with rfl | hmem
  · exact ⟨head, by simp, hpart⟩
  · exact ⟨node', by simp [hmem], .refl _⟩

/-- The whole drain, by induction on the nodes it has not visited. -/
theorem drained_drainLoop {nodes : List OfoNode} (hqueue : ix.queue = nodes) :
    Drained ix (ix.drainLoop nodes) := by
  induction nodes generalizing ix with
  | nil => exact .refl ix
  | cons node rest ih =>
    obtain ⟨hforward, hnotes, hcurrent, hparts⟩ := trimHead_moves ix.rx node.seg
    rcases drainLoop_cons ix node rest with
      heq | ⟨rx, htrim, heq⟩ | ⟨part, rx, env, htrim, hround⟩
    · rw [heq]
      exact .refl ix
    · rw [htrim] at hforward hnotes hcurrent
      rw [heq]
      have hgone : HeadGone ix (ix.dropHead rx node rest) node rest :=
        ⟨hqueue, rfl, rfl, hnotes, hcurrent, hforward.mono zero_le⟩
      exact hgone.drained (ih rfl)
    rw [htrim] at hforward hnotes hcurrent hparts
    have hpart : part.TailOf node.seg := hparts part rfl
    -- what is left of the head is delivered
    have hgone : HeadGone ix ((ix.rekeyHead rx node part rest).dropHead
        (headDelivered (ix.rekeyHead rx node part rest).rx env part.data)
        { node with seg := part } rest) node rest := by
      refine ⟨hqueue, rfl, rfl, (unlink_notes _ _).trans hnotes,
        (unlink_sameReader _ _).rxCurrent.trans hcurrent, ?_⟩
      have hmove := hforward.trans
        (headDelivered_forward (ix.rekeyHead rx node part rest).rx env part.data)
      exact hmove.mono (by have := hpart.length_le; omega)
    rcases hround with heq | heq | heq
    · rw [heq]
      exact ⟨.inr ⟨[], node, rest, part, hqueue, rfl, hpart⟩, fun _ => rfl, .inl hnotes, hcurrent,
        hforward.mono zero_le⟩
    · rw [heq]
      have hbytes := bytesOf_cons node.seg (segs rest)
      refine ⟨.inl rfl, fun _ => rfl, .inr ⟨rfl, rfl⟩,
        (purge_sameReader _).rxCurrent.trans hgone.current, (fin_forward hgone.forward).mono ?_⟩
      rw [hqueue]
      show _ ≤ bytesOf (node.seg :: segs rest) + 1
      omega
    · rw [heq]
      exact hgone.drained (ih rfl)

theorem drained_drain (ix : IndexedRx) : Drained ix ix.drain := drained_drainLoop rfl

end IndexedRx

end SnowTG.Tcp
