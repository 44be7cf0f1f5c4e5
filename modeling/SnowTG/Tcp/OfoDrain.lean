import SnowTG.Tcp.OfoInvariant

/-!
# Draining and purging the out-of-order queue

Nodes leave the queue from its head, whole or in part.  What leaves is taken off
every account, and the nodes behind it stay where they are.
-/

namespace SnowTG.Tcp

open SnowTG.Lib List
open SnowTG.Lib.Serial (pos Near pos_add pos_inj)

/-- Nodes and payload bytes have been taken off the counters of the queue. -/
structure Rx.Released (rx rx' : Rx) (nodes len : Nat) : Prop where
  count : rx'.ofoCount = rx.ofoCount - nodes
  bytes : rx'.ofoBytes = rx.ofoBytes - len
  size : rx'.rcvbufSize = rx.rcvbufSize
  gauges : rx'.owner.gauges = (rx.owner.gauges.1 - nodes, rx.owner.gauges.2 - len)

section Accounts

variable {others : Nat × Nat} {rx rx' : Rx} {nodes len : Nat}

theorem Rx.Accounts.release (h : rx.Accounts others) (hreleased : rx.Released rx' nodes len)
    (hlength : rx'.ofo.length + nodes = rx.ofo.length)
    (hbytes : bytesOf rx'.ofo + len = bytesOf rx.ofo)
    (hused : rx'.rcvbufUsed = rx'.unreadLen + (rx.ofoBytes - len))
    (hroom : rx'.rcvbufUsed ≤ rx.rcvbufUsed) : rx'.Accounts others := by
  have hcount := h.count
  have htotal := h.bytes
  have hsegs := h.segLimit
  have hlimit := h.byteLimit
  have hgauges := hreleased.gauges
  rw [h.gauges] at hgauges
  refine ⟨?_, ?_, ?_, ?_, ?_, ?_, ?_, ?_⟩
  · rw [hreleased.count]
    omega
  · rw [hreleased.bytes]
    omega
  · rw [hreleased.bytes, hused]
  · rw [hreleased.size]
    exact hroom.trans h.room
  · rw [hreleased.size]
    exact h.size
  · rw [hreleased.count]
    omega
  · rw [hreleased.bytes]
    omega
  · rw [hgauges, hreleased.count, hreleased.bytes]
    simp only [Prod.mk.injEq]
    omega

theorem unlink_released (rx : Rx) (len : Nat) : rx.Released (tcpOfoUnlink rx len) 1 len := by
  simp only [tcpOfoUnlink]
  split_ifs <;> exact ⟨rfl, rfl, rfl, rfl⟩

theorem unlink_rcvbufUsed (rx : Rx) (len : Nat) :
    (tcpOfoUnlink rx len).rcvbufUsed = rx.rcvbufUsed := by
  simp only [tcpOfoUnlink]
  split_ifs <;> rfl

/-- Purging takes every node off the shared gauges and its bytes off the buffer. -/
theorem purge_released (rx : Rx) :
    (tcpOfoPurge rx).rcvbufUsed = rx.rcvbufUsed - bytesOf rx.ofo ∧
      (tcpOfoPurge rx).owner.gauges =
        (rx.owner.gauges.1 - rx.ofo.length, rx.owner.gauges.2 - bytesOf rx.ofo) := by
  have hfold : ∀ (nodes : List OfoSeg) (start : Rx),
      (nodes.foldl (fun rx seg =>
        tcpOfoUnlink (tcpOfoRcvbufSub rx seg.data.length) seg.data.length) start).rcvbufUsed =
          start.rcvbufUsed - bytesOf nodes ∧
      (nodes.foldl (fun rx seg =>
        tcpOfoUnlink (tcpOfoRcvbufSub rx seg.data.length) seg.data.length) start).owner.gauges =
          (start.owner.gauges.1 - nodes.length, start.owner.gauges.2 - bytesOf nodes) := by
    intro nodes
    induction nodes with
    | nil => exact fun start => ⟨rfl, rfl⟩
    | cons seg rest ih =>
      intro start
      obtain ⟨hused, hgauges⟩ := ih
        (tcpOfoUnlink (tcpOfoRcvbufSub start seg.data.length) seg.data.length)
      have hreleased :=
        (unlink_released (tcpOfoRcvbufSub start seg.data.length) seg.data.length).gauges
      rw [foldl_cons, hused, hgauges, hreleased, unlink_rcvbufUsed]
      simp only [tcpOfoRcvbufSub, bytesOf_cons, length_cons, Nat.sub_sub, add_comm 1, and_self]
  exact hfold rx.ofo rx

theorem Rx.SameReader.unreadLen (h : rx.SameReader rx') : rx'.unreadLen = rx.unreadLen := by
  rw [Rx.unreadLen, Rx.unreadLen, Rx.readable, Rx.readable, h.rxCurrent, h.rxQueue]

/-- A purged queue leaves only the unread bytes in the buffer. -/
theorem Rx.Accounts.purge (h : rx.Accounts others) : (tcpOfoPurge rx).Accounts others := by
  obtain ⟨hused, hgauges⟩ := purge_released rx
  have hreader := purge_sameReader rx
  have hroom := h.room
  have hbefore := h.used
  have hunread := hreader.unreadLen
  have hcount := h.count
  have hbytes := h.bytes
  refine ⟨rfl, rfl, ?_, ?_, ?_, zero_le, zero_le, ?_⟩
  · rw [hused, hunread]
    show _ = _ + 0
    omega
  · rw [hused, hreader.rcvbufSize]
    omega
  · rw [hreader.rcvbufSize]
    exact h.size
  · rw [hgauges, h.gauges]
    show _ = (others.1 + 0, others.2 + 0)
    simp only [Prod.mk.injEq]
    omega

end Accounts

namespace IndexedRx

variable {base : Seq} {others : Nat × Nat} {lo k p : Nat} {ix : IndexedRx} {rx : Rx}
  {node : OfoNode} {rest : List OfoNode} {seg : OfoSeg} {o : Nat}

/-- Purging leaves no node anywhere. -/
theorem purge_inv (h : ix.rx.Accounts others) : ix.purge.Inv base others k k := by
  have haccounts := h.purge
  refine ⟨haccounts, rfl, rfl, by simp [IndexedRx.purge], by simp [IndexedRx.purge], ?_⟩
  have hused := haccounts.used
  have hroom := haccounts.room
  show k ≤ k + (tcpOfoPurge ix.rx).rcvbufSize - (tcpOfoPurge ix.rx).unreadLen
  omega

theorem Inv.ofo_cons (h : ix.Inv base others lo k) (hqueue : ix.queue = node :: rest) :
    ix.rx.ofo = node.seg :: segs rest := by
  rw [← h.content, hqueue, segs_cons]

theorem dropHead_accounts (h : ix.rx.Accounts others) (hofo : ix.rx.ofo = node.seg :: segs rest)
    (hreleased : ix.rx.Released rx 1 node.seg.data.length)
    (hused : rx.rcvbufUsed = rx.unreadLen + (ix.rx.ofoBytes - node.seg.data.length))
    (hroom : rx.rcvbufUsed ≤ ix.rx.rcvbufUsed) : (ix.dropHead rx node rest).rx.Accounts others := by
  refine h.release { hreleased with } ?_ ?_
    hused hroom
  · rw [hofo]
    rfl
  · rw [hofo, bytesOf_cons, add_comm]
    rfl

/-- The head leaves the list and the tree. -/
theorem Inv.dropHead {k' : Nat} (h : ix.Inv base others lo k) (hqueue : ix.queue = node :: rest)
    (haccounts : (ix.dropHead rx node rest).rx.Accounts others)
    (hplaced : Chain base (rx.edge k') 0 p (segs rest) (rx.edge k')) :
    (ix.dropHead rx node rest).Inv base others p k' := by
  have horder : (RedBlack.erase node ix.tree).inorder = [] ++ rest :=
    RedBlack.inorder_erase (by rw [h.order, hqueue]; rfl) (by rw [h.order]; exact h.nodup)
  refine ⟨haccounts, rfl, horder, ?_, ?_, hplaced⟩
  · intro cur hcur
    exact h.ids cur (by rw [hqueue]; exact mem_cons_of_mem _ hcur)
  · have hdistinct := h.distinct
    rw [hqueue] at hdistinct
    exact (nodup_cons.mp hdistinct).2

/-- One drain round cuts the head down to its part from `recv_ack` on, or drops it. -/
theorem trimHead_place (hack : rx.recvAck = pos base k) (hseq : seg.seq = pos base o)
    (hok : o ≤ k) (hko : k ≤ o + 2 ^ 20) :
    (∃ rx', tcpOfoTrimHead rx seg = (none, rx') ∧ o + seg.data.length ≤ k ∧
      rx.SameReader rx' ∧ rx.Released rx' 1 seg.data.length ∧
      rx'.rcvbufUsed = rx.rcvbufUsed - seg.data.length) ∨
    ∃ seg' rx', tcpOfoTrimHead rx seg = (some seg', rx') ∧ seg'.seq = pos base k ∧
      k + seg'.data.length = o + seg.data.length ∧ rx.SameReader rx' ∧
      rx.Released rx' 0 (k - o) ∧ rx'.rcvbufUsed = rx.rcvbufUsed - (k - o) ∧
      (o < k → seg'.data = [] → seg'.hasFin = true) ∧ (o = k → seg' = seg ∧ rx' = rx) := by
  rcases trimHead_cases hack hseq hok hko with
    ⟨hle, heq⟩ | ⟨hlt, hle, hfin, heq⟩ | ⟨rfl, heq⟩
  · have hreleased := unlink_released (tcpOfoRcvbufSub rx seg.data.length) seg.data.length
    exact .inl ⟨_, heq, hle, (rcvbufSub_sameReader _ _).trans (unlink_sameReader _ _),
      { hreleased with }, unlink_rcvbufUsed _ _⟩
  · refine .inr ⟨_, _, heq, rfl, ?_, ⟨rfl, rfl, rfl, rfl, rfl⟩, ⟨rfl, rfl, rfl, rfl⟩, rfl, ?_,
      fun heq => absurd heq hlt.ne⟩
    · rw [length_drop]
      omega
    · intro _ hnil
      rw [drop_eq_nil_iff] at hnil
      exact hfin (by omega)
  · refine .inr ⟨seg, rx, heq, hseq, rfl, .refl rx, ?_, by simp, fun h => absurd h (lt_irrefl o),
      fun _ => ⟨rfl, rfl⟩⟩
    exact ⟨rfl, by simp, rfl, by simp [OfoOwner.gauges]⟩

theorem rekeyHead_accounts {skip : Nat} (h : ix.rx.Accounts others)
    (hofo : ix.rx.ofo = node.seg :: segs rest)
    (hlen : seg.data.length + skip = node.seg.data.length) (hreleased : ix.rx.Released rx 0 skip)
    (hreader : ix.rx.SameReader rx) (hused : rx.rcvbufUsed = ix.rx.rcvbufUsed - skip) :
    (ix.rekeyHead rx node seg rest).rx.Accounts others := by
  have hunread := hreader.unreadLen
  have hbytes := h.bytes
  have hbefore := h.used
  rw [hofo, bytesOf_cons] at hbytes
  refine h.release { hreleased with } ?_ ?_ ?_ ?_
  · rw [hofo]
    rfl
  · rw [hofo]
    simp only [IndexedRx.rekeyHead, bytesOf_cons]
    omega
  · show rx.rcvbufUsed = rx.unreadLen + _
    omega
  · show rx.rcvbufUsed ≤ _
    omega

/-- A trimmed head that keeps some payload keeps its place in the tree. -/
theorem Inv.rekeyHead (h : ix.Inv base others lo k) (hqueue : ix.queue = node :: rest)
    (hack : ix.rx.recvAck = pos base k) (hnode : node.seg.seq = pos base o)
    (hlo : lo ≤ o) (hok : o ≤ k) (hko : k ≤ lo + 2 ^ 20) (hseq : seg.seq = pos base k)
    (hlen : k + seg.data.length = o + node.seg.data.length) (hreader : ix.rx.SameReader rx)
    (haccounts : (ix.rekeyHead rx node seg rest).rx.Accounts others)
    (hkeeps : o < k → seg.data ≠ []) (hsame : o = k → seg = node.seg) :
    (ix.rekeyHead rx node seg rest).Inv base others k k := by
  have hplaced := h.placed
  rw [h.ofo_cons hqueue] at hplaced
  obtain ⟨o', hlo', hseq', hfit, hrest⟩ := hplaced
  have hedge := h.edge_le
  have hohi := hrest.le
  obtain rfl : o = o' := by
    rw [hnode, pos_inj base (by omega) (by omega)] at hseq'
    exact hseq'
  have hedge' : (ix.rekeyHead rx node seg rest).rx.edge k = ix.rx.edge k :=
    (edge_of_sameReader hreader : rx.edge k = ix.rx.edge k)
  have hnearo : Near lo o := ⟨hlo, by omega⟩
  have hneark : Near lo k := ⟨by omega, by omega⟩
  have hnearEdge : Near lo (ix.rx.edge k) := ⟨by omega, by omega⟩
  have herase : (RedBlack.erase node ix.tree).inorder = [] ++ rest :=
    RedBlack.inorder_erase (by rw [h.order, hqueue]; rfl) (by rw [h.order]; exact h.nodup)
  refine ⟨haccounts, rfl, ?_, ?_, ?_, ?_⟩
  · simp only [IndexedRx.rekeyHead, hnode, hack, Near.lt_iff base hnearo hneark]
    split_ifs with hlt
    · -- the nodes behind it start above `recv_ack`, since it ends there
      have hpos := length_pos_of_ne_nil (hkeeps hlt)
      refine treeInsert_inorder herase hseq hneark hnearEdge (by simp) ?_
      intro cur hcur
      obtain ⟨q, hq, hcurSeq, hstop, -⟩ := hrest.position (mem_map_of_mem hcur)
      exact ⟨q, by omega, by omega, hcurSeq⟩
    · obtain rfl : o = k := by omega
      rw [h.order, hqueue, hsame rfl]
  · intro cur hcur
    rcases mem_cons.mp hcur with rfl | hcur
    · exact h.ids node (by rw [hqueue]; exact mem_cons_self)
    · exact h.ids cur (by rw [hqueue]; exact mem_cons_of_mem _ hcur)
  · have hdistinct := h.distinct
    rw [hqueue] at hdistinct
    exact hdistinct
  · rw [hedge']
    exact ⟨k, le_rfl, hseq, by omega, by rw [hlen]; exact hrest⟩

/-- The state between two calls: `recv_ack` stands at `k`, and the nodes lie from there on. -/
structure Settled (base : Seq) (others : Nat × Nat) (k : Nat) (ix : IndexedRx) : Prop
    extends ix.Inv base others k k where
  ack : ix.rx.recvAck = Serial.pos base k

/-- Every node ends above `recv_ack`. -/
def Ahead (ix : IndexedRx) : Prop :=
  ∀ node ∈ ix.queue, Serial.gt node.seg.endSeq ix.rx.recvAck = true

theorem purge_settled (h : ix.rx.Accounts others) (hack : ix.rx.recvAck = pos base k) :
    ix.purge.Settled base others k :=
  ⟨purge_inv h, (purge_sameReader ix.rx).recvAck.trans hack⟩

/-- It is enough to look at the head of the list. -/
theorem Inv.ahead (h : ix.Inv base others k k) (hack : ix.rx.recvAck = pos base k)
    (hhead : ∀ node ∈ ix.queue.head?, node.seg.seq = pos base k → node.seg.data ≠ []) :
    ix.Ahead := by
  have hnear := h.near_edge
  have hplaced := h.placed
  rw [← h.content] at hplaced
  have habove : ∀ node ∈ ix.queue, ∃ e, k < e ∧ e ≤ ix.rx.edge k ∧
      node.seg.endSeq = pos base e := by
    cases hqueue : ix.queue with
    | nil => simp
    | cons head rest =>
      rw [hqueue] at hplaced hhead
      obtain ⟨o, hko, hseq, hfit, hrest⟩ := hplaced
      have hend : k < o + head.seg.data.length := by
        by_cases hok : o = k
        · have hne := hhead head rfl (hok ▸ hseq)
          have := length_pos_of_ne_nil hne
          omega
        · omega
      intro node hnode
      rcases mem_cons.mp hnode with rfl | hnode
      · exact ⟨_, hend, hrest.le, endSeq_pos hseq⟩
      · obtain ⟨q, hq, hseq', hstop, -⟩ := hrest.position (mem_map_of_mem hnode)
        exact ⟨_, by omega, hstop, endSeq_pos hseq'⟩
  intro node hnode
  obtain ⟨e, hke, hedge, hend⟩ := habove node hnode
  rw [hend, hack, Near.gt_iff base (Near.between le_rfl hke.le hedge hnear)
    (Near.between le_rfl le_rfl h.placed.le hnear)]
  exact hke

theorem ahead_of_nil (hnil : ix.queue = []) : ix.Ahead := by
  intro node hnode
  rw [hnil] at hnode
  simp at hnode

/-- The receive side behind a head whose payload was delivered. -/
def headDelivered (rx : Rx) (env : Tape) (data : List UInt8) : Rx :=
  let rx := tcpOfoUnlink { rx with
    env := env
    rxQueue := rx.rxQueue ++ if data = [] then [] else [⟨data, 0⟩] } data.length
  { rx with recvAck := rx.recvAck + BitVec.ofNat 32 data.length }

theorem headDelivered_unreadLen (rx : Rx) (env : Tape) (data : List UInt8) :
    (headDelivered rx env data).unreadLen = rx.unreadLen + data.length := by
  have hreader := unlink_sameReader { rx with
    env := env
    rxQueue := rx.rxQueue ++ if data = [] then [] else [⟨data, 0⟩] } data.length
  refine hreader.unreadLen.trans ?_
  simp only [Rx.unreadLen, Rx.readable, map_append, flatten_append, length_append]
  split_ifs with hdata <;> simp [hdata, RxBlob.unread, add_assoc]

theorem headDelivered_released (rx : Rx) (env : Tape) (data : List UInt8) :
    rx.Released (headDelivered rx env data) 1 data.length := by
  have h := unlink_released { rx with
    env := env
    rxQueue := rx.rxQueue ++ if data = [] then [] else [⟨data, 0⟩] } data.length
  exact { h with }

theorem headDelivered_recvAck (hack : rx.recvAck = pos base k) (env : Tape) (data : List UInt8) :
    (headDelivered rx env data).recvAck = pos base (k + data.length) := by
  have h := (unlink_sameReader { rx with
    env := env
    rxQueue := rx.rxQueue ++ if data = [] then [] else [⟨data, 0⟩] } data.length).recvAck
  rw [← pos_add, ← hack]
  exact congrArg (· + _) h

theorem delivered_accounts (h : ix.rx.Accounts others) (hofo : ix.rx.ofo = node.seg :: segs rest)
    (env : Tape) :
    (ix.dropHead (headDelivered ix.rx env node.seg.data) node rest).rx.Accounts others := by
  have hused : (headDelivered ix.rx env node.seg.data).rcvbufUsed = ix.rx.rcvbufUsed :=
    unlink_rcvbufUsed _ _
  have hunread := headDelivered_unreadLen ix.rx env node.seg.data
  have hbefore := h.used
  have hbytes := h.bytes
  rw [hofo, bytesOf_cons] at hbytes
  exact dropHead_accounts h hofo (headDelivered_released _ _ _) (by omega) hused.le

theorem Inv.delivered (h : ix.Inv base others k k) (hqueue : ix.queue = node :: rest)
    (hseq : node.seg.seq = pos base k) (env : Tape) :
    (ix.dropHead (headDelivered ix.rx env node.seg.data) node rest).Inv base others
      (k + node.seg.data.length) (k + node.seg.data.length) := by
  have hofo := h.ofo_cons hqueue
  have hedge : (headDelivered ix.rx env node.seg.data).edge (k + node.seg.data.length) =
      ix.rx.edge k := by
    rw [Rx.edge, Rx.edge, headDelivered_unreadLen, (headDelivered_released _ _ _).size]
    omega
  have hplaced := h.placed
  rw [hofo] at hplaced
  obtain ⟨o, hko, hseq', hfit, hrest⟩ := hplaced
  have hle := h.edge_le
  obtain rfl : k = o := by
    have hohi := hrest.le
    rw [hseq, pos_inj base (by omega) (by omega)] at hseq'
    exact hseq'
  refine h.dropHead hqueue (delivered_accounts h.toAccounts hofo env) ?_
  rw [hedge]
  exact hrest

/-- One round of a drain: the head waits or is dropped; what is left of it stays, ends the stream, or
is delivered. -/
theorem drainLoop_cons (ix : IndexedRx) (node : OfoNode) (rest : List OfoNode) :
    ix.drainLoop (node :: rest) = ix ∨
      (∃ rx, tcpOfoTrimHead ix.rx node.seg = (none, rx) ∧
        ix.drainLoop (node :: rest) = (ix.dropHead rx node rest).drainLoop rest) ∨
      ∃ seg rx env, tcpOfoTrimHead ix.rx node.seg = (some seg, rx) ∧
        let trimmed := ix.rekeyHead rx node seg rest
        let next := trimmed.dropHead (headDelivered trimmed.rx env seg.data)
          { node with seg := seg } rest
        ix.drainLoop (node :: rest) = { trimmed with rx := { trimmed.rx with env := env } } ∨
          ix.drainLoop (node :: rest) = purge { next with
            rx := { next.rx with recvAck := next.rx.recvAck + 1, peerEof := true } } ∨
          ix.drainLoop (node :: rest) = next.drainLoop rest := by
  rw [IndexedRx.drainLoop]
  split_ifs
  · exact .inl rfl
  generalize tcpOfoTrimHead ix.rx node.seg = trimmed
  obtain ⟨_ | seg, rx⟩ := trimmed
  · exact .inr (.inl ⟨rx, rfl, rfl⟩)
  obtain ⟨env, hdeliver⟩ := deliver_cases (ix.rekeyHead rx node seg rest).rx seg.data
  refine .inr (.inr ⟨seg, rx, env, rfl, ?_⟩)
  dsimp only
  rcases hdeliver with hdeliver | hdeliver
  · rw [hdeliver]
    exact .inl rfl
  · rw [hdeliver]
    by_cases hfin : seg.hasFin = true
    · exact .inr (.inl (if_pos hfin))
    · exact .inr (.inr (if_neg hfin))

/-- Draining nodes from below `recv_ack` on settles the queue. -/
theorem Inv.drainLoop {nodes : List OfoNode} (h : ix.Inv base others lo k)
    (hqueue : ix.queue = nodes) (hack : ix.rx.recvAck = pos base k) (hlok : lo ≤ k)
    (hklo : k ≤ lo + 2 ^ 20) :
    ∃ k', k ≤ k' ∧ (IndexedRx.drainLoop ix nodes).Settled base others k' ∧
      (IndexedRx.drainLoop ix nodes).Ahead := by
  induction nodes generalizing ix lo k with
  | nil =>
    rw [IndexedRx.drainLoop]
    have hofo : ix.rx.ofo = [] := by rw [← h.content, hqueue]; rfl
    have hinv : ix.Inv base others k k := by
      refine ⟨h.toAccounts, h.content, h.order, h.ids, h.distinct, ?_⟩
      have hused := h.used
      have hroom := h.room
      rw [hofo, Chain, Rx.edge]
      omega
    exact ⟨k, le_rfl, ⟨hinv, hack⟩, ahead_of_nil hqueue⟩
  | cons node rest ih =>
    have hplaced := h.placed
    rw [h.ofo_cons hqueue] at hplaced
    obtain ⟨o, hloo, hseq, hfit, hrest⟩ := hplaced
    have hohi := hrest.le
    have hedge := h.edge_le
    have hnearo : Near lo o := ⟨hloo, by omega⟩
    have hneark : Near lo k := ⟨hlok, by omega⟩
    have hgt := Near.gt_iff base hnearo hneark
    rw [← hseq, ← hack] at hgt
    rw [IndexedRx.drainLoop]
    by_cases hgap : k < o
    · rw [if_pos (hgt.mpr hgap)]
      have hinv : ix.Inv base others k k := by
        refine ⟨h.toAccounts, h.content, h.order, h.ids, h.distinct, ?_⟩
        rw [h.ofo_cons hqueue]
        exact ⟨o, hgap.le, hseq, hfit, hrest⟩
      refine ⟨k, le_rfl, ⟨hinv, hack⟩, hinv.ahead hack ?_⟩
      intro head hhead hstart
      rw [hqueue] at hhead
      obtain rfl : node = head := by simpa using hhead
      rw [hseq, pos_inj base (by omega) (by omega)] at hstart
      omega
    rw [if_neg (mt hgt.mp hgap)]
    have hofo := h.ofo_cons hqueue
    have hbytes := h.bytes
    have hused := h.used
    rw [hofo, bytesOf_cons] at hbytes
    rcases trimHead_place hack hseq (by omega) (by omega) with
      ⟨rx, heq, hbelow, hreader, hreleased, hleft⟩ |
      ⟨seg, rx, heq, hseq', hlen, hreader, hreleased, hleft, hfin, hsame⟩
    · rw [heq]
      have hunread := hreader.unreadLen
      have hplaced : Chain base (rx.edge k) 0 (o + node.seg.data.length) (segs rest)
          (rx.edge k) := by
        rw [edge_of_sameReader hreader]
        exact hrest
      have hinv := h.dropHead hqueue
        (dropHead_accounts h.toAccounts hofo hreleased (by omega) (by omega)) hplaced
      exact ih hinv rfl (hreader.recvAck.trans hack) hbelow (by omega)
    · rw [heq]
      have hshorter : seg.data.length + (k - o) = node.seg.data.length := by omega
      have haccounts := rekeyHead_accounts h.toAccounts hofo hshorter hreleased hreader hleft
      have hrekeyed := fun hkeeps => h.rekeyHead hqueue hack hseq hloo (by omega) hklo hseq' hlen
        hreader haccounts hkeeps fun hok => (hsame hok).1
      have hack' : (ix.rekeyHead rx node seg rest).rx.recvAck = pos base k :=
        hreader.recvAck.trans hack
      have hqueue' : (ix.rekeyHead rx node seg rest).queue = { node with seg := seg } :: rest :=
        rfl
      simp only
      have hofo' : (ix.rekeyHead rx node seg rest).rx.ofo =
          ({ node with seg := seg } : OfoNode).seg :: segs rest := rfl
      generalize ix.rekeyHead rx node seg rest = trimmed at *
      obtain ⟨env, hdeliver | hdeliver⟩ := deliver_cases trimmed.rx seg.data
      · have hne : seg.data ≠ [] := by
          intro hnil
          simp [tcpDeliverPayload, hnil] at hdeliver
        rw [hdeliver]
        have hinv := hrekeyed fun _ => hne
        have hkept : { trimmed with rx := { trimmed.rx with env := env } }.Inv base others k k :=
          hinv.congr ⟨rfl, rfl, rfl, rfl, rfl, rfl, rfl⟩
        refine ⟨k, le_rfl, ⟨hkept, hack'⟩, hkept.ahead hack' ?_⟩
        intro head hhead _
        rw [hqueue'] at hhead
        obtain rfl := Option.mem_some_iff.mp hhead
        exact hne
      · rw [hdeliver]
        have hackNext := headDelivered_recvAck hack' env seg.data
        dsimp only
        by_cases hlast : seg.hasFin = true
        · rw [if_pos hlast]
          have haccounts' := delivered_accounts haccounts hofo' env
          refine ⟨k + seg.data.length + 1, by omega, purge_settled ?_ ?_, ahead_of_nil rfl⟩
          · exact haccounts'.congr ⟨rfl, rfl, rfl, rfl, rfl, rfl, rfl⟩
          · rw [← Serial.pos_succ, ← hackNext]
            rfl
        · rw [if_neg hlast]
          have hinv := (hrekeyed fun hlt hnil => hlast (hfin hlt hnil)).delivered hqueue' hseq' env
          obtain ⟨k', hk', hsettled⟩ := ih hinv rfl hackNext le_rfl (by omega)
          exact ⟨k', by omega, hsettled⟩

theorem Settled.drain (h : ix.Settled base others k) :
    ∃ k', ix.drain.Settled base others k' ∧ ix.drain.Ahead := by
  obtain ⟨k', -, hsettled⟩ := h.toInv.drainLoop rfl h.ack le_rfl (by omega)
  exact ⟨k', hsettled⟩

theorem Settled.purge (h : ix.Settled base others k) : ix.purge.Settled base others k :=
  purge_settled h.toAccounts h.ack

/-- What changes neither the accounts nor `recv_ack` keeps the state. -/
theorem Settled.congr (h : ix.Settled base others k) (hsame : ix.rx.SameAccounts rx)
    (hack : rx.recvAck = ix.rx.recvAck) : { ix with rx := rx }.Settled base others k :=
  ⟨h.toInv.congr hsame, hack.trans h.ack⟩

end IndexedRx

end SnowTG.Tcp
