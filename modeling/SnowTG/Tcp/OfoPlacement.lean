import SnowTG.Tcp.OfoTree
import SnowTG.Tcp.ReceiveInvariant

/-!
# Where out-of-order nodes lie

Any segments, whatever they contain.  The nodes of the list lie one behind the
other, and each lies so far left that the receive buffer has room for it once
the missing bytes before it have arrived.  The tree holds the same nodes in the
same order.  Insertion, draining, purging and reading keep this, as long as no
FIN without payload falls strictly inside a node.
-/

namespace SnowTG.Tcp

open SnowTG.Lib List Option
open SnowTG.Lib.Serial (pos pos_add Near)

/-- Payload bytes of some nodes. -/
def bytesOf (l : List OfoSeg) : Nat := (l.map fun seg => seg.data.length).sum

@[simp] theorem bytesOf_nil : bytesOf [] = 0 := rfl

@[simp] theorem bytesOf_cons (seg : OfoSeg) (l : List OfoSeg) :
    bytesOf (seg :: l) = seg.data.length + bytesOf l := by
  simp [bytesOf]

@[simp] theorem bytesOf_append (l r : List OfoSeg) : bytesOf (l ++ r) = bytesOf l + bytesOf r := by
  simp [bytesOf]

/-- Nodes in stream order between `lo` and `hi`.  Each of them, with all payload that is queued
behind it, `behind` bytes behind the list included, fits below `edge`. -/
def Chain (base : Seq) (edge behind : Nat) : Nat → List OfoSeg → Nat → Prop
  | lo, [], hi => lo ≤ hi
  | lo, seg :: rest, hi =>
    ∃ o, lo ≤ o ∧ seg.seq = Serial.pos base o ∧
      o + seg.data.length + bytesOf rest + behind ≤ edge ∧
      Chain base edge behind (o + seg.data.length) rest hi

section Chains

variable {base : Seq} {edge behind lo hi p : Nat} {l r : List OfoSeg} {edge' behind' : Nat}
  {seg : OfoSeg}

theorem Chain.le (h : Chain base edge behind lo l hi) : lo ≤ hi := by
  induction l generalizing lo with
  | nil => exact h
  | cons seg rest ih =>
    obtain ⟨o, hlo, -, -, hrest⟩ := h
    have := ih hrest
    omega

theorem Chain.mono {lo' hi' : Nat} (h : Chain base edge behind lo l hi) (hedge : edge ≤ edge')
    (hbehind : behind' ≤ behind) (hlo : lo' ≤ lo) (hhi : hi ≤ hi') :
    Chain base edge' behind' lo' l hi' := by
  induction l generalizing lo lo' with
  | nil => exact hlo.trans (Nat.le_trans h hhi)
  | cons seg rest ih =>
    obtain ⟨o, ho, hseq, hfit, hrest⟩ := h
    exact ⟨o, hlo.trans ho, hseq, by omega, ih hrest le_rfl⟩

/-- Nothing needs to be queued behind the list. -/
theorem Chain.forget (h : Chain base edge behind lo l hi) : Chain base edge 0 lo l hi :=
  h.mono le_rfl zero_le le_rfl le_rfl

theorem chain_append : Chain base edge behind lo (l ++ r) hi ↔
    ∃ m, Chain base edge (bytesOf r + behind) lo l m ∧ Chain base edge behind m r hi := by
  induction l generalizing lo with
  | nil =>
    constructor
    · intro h
      exact ⟨lo, le_rfl, h⟩
    · rintro ⟨m, hm, h⟩
      exact h.mono le_rfl le_rfl hm le_rfl
  | cons seg rest ih =>
    simp only [cons_append, Chain, ih, bytesOf_append]
    constructor
    · rintro ⟨o, hlo, hseq, hfit, m, hl, hr⟩
      exact ⟨m, ⟨o, hlo, hseq, by omega, hl⟩, hr⟩
    · rintro ⟨m, ⟨o, hlo, hseq, hfit, hl⟩, hr⟩
      exact ⟨o, hlo, hseq, by omega, m, hl, hr⟩

/-- The position of a node of a chain. -/
theorem Chain.position (h : Chain base edge behind lo l hi) (hseg : seg ∈ l) :
    ∃ o, lo ≤ o ∧ seg.seq = pos base o ∧ o + seg.data.length ≤ hi ∧ o + seg.data.length ≤ edge := by
  induction l generalizing lo with
  | nil => simp at hseg
  | cons head rest ih =>
    obtain ⟨o, hlo, hseq, hfit, hrest⟩ := h
    rcases mem_cons.mp hseg with rfl | hmem
    · exact ⟨o, hlo, hseq, hrest.le, by omega⟩
    · obtain ⟨o', ho', hseq', hend, hedge⟩ := ih hrest hmem
      exact ⟨o', by omega, hseq', hend, hedge⟩

/-- The end of a node is the position behind its last byte. -/
theorem endSeq_pos {o : Nat} (h : seg.seq = pos base o) :
    seg.endSeq = pos base (o + seg.data.length) := by
  rw [OfoSeg.endSeq, h, pos_add]

/-- Behind a first node that does not start at `p` itself, the chain starts above `p`. -/
theorem Chain.above (h : Chain base edge behind p l hi)
    (hhead : ∀ cur ∈ l.head?, cur.seq ≠ pos base p) (hne : l ≠ []) :
    Chain base edge behind (p + 1) l hi := by
  cases l with
  | nil => exact absurd rfl hne
  | cons seg rest =>
    obtain ⟨o, hlo, hseq, hfit, hrest⟩ := h
    refine ⟨o, ?_, hseq, hfit, hrest⟩
    have hop : o ≠ p := by
      rintro rfl
      exact hhead seg rfl hseq
    omega

theorem Chain.bytes_le (h : Chain base edge behind lo l hi) : lo + bytesOf l ≤ hi := by
  induction l generalizing lo with
  | nil => exact h
  | cons seg rest ih =>
    obtain ⟨o, hlo, -, -, hrest⟩ := h
    have := ih hrest
    rw [bytesOf_cons]
    omega

/-- Nodes that end below `hi` fit as soon as something at `hi` does. -/
theorem Chain.refit (h : Chain base edge behind lo l hi) (hfit : hi + behind' ≤ edge') :
    Chain base edge' behind' lo l hi := by
  induction l generalizing lo with
  | nil => exact h
  | cons seg rest ih =>
    obtain ⟨o, hlo, hseq, -, hrest⟩ := h
    have := hrest.bytes_le
    exact ⟨o, hlo, hseq, by omega, ih hrest⟩

end Chains

/-- Unread in-order bytes. -/
def Rx.unreadLen (rx : Rx) : Nat := rx.readable.length

/-- The position up to which the buffer reaches: the bytes already read and its size. -/
def Rx.edge (rx : Rx) (k : Nat) : Nat := k + rx.rcvbufSize - rx.unreadLen

/-- The counters of a stream agree with its queue and keep their limits.  `others` are the gauges of
the other streams of the owner. -/
structure Rx.Accounts (others : Nat × Nat) (rx : Rx) : Prop where
  count : rx.ofoCount = rx.ofo.length
  bytes : rx.ofoBytes = bytesOf rx.ofo
  used : rx.rcvbufUsed = rx.unreadLen + rx.ofoBytes
  room : rx.rcvbufUsed ≤ rx.rcvbufSize
  size : rx.rcvbufSize ≤ 2 ^ 18
  segLimit : rx.ofoCount ≤ tcpOfoMaxSegs
  byteLimit : rx.ofoBytes ≤ tcpOfoMaxBytes
  gauges : rx.owner.gauges = (others.1 + rx.ofoCount, others.2 + rx.ofoBytes)

/-- Everything the list, the tree and the accounts agree on: `k` bytes have been accepted in order,
and the nodes lie from `lo` on. -/
structure IndexedRx.Inv (base : Seq) (others : Nat × Nat) (lo k : Nat) (ix : IndexedRx) : Prop
    extends ix.rx.Accounts others where
  content : segs ix.queue = ix.rx.ofo
  order : ix.tree.inorder = ix.queue
  ids : ∀ node ∈ ix.queue, node.id < ix.fresh
  distinct : (ix.queue.map OfoNode.id).Nodup
  placed : Chain base (ix.rx.edge k) 0 lo ix.rx.ofo (ix.rx.edge k)

/-- Nothing the accounts of the queue mention has changed. -/
structure Rx.SameAccounts (rx rx' : Rx) : Prop where
  ofo : rx'.ofo = rx.ofo
  ofoCount : rx'.ofoCount = rx.ofoCount
  ofoBytes : rx'.ofoBytes = rx.ofoBytes
  rcvbufUsed : rx'.rcvbufUsed = rx.rcvbufUsed
  rcvbufSize : rx'.rcvbufSize = rx.rcvbufSize
  unread : rx'.unreadLen = rx.unreadLen
  gauges : rx'.owner.gauges = rx.owner.gauges

variable {rx rx' : Rx}

theorem Rx.Accounts.congr {others : Nat × Nat} (h : rx.Accounts others)
    (hsame : rx.SameAccounts rx') : rx'.Accounts others := by
  refine ⟨?_, ?_, ?_, ?_, ?_, ?_, ?_, ?_⟩
  · rw [hsame.ofoCount, hsame.ofo, h.count]
  · rw [hsame.ofoBytes, hsame.ofo, h.bytes]
  · rw [hsame.rcvbufUsed, hsame.unread, hsame.ofoBytes, h.used]
  · rw [hsame.rcvbufUsed, hsame.rcvbufSize]
    exact h.room
  · rw [hsame.rcvbufSize]
    exact h.size
  · rw [hsame.ofoCount]
    exact h.segLimit
  · rw [hsame.ofoBytes]
    exact h.byteLimit
  · rw [hsame.gauges, hsame.ofoCount, hsame.ofoBytes, h.gauges]

theorem Rx.OnlyOwner.sameAccounts (h : rx.OnlyOwner rx') : rx.SameAccounts rx' := by
  obtain ⟨owner, env, rfl, hgauges⟩ := h
  exact ⟨rfl, rfl, rfl, rfl, rfl, rfl, hgauges⟩

theorem noteDuplicate_sameAccounts (rx : Rx) (seq : Seq) (len : Nat) :
    rx.SameAccounts (tcpSackNoteDuplicate rx seq len) := by
  obtain ⟨pending, block, heq⟩ := noteDuplicate_eq rx seq len
  rw [heq]
  exact ⟨rfl, rfl, rfl, rfl, rfl, rfl, rfl⟩

theorem noteRecent_sameAccounts (rx : Rx) (seq : Seq) (len : Nat) :
    rx.SameAccounts (tcpSackNoteRecent rx seq len) := by
  obtain ⟨valid, block, heq⟩ := noteRecent_eq rx seq len
  rw [heq]
  exact ⟨rfl, rfl, rfl, rfl, rfl, rfl, rfl⟩

namespace IndexedRx

variable {base : Seq} {others : Nat × Nat} {lo k p : Nat} {ix : IndexedRx} {rx : Rx}
  {pre rest : List OfoNode} {data : List UInt8} {hasFin : Bool} {edge behind : Nat}

@[simp] theorem segs_nil : segs [] = [] := rfl

@[simp] theorem segs_cons (node : OfoNode) (l : List OfoNode) :
    segs (node :: l) = node.seg :: segs l := rfl

@[simp] theorem segs_append (l r : List OfoNode) : segs (l ++ r) = segs l ++ segs r :=
  map_append

section

variable (h : ix.Inv base others lo k)
include h

theorem Inv.nodup : ix.queue.Nodup := .of_map _ h.distinct

theorem Inv.congr (hsame : ix.rx.SameAccounts rx) : { ix with rx := rx }.Inv base others lo k := by
  have hedge : rx.edge k = ix.rx.edge k := by rw [Rx.edge, Rx.edge, hsame.rcvbufSize, hsame.unread]
  refine ⟨h.toAccounts.congr hsame, h.content.trans hsame.ofo.symm, h.order, h.ids, h.distinct, ?_⟩
  simp only [hedge, hsame.ofo]
  exact h.placed

/-- The window leaves exactly the bytes between what is queued and the edge. -/
theorem Inv.edge_eq : ix.rx.edge k = k + tcpRcvWnd ix.rx + bytesOf ix.rx.ofo := by
  have hused := h.used
  have hroom := h.room
  rw [h.bytes] at hused
  rw [Rx.edge, tcpRcvWnd]
  split_ifs <;> omega

theorem Inv.edge_le : ix.rx.edge k ≤ k + 2 ^ 18 := by
  have := h.size
  rw [Rx.edge]
  omega

end

/-- The cursor of the list at the first node of `rest`. -/
theorem around_head (hqueue : ix.queue = pre ++ rest) (hnodup : ix.queue.Nodup) :
    ix.around rest.head? = (pre, rest) := by
  cases rest with
  | nil => simpa [around] using hqueue
  | cons cur tail =>
    rw [hqueue] at hnodup
    have hcur : ∀ node ∈ pre, decide (node ≠ cur) = true := by
      intro node hnode
      simpa using fun heq => (nodup_append.mp hnodup).2.2 node hnode cur (by simp) heq
    simp only [List.head?_cons, around, hqueue]
    rw [takeWhile_append_of_pos hcur, dropWhile_append_of_pos hcur]
    simp

/-- What linking before the first node of `rest` can do: nothing that matters here, or exactly one
new node that the window and the limits have room for. -/
theorem link_cases (hqueue : ix.queue = pre ++ rest) (hnodup : ix.queue.Nodup) (seq : Seq)
    (data : List UInt8) (hasFin : Bool) :
    (∃ rx, ix.rx.OnlyOwner rx ∧
      (ix.link rest.head? seq data hasFin).2 = { ix with rx := rx } ∧
      ((ix.link rest.head? seq data hasFin).1 = true →
        data = [] ∧ hasFin = false ∨ ∃ cur ∈ rest.head?, cur.seg.seq = seq)) ∨
    ((ix.link rest.head? seq data hasFin).1 = true ∧
      (∀ cur ∈ rest.head?, cur.seg.seq ≠ seq) ∧ data.length ≤ tcpRcvWnd ix.rx ∧
      ix.rx.ofoCount < tcpOfoMaxSegs ∧ ix.rx.ofoBytes + data.length ≤ tcpOfoMaxBytes ∧
      ∃ peak owner env,
        owner.gauges =
          (ix.rx.owner.segmentsCurrent + 1, ix.rx.owner.bytesCurrent + data.length) ∧
        (ix.link rest.head? seq data hasFin).2 =
          { rx := { ix.rx with
              ofo := segs pre ++ (⟨seq, data, hasFin⟩ : OfoSeg) :: segs rest
              ofoCount := ix.rx.ofoCount + 1
              ofoBytes := ix.rx.ofoBytes + data.length
              ofoReorderDistancePeak := peak
              rcvbufUsed := ix.rx.rcvbufUsed + data.length
              owner := owner
              env := env }
            queue := pre ++ ⟨ix.fresh, ⟨seq, data, hasFin⟩⟩ :: rest
            tree := treeInsert ⟨ix.fresh, ⟨seq, data, hasFin⟩⟩ ix.tree
            fresh := ix.fresh + 1 }) := by
  have hhead : (segs rest).head? = rest.head?.map OfoNode.seg := List.head?_map
  simp only [link, around_head hqueue hnodup]
  rcases tcpOfoLink_cases ix.rx (segs pre) (segs rest) seq data hasFin with
    ⟨howner, hnone⟩ | ⟨hok, -, hdistinct, hwnd, hsegs, hbytes, peak, owner, env, hgauges, heq⟩
  · left
    rw [hhead] at hnone
    generalize tcpOfoLink ix.rx (segs pre) (segs rest) seq data hasFin = linked at howner hnone ⊢
    refine ⟨linked.2, howner, ?_⟩
    rw [if_pos howner.sameAccounts.ofoCount]
    refine ⟨rfl, fun hok => (hnone hok).imp id ?_⟩
    rintro ⟨seg, hseg, hseq⟩
    obtain ⟨cur, hcur, rfl⟩ := map_eq_some_iff.mp hseg
    exact ⟨cur, hcur, hseq⟩
  · right
    rw [hhead] at hdistinct
    generalize tcpOfoLink ix.rx (segs pre) (segs rest) seq data hasFin = linked at hok heq ⊢
    obtain ⟨ok, rx⟩ := linked
    obtain rfl : ok = true := hok
    obtain rfl := heq
    rw [if_neg (Nat.succ_ne_self _)]
    refine ⟨rfl, fun cur hcur => hdistinct cur.seg ?_, hwnd, hsegs, hbytes, peak, owner, env,
      hgauges, rfl⟩
    exact mem_map_of_mem OfoNode.seg hcur

/-- The tree puts a node between nodes that start at or below it and nodes that start above it. -/
theorem treeInsert_inorder {node : OfoNode} {tree : RedBlack.Tree OfoNode} {hi : Nat}
    (hsplit : tree.inorder = pre ++ rest) (hseq : node.seg.seq = pos base p)
    (hnearp : Near k p) (hhi : Near k hi)
    (hpre : ∀ cur ∈ pre, ∃ o, k ≤ o ∧ o ≤ p ∧ cur.seg.seq = pos base o)
    (hrest : ∀ cur ∈ rest, ∃ o, p < o ∧ o ≤ hi ∧ cur.seg.seq = pos base o) :
    (treeInsert node tree).inorder = pre ++ node :: rest := by
  apply RedBlack.inorder_insert hsplit
  · intro cur hcur
    obtain ⟨o, hko, hop, hcurSeq⟩ := hpre cur hcur
    rw [hseq, hcurSeq, Bool.eq_false_iff, ne_eq, Near.lt_iff base hnearp
      (Near.between le_rfl hko hop hnearp)]
    omega
  · intro cur hcur
    obtain ⟨o, hpo, hohi, hcurSeq⟩ := hrest cur hcur
    have hkp := hnearp.1
    rw [hseq, hcurSeq, Near.lt_iff base hnearp (Near.between (by omega) (le_refl o) hohi hhi)]
    exact hpo

/-- Linking between nodes that end below the position and nodes that start behind the new payload
keeps the invariant. -/
theorem Inv.link (h : ix.Inv base others k k) (data : List UInt8) (hasFin : Bool)
    (hqueue : ix.queue = pre ++ rest) (hpre : Chain base edge behind k (segs pre) p)
    (hrest : Chain base (ix.rx.edge k) 0 (p + data.length) (segs rest) (ix.rx.edge k))
    (hend : p + data.length + bytesOf (segs rest) ≤ ix.rx.edge k) :
    (ix.link rest.head? (pos base p) data hasFin).2.Inv base others k k ∧
      ix.rx.SameReader (ix.link rest.head? (pos base p) data hasFin).2.rx := by
  rcases link_cases hqueue h.nodup (pos base p) data hasFin with
    ⟨rx, howner, heq, -⟩ | ⟨-, hdistinct, hwnd, hsegs, hbytes, peak, owner, env, hgauges, heq⟩
  · rw [heq]
    exact ⟨h.congr howner.sameAccounts, howner.sameReader⟩
  · rw [heq]
    refine ⟨?_, ⟨rfl, rfl, rfl, rfl, rfl⟩⟩
    have hofo : segs pre ++ segs rest = ix.rx.ofo := by
      rw [← segs_append, ← hqueue]
      exact h.content
    have hnear : Near k (ix.rx.edge k) := by
      have hedge := h.edge_le
      have hle := h.placed.le
      exact ⟨hle, by omega⟩
    have hpre' : Chain base (ix.rx.edge k) (data.length + bytesOf (segs rest)) k (segs pre) p :=
      hpre.refit (by omega)
    have hkp := hpre.le
    have hwindow : ix.rx.rcvbufUsed + data.length ≤ ix.rx.rcvbufSize := by
      have hroom := h.room
      rw [tcpRcvWnd] at hwnd
      split_ifs at hwnd <;> omega
    have hplaced : Chain base (ix.rx.edge k) 0 k
        (segs pre ++ (⟨pos base p, data, hasFin⟩ : OfoSeg) :: segs rest)
        (ix.rx.edge k) := by
      refine chain_append.mpr ⟨p, ?_, p, le_rfl, rfl, ?_, hrest⟩
      · simpa using hpre'
      · simpa using hend
    have horder : (treeInsert ⟨ix.fresh, ⟨pos base p, data, hasFin⟩⟩ ix.tree).inorder =
        pre ++ ⟨ix.fresh, ⟨pos base p, data, hasFin⟩⟩ :: rest := by
      refine treeInsert_inorder (by rw [h.order, hqueue]) rfl
        (Near.between le_rfl hkp (by omega) hnear) hnear ?_ ?_
      · intro cur hcur
        obtain ⟨o, hko, hseq, hstop, -⟩ := hpre.position (mem_map_of_mem hcur)
        exact ⟨o, hko, by omega, hseq⟩
      · intro cur hcur
        -- a FIN without payload is not linked before a node at its own position
        have habove : Chain base (ix.rx.edge k) 0 (p + 1) (segs rest) (ix.rx.edge k) := by
          by_cases hdata : data.length = 0
          · refine Chain.above (by simpa [hdata] using hrest) ?_ ?_
            · intro seg hseg
              have hhead : (segs rest).head? = rest.head?.map OfoNode.seg := List.head?_map
              rw [hhead] at hseg
              obtain ⟨node, hnode, rfl⟩ := map_eq_some_iff.mp hseg
              exact hdistinct node hnode
            · rintro hnil
              rw [segs, map_eq_nil_iff] at hnil
              rw [hnil] at hcur
              simp at hcur
          · exact hrest.mono le_rfl le_rfl (by omega) le_rfl
        obtain ⟨o, hpo, hseq, hstop, -⟩ := habove.position (mem_map_of_mem hcur)
        exact ⟨o, hpo, by omega, hseq⟩
    have hnew : ix.fresh ∉ ix.queue.map OfoNode.id := by
      intro hmem
      obtain ⟨node, hnode, hid⟩ := mem_map.mp hmem
      exact absurd (h.ids node hnode) (by rw [hid]; exact lt_irrefl _)
    have hlen : ix.rx.ofo.length = pre.length + rest.length := by
      rw [← hofo]
      simp [segs]
    have hcount := h.count
    have hbytes' := h.bytes
    have hused := h.used
    rw [← hofo] at hbytes'
    refine ⟨⟨?_, ?_, ?_, hwindow, h.size, hsegs, hbytes, ?_⟩, by simp, horder, ?_, ?_, hplaced⟩
    · simp only [length_append, length_cons, segs, length_map]
      omega
    · simp only [bytesOf_append, bytesOf_cons] at hbytes' ⊢
      omega
    · show ix.rx.rcvbufUsed + data.length = ix.rx.unreadLen + (ix.rx.ofoBytes + data.length)
      omega
    · have hgauge := h.gauges
      simp only [OfoOwner.gauges, Prod.mk.injEq] at hgauge hgauges ⊢
      omega
    · intro node hnode
      rcases mem_append.mp hnode with hmem | hmem
      · exact (h.ids node (by rw [hqueue]; exact mem_append_left _ hmem)).trans
          (Nat.lt_succ_self _)
      · rcases mem_cons.mp hmem with rfl | hmem
        · exact Nat.lt_succ_self _
        · exact (h.ids node (by rw [hqueue]; exact mem_append_right _ hmem)).trans
            (Nat.lt_succ_self _)
    · have hdistinct := h.distinct
      rw [hqueue, map_append] at hdistinct hnew
      simp only [map_append, map_cons]
      exact nodup_middle.mpr (nodup_cons.mpr ⟨hnew, hdistinct⟩)

theorem edge_of_sameReader (h : rx.SameReader rx') : rx'.edge k = rx.edge k := by
  rw [Rx.edge, Rx.edge, Rx.unreadLen, Rx.unreadLen, Rx.readable, Rx.readable, h.rcvbufSize,
    h.rxCurrent, h.rxQueue]

theorem Inv.near_edge (h : ix.Inv base others k k) : Near k (ix.rx.edge k) := by
  have hedge := h.edge_le
  exact ⟨h.placed.le, by omega⟩

/-- The overlap loop keeps the invariant: it links what no node holds, piece by piece. -/
theorem Inv.insertLoop (h : ix.Inv base others k k) (hqueue : ix.queue = pre ++ rest)
    (hpre : Chain base edge behind k (segs pre) p)
    (hend : p + data.length + bytesOf (segs rest) ≤ ix.rx.edge k)
    (hempty : data.length = 0 → Chain base (ix.rx.edge k) 0 p (segs rest) (ix.rx.edge k)) :
    (insertLoop hasFin ix rest (pos base p) data).2.Inv base others k k ∧
      ix.rx.SameReader (insertLoop hasFin ix rest (pos base p) data).2.rx := by
  induction rest generalizing ix pre p data edge behind with
  | nil =>
    rw [IndexedRx.insertLoop]
    exact h.link data hasFin hqueue hpre (by simpa [Chain] using hend) hend
  | cons cur rest ih =>
    rw [IndexedRx.insertLoop]
    by_cases hlen : data.length = 0
    · rw [if_pos hlen]
      exact h.link data hasFin hqueue hpre (by simpa [hlen] using hempty hlen) hend
    rw [if_neg hlen]
    have hplaced := h.placed
    rw [← h.content, hqueue, segs_append, segs_cons] at hplaced
    obtain ⟨m, hprem, o, hmo, hseq, hfit, hrest⟩ := chain_append.mp hplaced
    have hnear := h.near_edge
    have hkm := hprem.le
    have hkp := hpre.le
    have hohi := hrest.le
    rw [segs_cons, bytesOf_cons] at hend
    have hnearp : Near k p := Near.between le_rfl hkp (by omega) hnear
    have hneare : Near k (o + cur.seg.data.length) :=
      Near.between le_rfl (by omega) hohi hnear
    have hnearo : Near k o := Near.between le_rfl (by omega) (by omega) hnear
    have hnears : Near k (p + data.length) :=
      Near.between le_rfl (by omega) (by omega) hnear
    simp only [endSeq_pos hseq, hseq, pos_add, Near.leq_iff _ hneare hnearp,
      Near.leq_iff _ hnears hnearo, Near.lt_iff _ hnearp hnearo]
    have hcur : ∀ {l : List OfoNode} {q : Nat}, Chain base (ix.rx.edge k) 0 k (segs l) q →
        q ≤ o → Chain base (ix.rx.edge k) 0 k (segs (l ++ [cur])) (o + cur.seg.data.length) := by
      intro l q hl hqo
      rw [segs_append, segs_cons, segs_nil]
      refine chain_append.mpr ⟨q, hl.refit ?_, o, hqo, hseq, ?_, le_rfl⟩
      · simp only [bytesOf_cons, bytesOf_nil]
        omega
      · simp only [bytesOf_nil]
        omega
    have hpre0 := hprem.forget
    by_cases hbelow : o + cur.seg.data.length ≤ p
    · rw [if_pos hbelow]
      have hqueue' : ix.queue = (pre ++ [cur]) ++ rest := by simpa using hqueue
      exact ih h hqueue' ((hcur hpre0 hmo).mono le_rfl le_rfl le_rfl hbelow) (by omega)
        (fun hzero => absurd hzero hlen)
    rw [if_neg hbelow]
    by_cases habove : p + data.length ≤ o
    · rw [if_pos habove]
      exact h.link data hasFin hqueue hpre ⟨o, habove, hseq, hfit, hrest⟩ (by simpa using hend)
    rw [if_neg habove, Near.toNat_sub _ hneare hnearp (by omega)]
    -- the part of the segment behind `cur` goes on, whatever was linked before `cur`
    have hbehind : ∀ {ix' : IndexedRx} {pre' : List OfoNode} {q : Nat},
        ix'.Inv base others k k → ix.rx.SameReader ix'.rx → ix'.queue = pre' ++ cur :: rest →
        Chain base (ix.rx.edge k) 0 k (segs pre') q → q ≤ o →
        o + cur.seg.data.length - p ≤ data.length →
        (IndexedRx.insertLoop hasFin ix' rest (pos base (o + cur.seg.data.length))
          (data.drop (o + cur.seg.data.length - p))).2.Inv base others k k ∧
        ix.rx.SameReader (IndexedRx.insertLoop hasFin ix' rest (pos base (o + cur.seg.data.length))
          (data.drop (o + cur.seg.data.length - p))).2.rx := by
      intro ix' pre' q h' hsame hqueue' hpre' hqo hskip
      have hedge : ix'.rx.edge k = ix.rx.edge k := edge_of_sameReader hsame
      have hqueue'' : ix'.queue = (pre' ++ [cur]) ++ rest := by simpa using hqueue'
      have hend' : o + cur.seg.data.length +
          (data.drop (o + cur.seg.data.length - p)).length + bytesOf (segs rest) ≤
          ix'.rx.edge k := by
        rw [hedge, length_drop]
        omega
      obtain ⟨hinv, hsame'⟩ := ih h' hqueue'' (hcur hpre' hqo) hend'
        (fun _ => by rw [hedge]; exact hrest)
      exact ⟨hinv, hsame.trans hsame'⟩
    by_cases hleft : p < o
    · rw [if_pos hleft, Near.toNat_sub _ hnearo hnearp (by omega)]
      have htake : (data.take (o - p)).length = o - p := by
        rw [length_take]
        omega
      obtain ⟨hinv, hsame⟩ := h.link (data.take (o - p)) false hqueue hpre
        ⟨o, by omega, hseq, hfit, hrest⟩ (by rw [htake, segs_cons, bytesOf_cons]; omega)
      have hcases := link_cases hqueue h.nodup (pos base p) (data.take (o - p)) false
      simp only [List.head?_cons] at hinv hsame hcases
      generalize ix.link (some cur) _ _ false = linked at hinv hsame hcases ⊢
      obtain ⟨_ | _, ix'⟩ := linked
      · exact ⟨hinv, hsame⟩
      rcases hcases with ⟨rx, -, -, hnone⟩ | ⟨-, -, -, -, -, peak, owner, env, -, heq⟩
      · exfalso
        rcases hnone rfl with ⟨hnil, -⟩ | ⟨cur', hcur', hseq'⟩
        · rw [hnil, length_nil] at htake
          omega
        · obtain rfl : cur = cur' := by simpa using hcur'
          rw [hseq, Serial.pos_inj _ (by unfold Near Serial.Near at *; omega)
            (by unfold Near Serial.Near at *; omega)] at hseq'
          omega
      · simp only
        split_ifs with hskip
        · exact ⟨hinv, hsame⟩
        · have hqueue' : ix'.queue = (pre ++ [⟨ix.fresh, ⟨pos base p, data.take (o - p),
              false⟩⟩]) ++ cur :: rest := by
            rw [show ix' = _ from heq]
            simp
          refine hbehind hinv hsame hqueue' ?_ le_rfl (le_of_not_covered hskip)
          rw [segs_append, segs_cons, segs_nil]
          refine chain_append.mpr ⟨p, hpre.refit ?_, p, le_rfl, rfl, ?_, ?_⟩
          · simp only [bytesOf_cons, bytesOf_nil, htake]
            omega
          · simp only [bytesOf_nil, htake]
            omega
          · simp only [Chain, htake]
            omega
    · rw [if_neg hleft]
      split_ifs with hskip
      · exact ⟨h, .refl ix.rx⟩
      · exact hbehind h (.refl ix.rx) hqueue hpre0 hmo (le_of_not_covered hskip)

end IndexedRx

end SnowTG.Tcp
