import SnowTG.Tcp.OfoPlacement

/-!
# The out-of-order operations keep list, tree and accounts together

The search in the tree finds the place in the list, so that insertion, and with
it every operation of the receive path, keeps the invariant of the two
representations.
-/

namespace SnowTG.Tcp

open SnowTG.Lib List
open SnowTG.Lib.Serial (pos Near)

namespace IndexedRx

variable {base : Seq} {others : Nat × Nat} {lo k p : Nat} {ix : IndexedRx} {rx : Rx}
  {data : List UInt8} {hasFin : Bool} {seq : Seq}

/-- The sequence number lies strictly inside a node. -/
def covers (ix : IndexedRx) (seq : Seq) : Bool :=
  ix.queue.any fun node => Serial.lt node.seg.seq seq && Serial.gt node.seg.endSeq seq

/-- Nodes that start below `p` and nodes from `p` on. -/
theorem chain_split {edge behind hi : Nat} {nodes : List OfoNode}
    (h : Chain base edge behind lo (segs nodes) hi) (hp : p ≤ hi) :
    ∃ pre rest, nodes = pre ++ rest ∧
      (∀ node ∈ pre, ∃ o, lo ≤ o ∧ o < p ∧ node.seg.seq = pos base o) ∧
      (∀ node ∈ rest, ∃ o, p ≤ o ∧ o ≤ hi ∧ node.seg.seq = pos base o) ∧
      Chain base edge behind p (segs rest) hi := by
  induction nodes generalizing lo with
  | nil => exact ⟨[], [], rfl, by simp, by simp, hp⟩
  | cons node nodes ih =>
    obtain ⟨o, hlo, hseq, hfit, hrest⟩ := h
    by_cases hop : o < p
    · obtain ⟨pre, rest, rfl, hpre, hbehind, hchain⟩ := ih hrest
      refine ⟨node :: pre, rest, rfl, ?_, hbehind, hchain⟩
      intro cur hcur
      rcases mem_cons.mp hcur with rfl | hcur
      · exact ⟨o, hlo, hop, hseq⟩
      · obtain ⟨o', ho', hop', hseq'⟩ := hpre cur hcur
        exact ⟨o', by omega, hop', hseq'⟩
    · have hfrom : Chain base edge behind p (segs (node :: nodes)) hi :=
        ⟨o, by omega, hseq, hfit, hrest⟩
      refine ⟨[], node :: nodes, rfl, by simp, ?_, hfrom⟩
      intro cur hcur
      obtain ⟨o', ho', hseq', hend, -⟩ := hfrom.position (mem_map_of_mem hcur)
      exact ⟨o', ho', by omega, hseq'⟩

/-- The last node before the first node of `rest`. -/
theorem Inv.prevOf (h : ix.Inv base others lo k) {pre rest : List OfoNode}
    (hqueue : ix.queue = pre ++ rest) : ix.prevOf rest.head? = pre.getLast? := by
  have hinorder : ix.tree.inorder = pre ++ rest := h.order.trans hqueue
  have hnodup : ix.tree.inorder.Nodup := h.order ▸ h.nodup
  cases rest with
  | nil => rw [List.head?_nil, IndexedRx.prevOf, RedBlack.maximum_eq, hinorder, append_nil]
  | cons node rest => exact RedBlack.prev_eq hinorder hnodup

/-- The insertion starts where the list is to be cut: everything before the cursor ends at or below
`p`, and unless a node holds `p` inside, everything from it on starts at or above `p`. -/
theorem Inv.cursor (h : ix.Inv base others k k) (hkp : k ≤ p) (hp : p ≤ ix.rx.edge k) :
    ∃ pre rest, ix.queue = pre ++ rest ∧ ix.cursor (pos base p) = rest.head? ∧
      Chain base (ix.rx.edge k) 0 k (segs pre) p ∧
      (ix.covers (pos base p) = false →
        Chain base (ix.rx.edge k) 0 p (segs rest) (ix.rx.edge k)) := by
  have hnear := h.near_edge
  have hnearp : Near k p := Near.between le_rfl hkp hp hnear
  have hplaced := h.placed
  rw [← h.content] at hplaced
  obtain ⟨pre, rest, hqueue, hpre, hrest, hchain⟩ := chain_split hplaced hp
  have hstarts : ∀ node ∈ pre, Serial.lt node.seg.seq (pos base p) = true := by
    intro node hnode
    obtain ⟨o, hko, hop, hseq⟩ := hpre node hnode
    rw [hseq, Near.lt_iff base (Near.between le_rfl hko hop.le hnearp) hnearp]
    exact hop
  have hlower : ix.lowerBound (pos base p) = rest.head? := by
    rw [IndexedRx.lowerBound, RedBlack.lowerBound_eq (h.order.trans hqueue) hstarts, Option.or_none]
    · intro node hnode
      obtain ⟨o, hpo, hohi, hseq⟩ := hrest node hnode
      rw [hseq, Bool.eq_false_iff, ne_eq,
        Near.lt_iff base (Near.between le_rfl (hkp.trans hpo) hohi hnear) hnearp]
      omega
  have hprev := h.prevOf hqueue
  rw [hqueue, segs_append] at hplaced
  obtain ⟨m, hprem, -⟩ := chain_append.mp hplaced
  simp only [IndexedRx.cursor, hlower, hprev]
  cases hlast : pre.getLast? with
  | none =>
    obtain rfl := List.getLast?_eq_none_iff.mp hlast
    exact ⟨[], rest, hqueue, rfl, hkp, fun _ => hchain⟩
  | some prev =>
    obtain ⟨init, rfl⟩ := List.getLast?_eq_some_iff.mp hlast
    have hbehind := hprem
    rw [segs_append, segs_cons, segs_nil] at hbehind
    obtain ⟨m', hinit, o, hmo, hseq, hfit, hend⟩ := chain_append.mp hbehind
    have hkm := hinit.le
    simp only [bytesOf_nil] at hfit
    have hneare : Near k (o + prev.seg.data.length) :=
      Near.between le_rfl (by omega) (by omega) hnear
    have hnearo : Near k o := Near.between le_rfl (by omega) (by omega) hneare
    have hlt := hstarts prev (by simp)
    have hop : o < p := (Near.lt_iff base hnearo hnearp).mp (hseq ▸ hlt)
    have hgt := Near.gt_iff base hneare hnearp
    rw [← endSeq_pos hseq] at hgt
    by_cases hover : p < o + prev.seg.data.length
    · simp only [if_pos (hgt.mpr hover)]
      refine ⟨init, prev :: rest, by simpa using hqueue, rfl,
        hinit.forget.mono le_rfl le_rfl le_rfl (by omega), fun hcovers => ?_⟩
      rw [covers, any_eq_false] at hcovers
      refine absurd ?_ (hcovers prev (by rw [hqueue]; simp))
      rw [hlt, hgt.mpr hover]
      rfl
    · simp only [if_neg fun h => hover (hgt.mp h)]
      refine ⟨init ++ [prev], rest, hqueue, rfl, ?_, fun _ => hchain⟩
      rw [segs_append, segs_cons, segs_nil]
      refine chain_append.mpr ⟨m', hinit.mono le_rfl ?_ le_rfl le_rfl, o, hmo, hseq, ?_, ?_⟩
      · simp only [bytesOf_cons, bytesOf_nil]
        omega
      · simp only [bytesOf_nil]
        omega
      · simp only [Chain]
        omega

theorem recordRcvWindowDrop_onlyOwner (ix : IndexedRx) (seq : Seq) (len : Nat) (hasFin : Bool) :
    ∃ rx, ix.rx.OnlyOwner rx ∧ ix.recordRcvWindowDrop seq len hasFin = { ix with rx := rx } := by
  rw [recordRcvWindowDrop]
  split_ifs
  · exact ⟨ix.rx, .refl ix.rx, rfl⟩
  · exact ⟨_, count_onlyOwner ix.rx rfl, rfl⟩

theorem Inv.recordRcvWindowDrop (h : ix.Inv base others lo k) (seq : Seq) (len : Nat)
    (hasFin : Bool) : (ix.recordRcvWindowDrop seq len hasFin).Inv base others lo k ∧
      ix.rx.SameReader (ix.recordRcvWindowDrop seq len hasFin).rx := by
  obtain ⟨rx, howner, heq⟩ := recordRcvWindowDrop_onlyOwner ix seq len hasFin
  rw [heq]
  exact ⟨h.congr howner.sameAccounts, howner.sameReader⟩

theorem window_le (ix : IndexedRx) (h : ix.Inv base others lo k) : tcpRcvWnd ix.rx ≤ 2 ^ 18 :=
  (tcpRcvWnd_le ix.rx).trans h.size

section

variable (h : ix.Inv base others k k)
include h

/-- Queueing a segment that does not start before `recv_ack`. -/
theorem Inv.queueAhead (hack : ix.rx.recvAck = pos base k)
    (hseq : Serial.lt seq ix.rx.recvAck = false) (hlen : data.length < 2 ^ 16)
    (hinside : data = [] → hasFin = true → ix.covers seq = false) :
    (ix.queueAhead seq data hasFin).2.Inv base others k k ∧
      ix.rx.SameReader (ix.queueAhead seq data hasFin).2.rx := by
  have hwnd := window_le ix h
  have hedge := h.edge_eq
  rw [hack] at hseq
  obtain ⟨p, hnearp, rfl⟩ := Serial.exists_pos_of_not_lt base hseq
  have hnearw : Near k (k + tcpRcvWnd ix.rx) := ⟨by omega, by omega⟩
  simp only [IndexedRx.queueAhead, hack, Serial.pos_add]
  by_cases hin : p < k + tcpRcvWnd ix.rx
  · have hkp := hnearp.1
    have hneare : Near k (p + data.length) := ⟨by omega, by omega⟩
    rw [(Near.lt_iff _ hnearp hnearw).mpr hin, Near.toNat_sub _ hnearw hnearp (by omega)]
    have hclip := Near.gt_iff base hneare hnearw
    generalize Serial.gt (pos base (p + data.length)) _ = clipped at hclip ⊢
    generalize hdata : (if clipped = true then data.take (k + tcpRcvWnd ix.rx - p) else data) = data'
    have hend : p + data'.length ≤ k + tcpRcvWnd ix.rx := hdata ▸ clip_end_le hin.le hclip
    simp only [Bool.not_true, Bool.false_eq_true, if_false]
    split_ifs with hnone
    · exact ⟨h, .refl ix.rx⟩
    · obtain ⟨pre, rest, hqueue, hcursor, hpre, hrest⟩ := h.cursor hkp (by omega)
      have hofo : segs pre ++ segs rest = ix.rx.ofo := by
        rw [← segs_append, ← hqueue]
        exact h.content
      have hbytes : bytesOf (segs rest) ≤ bytesOf ix.rx.ofo := by
        rw [← hofo, bytesOf_append]
        omega
      rw [hcursor, around_head hqueue h.nodup]
      dsimp only
      refine h.insertLoop hqueue hpre (by omega) fun hzero => hrest ?_
      -- only a FIN gets here without payload, and its segment was not clipped
      have hfin : hasFin = true ∧ clipped = false := by simpa [hzero] using hnone
      refine hinside ?_ hfin.1
      rw [hfin.2, if_neg (by simp)] at hdata
      rw [hdata]
      exact length_eq_zero_iff.mp hzero
  · rw [Bool.eq_false_iff.mpr (mt (Near.lt_iff _ hnearp hnearw).mp hin)]
    simp only [Bool.not_false, if_true]
    split_ifs
    · exact ⟨h, .refl ix.rx⟩
    · exact h.recordRcvWindowDrop _ _ _

/-- No node reaches below `recv_ack`. -/
theorem Inv.not_covers_ack (hack : ix.rx.recvAck = pos base k) :
    ix.covers ix.rx.recvAck = false := by
  have hnear := h.near_edge
  rw [covers, any_eq_false]
  intro node hnode
  have hmem : node.seg ∈ ix.rx.ofo := by
    rw [← h.content]
    exact mem_map_of_mem hnode
  obtain ⟨o, hko, hseq, hend, -⟩ := h.placed.position hmem
  have hnot : ¬Serial.lt node.seg.seq ix.rx.recvAck = true := by
    rw [hseq, hack, Near.lt_iff base (Near.between le_rfl hko (by omega) hnear)
      (Near.between le_rfl le_rfl h.placed.le hnear)]
    omega
  simp [hnot]

/-- Queueing any segment keeps the invariant, unless it is a FIN inside a node. -/
theorem Inv.queueInsert (hack : ix.rx.recvAck = pos base k) (hlen : data.length < 2 ^ 16)
    (hinside : data = [] → hasFin = true → ix.covers seq = false) :
    (ix.queueInsert seq data hasFin).2.Inv base others k k ∧
      ix.rx.SameReader (ix.queueInsert seq data hasFin).2.rx := by
  rw [IndexedRx.queueInsert]
  by_cases hold : Serial.lt seq ix.rx.recvAck = true
  · rw [if_pos hold]
    simp only
    split_ifs
    · exact ⟨h, .refl ix.rx⟩
    · refine h.queueAhead hack ?_ ?_ fun _ _ => h.not_covers_ack hack
      · simp [Serial.lt]
      · rw [length_drop]
        omega
  · rw [if_neg hold]
    exact h.queueAhead hack (by simpa using hold) hlen hinside

theorem Inv.insert (hack : ix.rx.recvAck = pos base k) (hlen : data.length < 2 ^ 16)
    (hinside : data = [] → hasFin = true → ix.covers seq = false) :
    (ix.insert seq data hasFin).Inv base others k k ∧
      ix.rx.SameReader (ix.insert seq data hasFin).rx := by
  have hnote := noteDuplicate_sameReader ix.rx seq data.length
  have hnoted := h.congr (noteDuplicate_sameAccounts ix.rx seq data.length)
  obtain ⟨hinv, hsame⟩ := hnoted.queueInsert (hnote.recvAck.trans hack) hlen hinside
  simp only [IndexedRx.insert]
  refine ⟨hinv.congr (noteRecent_sameAccounts _ _ _), (hnote.trans hsame).trans ?_⟩
  obtain ⟨valid, block, heq⟩ := noteRecent_eq
    (IndexedRx.queueInsert { ix with rx := tcpSackNoteDuplicate ix.rx seq data.length } seq data
      hasFin).2.rx seq data.length
  rw [heq]
  exact ⟨rfl, rfl, rfl, rfl, rfl⟩

end

end IndexedRx

end SnowTG.Tcp
