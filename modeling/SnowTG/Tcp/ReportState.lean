import SnowTG.Tcp.ReceiveWindow
import SnowTG.Tcp.SackReport

/-!
# What the receive path leaves for the report

Every call on the out-of-order queue keeps nodes shorter than a datagram and, if
a duplicate is waiting to be reported, a range of the same kind.  Nothing here
depends on the order of the queue.
-/

namespace SnowTG.Tcp.Options

open SnowTG.Lib List

/-- A range of at least one and less than 2^16 bytes. -/
def ShortRange (block : SackBlock) : Prop :=
  0 < (block.right - block.left).toNat ∧ (block.right - block.left).toNat < 2 ^ 16

variable {block : SackBlock}

theorem ShortRange.ordered (h : ShortRange block) : Serial.gt block.right block.left = true := by
  rw [gt_iff_toNat]
  exact ⟨h.1, h.2.trans (by decide)⟩

section Duplicate

variable {seq : Seq} {len : Nat} {rx : Rx} {a b : Seq}

/-- The overlap of two short ranges is short. -/
theorem overlap_short {n m : Nat} (hpos : 0 < n) (hn : n < 2 ^ 16) (hm : m < 2 ^ 16)
    (hba : Serial.lt b (a + BitVec.ofNat 32 n) = true)
    (hab : Serial.lt a (b + BitVec.ofNat 32 m) = true)
    (hlt : Serial.lt (if Serial.gt a b then a else b)
      (if Serial.lt (a + BitVec.ofNat 32 n) (b + BitVec.ofNat 32 m) then a + BitVec.ofNat 32 n
        else b + BitVec.ofNat 32 m) = true) :
    ShortRange ⟨if Serial.gt a b then a else b,
      if Serial.lt (a + BitVec.ofNat 32 n) (b + BitVec.ofNat 32 m) then a + BitVec.ofNat 32 n
        else b + BitVec.ofNat 32 m⟩ := by
  have ha := a.isLt
  have hb := b.isLt
  split_ifs at hlt ⊢ with hgt hend hend
  all_goals
    simp only [ShortRange, Serial.lt_iff_toNat, gt_iff_toNat, BitVec.toNat_sub, BitVec.toNat_add,
      BitVec.toNat_ofNat] at *
    omega

theorem duplicateIn_short {ofo : List OfoSeg} (hpos : 0 < len) (hlen : len < 2 ^ 16)
    (hofo : ∀ seg ∈ ofo, seg.data.length < 2 ^ 16)
    (h : tcpSackDuplicateIn seq (seq + BitVec.ofNat 32 len) ofo = some block) :
    ShortRange block := by
  induction ofo with
  | nil => exact absurd h (Option.some_ne_none _).symm
  | cons seg rest ih =>
    have hseg := hofo seg mem_cons_self
    have hrest := ih fun other hother => hofo other (mem_cons_of_mem _ hother)
    rw [tcpSackDuplicateIn] at h
    by_cases hbefore : (!Serial.lt seg.seq (seq + BitVec.ofNat 32 len)) = true
    · rw [if_pos hbefore] at h
      exact absurd h (Option.some_ne_none _).symm
    rw [if_neg hbefore] at h
    by_cases hbehind : (!Serial.lt seq seg.endSeq) = true
    · rw [if_pos hbehind] at h
      exact hrest h
    rw [if_neg hbehind] at h
    dsimp only at h
    by_cases hlt : Serial.lt (if Serial.gt seq seg.seq then seq else seg.seq)
        (if Serial.lt (seq + BitVec.ofNat 32 len) seg.endSeq then seq + BitVec.ofNat 32 len
          else seg.endSeq) = true
    · rw [if_pos hlt] at h
      obtain rfl := Option.some.inj h
      rw [Bool.not_eq_true', Bool.not_eq_false] at hbefore hbehind
      exact overlap_short hpos hlen hseg hbefore hbehind hlt
    · rw [if_neg hlt] at h
      exact hrest h

/-- The part of a short range below `recv_ack` is short. -/
theorem below_short (hlen : len < 2 ^ 16) (hab : Serial.lt a b = true)
    (hlt : Serial.lt a (if Serial.lt (a + BitVec.ofNat 32 len) b then a + BitVec.ofNat 32 len
      else b) = true) :
    ShortRange
      ⟨a, if Serial.lt (a + BitVec.ofNat 32 len) b then a + BitVec.ofNat 32 len else b⟩ := by
  have ha := a.isLt
  have hb := b.isLt
  split_ifs at hlt ⊢ with hend
  all_goals
    simp only [ShortRange, Serial.lt_iff_toNat, BitVec.toNat_sub, BitVec.toNat_add,
      BitVec.toNat_ofNat] at *
    omega

/-- A duplicate that is noted is short. -/
theorem noteDuplicate_short (hlen : len < 2 ^ 16) (hofo : ∀ seg ∈ rx.ofo, seg.data.length < 2 ^ 16)
    (h : (tcpSackNoteDuplicate rx seq len).dsackPending = true) :
    ShortRange (tcpSackNoteDuplicate rx seq len).dsackBlock := by
  simp only [tcpSackNoteDuplicate] at h ⊢
  by_cases hoff : (!rx.sackPermitted || len = 0) = true
  · rw [if_pos hoff] at h
    exact absurd h Bool.false_ne_true
  rw [if_neg hoff] at h ⊢
  have hpos : 0 < len := by
    simp only [Bool.or_eq_true, decide_eq_true_iff, not_or] at hoff
    omega
  by_cases hbelow : (Serial.lt seq rx.recvAck && Serial.lt seq
      (if Serial.lt (seq + BitVec.ofNat 32 len) rx.recvAck then seq + BitVec.ofNat 32 len
        else rx.recvAck)) = true
  · rw [if_pos hbelow]
    rw [Bool.and_eq_true] at hbelow
    exact below_short hlen hbelow.1 hbelow.2
  · rw [if_neg hbelow] at h ⊢
    cases hfound : tcpSackDuplicateIn seq (seq + BitVec.ofNat 32 len) rx.ofo with
    | none =>
      rw [hfound] at h
      exact absurd h Bool.false_ne_true
    | some block => exact duplicateIn_short hpos hlen hofo hfound

end Duplicate

/-- The queue holds short nodes only, and a duplicate to report is short. -/
structure Reportable (ix : IndexedRx) : Prop where
  content : IndexedRx.segs ix.queue = ix.rx.ofo
  short : ∀ node ∈ ix.queue, node.seg.data.length < 2 ^ 16
  duplicate : ix.rx.dsackPending = true → ShortRange ix.rx.dsackBlock

/-- The queue is the same, and a duplicate to report was there before. -/
structure SameReport (rx rx' : Rx) : Prop where
  ofo : rx'.ofo = rx.ofo
  pending : rx'.dsackPending = true → rx.dsackPending = true
  block : rx'.dsackBlock = rx.dsackBlock

variable {nodes : List OfoNode}

section Frames

variable {rx rx' : Rx} {ix : IndexedRx}

theorem sameReport_of_onlyOwner (h : rx.OnlyOwner rx') : SameReport rx rx' := by
  obtain ⟨owner, env, rfl, -⟩ := h
  exact ⟨rfl, id, rfl⟩

theorem noteRecent_sameReport (rx : Rx) (seq : Seq) (len : Nat) :
    SameReport rx (tcpSackNoteRecent rx seq len) := by
  obtain ⟨valid, block, heq⟩ := noteRecent_eq rx seq len
  rw [heq]
  exact ⟨rfl, id, rfl⟩

theorem Reportable.congr (h : Reportable ix) (hsame : SameReport ix.rx rx) :
    Reportable { ix with rx := rx } := by
  constructor
  · exact h.content.trans hsame.ofo.symm
  · exact h.short
  · intro hpending
    show ShortRange rx.dsackBlock
    rw [hsame.block]
    exact h.duplicate (hsame.pending hpending)

/-- With the queue replaced as well. -/
theorem Reportable.replace {tree : RedBlack.Tree OfoNode} {fresh : Nat} (h : Reportable ix)
    (hshort : ∀ node ∈ nodes, node.seg.data.length < 2 ^ 16) (hofo : rx.ofo = IndexedRx.segs nodes)
    (hpending : rx.dsackPending = true → ix.rx.dsackPending = true)
    (hblock : rx.dsackBlock = ix.rx.dsackBlock) : Reportable ⟨rx, nodes, tree, fresh⟩ := by
  constructor
  · exact hofo.symm
  · exact hshort
  · intro hwaiting
    show ShortRange rx.dsackBlock
    rw [hblock]
    exact h.duplicate (hpending hwaiting)

theorem Reportable.ofo_short (h : Reportable ix) : ∀ seg ∈ ix.rx.ofo, seg.data.length < 2 ^ 16 := by
  intro seg hseg
  rw [← h.content] at hseg
  obtain ⟨node, hnode, rfl⟩ := mem_map.mp hseg
  exact h.short node hnode

theorem Reportable.noteDuplicate {seq : Seq} {len : Nat} (h : Reportable ix) (hlen : len < 2 ^ 16) :
    Reportable { ix with rx := tcpSackNoteDuplicate ix.rx seq len } := by
  constructor
  · exact h.content.trans (noteDuplicate_ofo ix.rx seq len).symm
  · exact h.short
  · exact noteDuplicate_short hlen h.ofo_short

end Frames

namespace Reportable

variable {ix : IndexedRx} {seq : Seq} {data : List UInt8} {hasFin : Bool}

theorem around_append (before : Option OfoNode) :
    (ix.around before).1 ++ (ix.around before).2 = ix.queue := by
  cases before with
  | none => exact append_nil _
  | some cur => exact takeWhile_append_dropWhile

section

variable (h : Reportable ix)
include h

theorem link (before : Option OfoNode) (hdata : data.length < 2 ^ 16) :
    Reportable (ix.link before seq data hasFin).2 := by
  have hmem : ∀ node, node ∈ (ix.around before).1 ∨ node ∈ (ix.around before).2 →
      node ∈ ix.queue := by
    intro node hnode
    rw [← around_append before]
    exact mem_append.mpr hnode
  simp only [IndexedRx.link]
  rcases tcpOfoLink_cases ix.rx (IndexedRx.segs (ix.around before).1)
    (IndexedRx.segs (ix.around before).2) seq data hasFin with
    ⟨howner, -⟩ | ⟨-, -, -, -, -, -, peak, owner, env, -, heq⟩
  · rw [if_pos howner.sameAccounts.ofoCount]
    exact h.congr (sameReport_of_onlyOwner howner)
  · rw [heq, if_neg (Nat.succ_ne_self _)]
    apply h.replace
    · intro node hnode
      rcases mem_append.mp hnode with hpre | hpost
      · exact h.short node (hmem node (.inl hpre))
      · rcases mem_cons.mp hpost with rfl | hrest
        · exact hdata
        · exact h.short node (hmem node (.inr hrest))
    · simp [IndexedRx.segs]
    · exact id
    · rfl

theorem insertLoop (hdata : data.length < 2 ^ 16) :
    Reportable (IndexedRx.insertLoop hasFin ix nodes seq data).2 := by
  induction nodes generalizing ix seq data with
  | nil => exact h.link none hdata
  | cons cur rest ih =>
    have hdrop : ∀ n, (data.drop n).length < 2 ^ 16 := by
      intro n
      rw [length_drop]
      omega
    have htake : ∀ n, (data.take n).length < 2 ^ 16 := fun n =>
      (length_take_le' _ _).trans_lt hdata
    rw [IndexedRx.insertLoop]
    dsimp only
    by_cases hempty : data.length = 0
    · rw [if_pos hempty]
      exact h.link (some cur) hdata
    rw [if_neg hempty]
    by_cases hbehind : Serial.leq cur.seg.endSeq seq = true
    · rw [if_pos hbehind]
      exact ih h hdata
    rw [if_neg hbehind]
    by_cases hbefore : Serial.leq (seq + BitVec.ofNat 32 data.length) cur.seg.seq = true
    · rw [if_pos hbefore]
      exact h.link (some cur) hdata
    rw [if_neg hbefore]
    by_cases hleft : Serial.lt seq cur.seg.seq = true
    · rw [if_pos hleft]
      have hlinked : Reportable
          (ix.link (some cur) seq (data.take (cur.seg.seq - seq).toNat) false).2 :=
        h.link (some cur) (htake _)
      generalize ix.link (some cur) seq (data.take (cur.seg.seq - seq).toNat) false = linked
        at hlinked ⊢
      obtain ⟨_ | _, after⟩ := linked
      · exact hlinked
      · dsimp only
        split_ifs
        · exact hlinked
        · exact ih hlinked (hdrop _)
    · rw [if_neg hleft]
      split_ifs
      · exact h
      · exact ih h (hdrop _)

theorem recordDrop (seq : Seq) (len : Nat) (hasFin : Bool) :
    Reportable (ix.recordRcvWindowDrop seq len hasFin) := by
  obtain ⟨rx, howner, heq⟩ := IndexedRx.recordRcvWindowDrop_onlyOwner ix seq len hasFin
  rw [heq]
  exact h.congr (sameReport_of_onlyOwner howner)

theorem queueAhead (hdata : data.length < 2 ^ 16) :
    Reportable (ix.queueAhead seq data hasFin).2 := by
  rw [IndexedRx.queueAhead]
  dsimp only
  have hclip : ∀ (clipped : Bool) (n : Nat),
      (if clipped then data.take n else data).length < 2 ^ 16 := by
    intro clipped n
    split_ifs
    · exact (length_take_le' _ _).trans_lt hdata
    · exact hdata
  by_cases hbeyond : (!Serial.lt seq (ix.rx.recvAck + BitVec.ofNat 32 (tcpRcvWnd ix.rx))) = true
  · rw [if_pos hbeyond]
    split_ifs
    · exact h
    · exact h.recordDrop _ _ _
  · rw [if_neg hbeyond]
    generalize Serial.gt (seq + BitVec.ofNat 32 data.length) _ = clipped
    have hdata' := hclip clipped
      (ix.rx.recvAck + BitVec.ofNat 32 (tcpRcvWnd ix.rx) - seq).toNat
    generalize (if clipped then _ else data) = data' at hdata' ⊢
    split_ifs
    · exact h
    · exact h.insertLoop hdata'

theorem queueInsert (hdata : data.length < 2 ^ 16) :
    Reportable (ix.queueInsert seq data hasFin).2 := by
  rw [IndexedRx.queueInsert]
  dsimp only
  split_ifs
  · exact h
  · apply h.queueAhead
    rw [length_drop]
    omega
  · exact h.queueAhead hdata

theorem insert (hdata : data.length < 2 ^ 16) : Reportable (ix.insert seq data hasFin) :=
  have hqueued := (h.noteDuplicate hdata).queueInsert hdata
  hqueued.congr (noteRecent_sameReport _ _ _)

end

theorem purge (ix : IndexedRx) : Reportable ix.purge := by
  constructor
  · rfl
  · intro node hnode
    exact absurd hnode not_mem_nil
  · intro hpending
    exact absurd hpending Bool.false_ne_true

/-- A drain leaves nodes or their ends, and no other duplicate. -/
theorem drain (h : Reportable ix) : Reportable ix.drain := by
  have hdrained := IndexedRx.drained_drain ix
  refine ⟨hdrained.content h.content, fun node' hnode' => ?_, fun hpending => ?_⟩
  · obtain ⟨node, hnode, hpart⟩ := hdrained.mem hnode'
    exact hpart.length_le.trans_lt (h.short node hnode)
  · rcases hdrained.notes with hsame | ⟨-, hnone⟩
    · simp only [Rx.notes, Prod.mk.injEq] at hsame
      rw [hsame.2.2]
      exact h.duplicate (hsame.2.1 ▸ hpending)
    · rw [hnone] at hpending
      exact absurd hpending Bool.false_ne_true

theorem receiveRange {status : Status} {payload : List UInt8} (h : Reportable ix)
    (hlen : payload.length < 2 ^ 16) : Reportable (ix.receiveRange status seq payload hasFin) := by
  have hnoted : Reportable { ix with rx := tcpSackNoteDuplicate ix.rx seq payload.length } :=
    h.noteDuplicate hlen
  have hdata := (IndexedRx.length_windowCut ix.rx seq payload).trans_lt hlen
  have hranged := IndexedRx.receiveRange_ranged ix status seq payload hasFin
  generalize ix.receiveRange status seq payload hasFin = ix' at hranged ⊢
  generalize tcpSackNoteDuplicate ix.rx seq payload.length = rx at hnoted hranged
  cases hranged with
  | eof => exact hnoted.congr ⟨rfl, id, rfl⟩
  | dropped => exact hnoted.recordDrop _ _ _
  | refused => exact insert (hnoted.congr ⟨rfl, id, rfl⟩) hdata
  | finished => exact purge _
  | delivered => exact drain (hnoted.congr ⟨rfl, id, rfl⟩)
  | queued => exact (hnoted.insert hdata).drain

theorem recv (h : Reportable ix) (len : Nat) : Reportable (ix.recv len) := by
  rcases ix.recv_drains len with heq | ⟨current, queue, used, next, -, heq⟩
  · rw [heq]
    exact h
  · rw [heq]
    have hread : Reportable { ix with
        rx := { ix.rx with rxCurrent := current, rxQueue := queue, rcvbufUsed := used } } :=
      h.congr ⟨rfl, id, rfl⟩
    exact hread.drain.congr ⟨rfl, id, rfl⟩

theorem drainRecv (ix : IndexedRx) : Reportable ix.drainRecv :=
  (purge { ix with rx := { ix.rx with rxQueue := [], rxCurrent := none } }).congr ⟨rfl, id, rfl⟩

/-- Every call on the queue keeps the report sound. -/
theorem apply (h : Reportable ix) (call : QueueCall) (hlen : call.payload.length < 2 ^ 16) :
    Reportable (call.apply ix) := by
  cases call with
  | insert seq data hasFin => exact h.insert hlen
  | drain => exact h.drain
  | purge => exact purge ix
  | segment status seq payload hasFin => exact h.receiveRange hlen
  | recv len => exact h.recv len
  | drainRecv => exact drainRecv ix

end Reportable

end SnowTG.Tcp.Options
