import SnowTG.Tcp.Reassembly

/-!
# The receive invariant

At every point the bytes handed to the application and the bytes still readable
together are the stream prefix that `recv_ack` acknowledges, and the
out-of-order queue holds well placed cuts above it.  Delivery, draining, range
handling and reads keep this invariant.
-/

namespace SnowTG.Tcp

open SnowTG.Lib List
open SnowTG.Lib.Serial (pos Near pos_add pos_succ pos_inj lt_pos_iff)

variable {S : PeerStream} {rx rx' : Rx} {held : Option RxBlob} {got : List UInt8} {k p lo hi : Nat}
  {data : List UInt8} {hasFin : Bool} {status : Status}

/-- Unread bytes of one blob. -/
def RxBlob.unread (blob : RxBlob) : List UInt8 := blob.data.drop blob.off

/-- Bytes the application can read now, in order. -/
def Rx.readable (rx : Rx) : List UInt8 :=
  (rx.rxCurrent.toList.map RxBlob.unread).flatten ++ (rx.rxQueue.map RxBlob.unread).flatten

/-- The part of the invariant that does not mention the out-of-order queue: `k` bytes of the
stream have been accepted, and `got` of them are already with the application, which is reading
`held`.  Every queued blob has something left to read. -/
structure RxPrefix (S : PeerStream) (held : Option RxBlob) (got : List UInt8) (k : Nat) (rx : Rx) :
    Prop where
  size : rx.rcvbufSize ≤ 2 ^ 18
  inside : k ≤ S.data.length
  bytes : got ++ rx.readable = S.data.take k
  reading : rx.rxCurrent = held
  blobs : ∀ blob ∈ rx.rxQueue, blob.off < blob.data.length

/-- The receive invariant between two calls. -/
structure RxInv (S : PeerStream) (held : Option RxBlob) (got : List UInt8) (k : Nat) (rx : Rx) :
    Prop extends RxPrefix S held got k rx where
  ack : rx.recvAck = Serial.pos S.irs (k + if rx.peerEof then 1 else 0)
  eof : rx.peerEof = true → S.fin = true ∧ k = S.data.length ∧ rx.ofo = []
  queue : Queue S k rx.ofo (k + 2 ^ 18)

theorem RxPrefix.congr (hpre : RxPrefix S held got k rx) (hsize : rx'.rcvbufSize = rx.rcvbufSize)
    (hcurrent : rx'.rxCurrent = rx.rxCurrent) (hqueue : rx'.rxQueue = rx.rxQueue) :
    RxPrefix S held got k rx' := by
  refine ⟨hsize ▸ hpre.size, hpre.inside, ?_, hcurrent.trans hpre.reading, ?_⟩
  · rw [Rx.readable, hcurrent, hqueue]
    exact hpre.bytes
  · rw [hqueue]
    exact hpre.blobs

theorem RxPrefix.of_sameReader (hpre : RxPrefix S held got k rx) (h : rx.SameReader rx') :
    RxPrefix S held got k rx' :=
  hpre.congr h.rcvbufSize h.rxCurrent h.rxQueue

/-- A chain above `recv_ack` completes the invariant of a stream whose end is not reached. -/
theorem RxPrefix.inv (hpre : RxPrefix S held got k rx) (hack : rx.recvAck = pos S.irs k)
    (heof : rx.peerEof = false) (hqueue : Queue S k rx.ofo (k + 2 ^ 18)) : RxInv S held got k rx := by
  refine ⟨hpre, ?_, ?_, hqueue⟩
  · simpa [heof] using hack
  · intro h
    cases heof.symm.trans h

theorem RxInv.of_sameReader (hinv : RxInv S held got k rx) (h : rx.SameReader rx')
    (hofo : rx'.ofo = rx.ofo) : RxInv S held got k rx' := by
  refine ⟨hinv.toRxPrefix.of_sameReader h, ?_, ?_, hofo ▸ hinv.queue⟩
  · rw [h.recvAck, h.peerEof]
    exact hinv.ack
  · rw [h.peerEof, hofo]
    exact hinv.eof

theorem noteDuplicate_eq (rx : Rx) (seq : Seq) (len : Nat) :
    ∃ pending block, tcpSackNoteDuplicate rx seq len =
      { rx with dsackPending := pending, dsackBlock := block } := by
  simp only [tcpSackNoteDuplicate]
  split_ifs <;> first | exact ⟨_, _, rfl⟩ | (split <;> exact ⟨_, _, rfl⟩)

theorem noteRecent_eq (rx : Rx) (seq : Seq) (len : Nat) :
    ∃ valid block, tcpSackNoteRecent rx seq len =
      { rx with sackRecentValid := valid, sackRecent := block } := by
  simp only [tcpSackNoteRecent]
  split <;> exact ⟨_, _, rfl⟩

theorem noteDuplicate_sameReader (rx : Rx) (seq : Seq) (len : Nat) :
    rx.SameReader (tcpSackNoteDuplicate rx seq len) := by
  obtain ⟨pending, block, heq⟩ := noteDuplicate_eq rx seq len
  rw [heq]
  exact ⟨rfl, rfl, rfl, rfl, rfl⟩

theorem noteDuplicate_ofo (rx : Rx) (seq : Seq) (len : Nat) :
    (tcpSackNoteDuplicate rx seq len).ofo = rx.ofo := by
  obtain ⟨pending, block, heq⟩ := noteDuplicate_eq rx seq len
  rw [heq]

/-- `tcp_deliver_payload` fails without a trace or appends one full blob. -/
theorem deliver_cases (rx : Rx) (data : List UInt8) :
    ∃ env, tcpDeliverPayload rx data = (false, { rx with env := env }) ∨
      tcpDeliverPayload rx data = (true, { rx with
        env := env
        rxQueue := rx.rxQueue ++ if data = [] then [] else [⟨data, 0⟩] }) := by
  simp only [tcpDeliverPayload, nsockTcpRxEnqueue, length_eq_zero_iff]
  by_cases hdata : data = []
  · refine ⟨rx.env, .inr ?_⟩
    simp [hdata]
  · simp only [hdata, if_false]
    split_ifs <;> exact ⟨_, by first | exact .inl rfl | exact .inr rfl⟩

theorem unlink_sameReader (rx : Rx) (len : Nat) : rx.SameReader (tcpOfoUnlink rx len) := by
  simp only [tcpOfoUnlink]
  split_ifs <;> exact ⟨rfl, rfl, rfl, rfl, rfl⟩

theorem purge_sameReader (rx : Rx) : rx.SameReader (tcpOfoPurge rx) := by
  have hfold : ∀ (nodes : List OfoSeg) (start : Rx), rx.SameReader start →
      rx.SameReader (nodes.foldl (fun rx seg =>
        tcpOfoUnlink (tcpOfoRcvbufSub rx seg.data.length) seg.data.length) start) := by
    intro nodes
    induction nodes with
    | nil => exact fun start h => h
    | cons seg rest ih =>
      intro start h
      apply ih
      have hsub : start.SameReader (tcpOfoRcvbufSub start seg.data.length) :=
        ⟨rfl, rfl, rfl, rfl, rfl⟩
      exact (h.trans hsub).trans (unlink_sameReader _ _)
  have hnodes := hfold rx.ofo rx (.refl rx)
  exact { hnodes with }

@[simp] theorem purge_ofo (rx : Rx) : (tcpOfoPurge rx).ofo = [] := rfl

/-- The peer FIN completes the invariant once every stream byte is accepted. -/
theorem RxPrefix.inv_purge (hpre : RxPrefix S held got k rx)
    (hack : rx.recvAck = pos S.irs (k + 1)) (heof : rx.peerEof = true)
    (hfin : S.fin = true ∧ k = S.data.length) : RxInv S held got k (tcpOfoPurge rx) := by
  have hreader := purge_sameReader rx
  have heof' := hreader.peerEof.trans heof
  refine ⟨hpre.of_sameReader hreader, ?_, fun _ => ⟨hfin.1, hfin.2, rfl⟩, ?_⟩
  · rw [hreader.recvAck, hack, heof', if_pos rfl]
  · rw [purge_ofo]
    exact Nat.le_add_right k _

/-- A delivered cut at offset `k` extends the accepted prefix by its length. -/
theorem RxPrefix.deliver (hpre : RxPrefix S held got k rx) (hcut : Cut S k data hasFin)
    (hqueue : rx'.rxQueue = rx.rxQueue ++ if data = [] then [] else [⟨data, 0⟩])
    (hcurrent : rx'.rxCurrent = rx.rxCurrent) (hsize : rx'.rcvbufSize = rx.rcvbufSize) :
    RxPrefix S held got (k + data.length) rx' := by
  have hread : rx'.readable = rx.readable ++ data := by
    simp only [Rx.readable, hqueue, hcurrent, map_append, flatten_append]
    split_ifs with hdata <;> simp [hdata, RxBlob.unread]
  refine ⟨hsize ▸ hpre.size, hcut.inside, ?_, hcurrent.trans hpre.reading, ?_⟩
  · rw [hread, ← append_assoc, hpre.bytes, take_add]
    obtain ⟨tail, htail⟩ := hcut.bytes
    rw [← htail, take_left]
  · intro blob hblob
    rw [hqueue, mem_append] at hblob
    rcases hblob with hblob | hblob
    · exact hpre.blobs blob hblob
    · split_ifs at hblob with hdata
      · simp at hblob
      · obtain rfl := mem_singleton.mp hblob
        exact length_pos_of_ne_nil hdata

/-- One drain round drops a head that `recv_ack` has passed, and cuts off what is below it. -/
theorem trimHead_cases {start : Seq} {o : Nat} {seg : OfoSeg} (hack : rx.recvAck = pos start k)
    (hseq : seg.seq = pos start o) (hok : o ≤ k) (hko : k ≤ o + 2 ^ 20) :
    (o + seg.data.length ≤ k ∧ tcpOfoTrimHead rx seg =
      (none, tcpOfoUnlink (tcpOfoRcvbufSub rx seg.data.length) seg.data.length)) ∨
    (o < k ∧ k ≤ o + seg.data.length ∧ (k = o + seg.data.length → seg.hasFin = true) ∧
      tcpOfoTrimHead rx seg = (some ⟨pos start k, seg.data.drop (k - o), seg.hasFin⟩,
        tcpOfoRcvbufSub ({ rx with ofoBytes := rx.ofoBytes - (k - o) }.count
          fun state => tcpOfoMetricsRelease state (k - o) false) (k - o))) ∨
    o = k ∧ tcpOfoTrimHead rx seg = (some seg, rx) := by
  have hneark : Near o k := ⟨hok, by omega⟩
  have hnearo : Near o o := ⟨le_rfl, by omega⟩
  simp only [tcpOfoTrimHead, hack, hseq]
  by_cases hlt : o < k
  · rw [if_pos ((Near.lt_iff _ hnearo hneark).mpr hlt), Near.toNat_sub _ hneark hnearo hok]
    split_ifs with hskip
    · left
      simp only [Bool.or_eq_true, decide_eq_true_eq, Bool.and_eq_true] at hskip
      exact ⟨by omega, rfl⟩
    · right
      left
      simp only [Bool.or_eq_true, decide_eq_true_eq, Bool.and_eq_true, Bool.not_eq_true', not_or,
        not_and, Bool.not_eq_false] at hskip
      refine ⟨hlt, by omega, fun heq => hskip.2 (by omega), ?_⟩
      rw [pos_add, show o + (k - o) = k by omega]
  · right
    right
    rw [if_neg (mt (Near.lt_iff _ hnearo hneark).mp hlt)]
    exact ⟨by omega, rfl⟩

theorem rcvbufSub_sameReader (rx : Rx) (len : Nat) : rx.SameReader (tcpOfoRcvbufSub rx len) :=
  ⟨rfl, rfl, rfl, rfl, rfl⟩

/-- Draining the nodes of a chain that starts at or below `recv_ack` re-establishes the
invariant, with at least as many bytes accepted. -/
theorem tcpOfoDrainLoop_inv {nodes : List OfoSeg} (hpre : RxPrefix S held got k rx)
    (hack : rx.recvAck = pos S.irs k) (heof : rx.peerEof = false)
    (hnodes : Queue S lo nodes hi) (hlok : lo ≤ k) (hklo : k ≤ lo + 2 ^ 20)
    (hhi : hi ≤ k + 2 ^ 18) : ∃ k', k ≤ k' ∧ RxInv S held got k' (tcpOfoDrainLoop rx nodes) := by
  induction nodes generalizing rx k lo with
  | nil =>
    rw [tcpOfoDrainLoop]
    exact ⟨k, le_rfl, RxPrefix.inv (hpre.congr rfl rfl rfl) hack heof (Nat.le_add_right k _)⟩
  | cons seg rest ih =>
    obtain ⟨o, hloo, hat, hrest⟩ := hnodes
    have hohi := hrest.le
    have hnearo : Near lo o := ⟨hloo, by omega⟩
    have hneark : Near lo k := ⟨hlok, by omega⟩
    have hgt := Near.gt_iff S.irs hnearo hneark
    rw [← hat.seq_eq, ← hack] at hgt
    rw [tcpOfoDrainLoop]
    by_cases hgap : k < o
    · rw [if_pos (hgt.mpr hgap)]
      exact ⟨k, le_rfl, RxPrefix.inv (hpre.congr rfl rfl rfl) hack heof
        ⟨o, by omega, hat, hrest.mono le_rfl hhi⟩⟩
    rw [if_neg (mt hgt.mp hgap)]
    rcases trimHead_cases hack hat.seq_eq (by omega) (by omega) with ⟨hbelow, heq⟩ | hkept
    · rw [heq]
      have hreader := (rcvbufSub_sameReader rx seg.data.length).trans
        (unlink_sameReader _ seg.data.length)
      exact ih (hpre.of_sameReader hreader) (hreader.recvAck.trans hack)
        (hreader.peerEof.trans heof) hrest hbelow (by omega) hhi
    · obtain ⟨seg', rx1, heq, hat', hlen, hreader⟩ : ∃ seg' rx1,
          tcpOfoTrimHead rx seg = (some seg', rx1) ∧ seg'.At S k ∧
          k + seg'.data.length = o + seg.data.length ∧ rx.SameReader rx1 := by
        rcases hkept with ⟨hlt, hle, -, heq⟩ | ⟨rfl, heq⟩
        · have hcut := hat.toCut.drop (show k - o ≤ seg.data.length by omega)
          rw [show o + (k - o) = k by omega] at hcut
          refine ⟨_, _, heq, ⟨hcut, rfl⟩, ?_, ⟨rfl, rfl, rfl, rfl, rfl⟩⟩
          rw [length_drop]
          omega
        · exact ⟨seg, rx, heq, hat, rfl, .refl rx⟩
      rw [heq]
      have hpre1 := hpre.of_sameReader hreader
      have hack1 := hreader.recvAck.trans hack
      have heof1 := hreader.peerEof.trans heof
      simp only
      obtain ⟨env, hdeliver | hdeliver⟩ := deliver_cases rx1 seg'.data
      · rw [hdeliver]
        exact ⟨k, le_rfl, RxPrefix.inv (hpre1.congr rfl rfl rfl) hack1 heof1
          ⟨k, le_rfl, hat', (hlen ▸ hrest).mono le_rfl hhi⟩⟩
      · rw [hdeliver]
        simp only
        generalize hrx2 : ({ rx1 with
          env := env
          rxQueue := rx1.rxQueue ++ if seg'.data = [] then [] else [⟨seg'.data, 0⟩] } : Rx) = rx2
        have hpre2 : RxPrefix S held got (k + seg'.data.length) rx2 :=
          hpre1.deliver hat'.toCut (by rw [← hrx2]) (by rw [← hrx2]) (by rw [← hrx2])
        have hunlink := unlink_sameReader rx2 seg'.data.length
        have hack2 : (tcpOfoUnlink rx2 seg'.data.length).recvAck +
            BitVec.ofNat 32 seg'.data.length = pos S.irs (k + seg'.data.length) := by
          rw [hunlink.recvAck, ← hrx2, hack1, pos_add]
        split_ifs with hfin
        · refine ⟨k + seg'.data.length, by omega, ?_⟩
          refine RxPrefix.inv_purge ((hpre2.of_sameReader hunlink).congr rfl rfl rfl) ?_ rfl
            (hat'.fin_end hfin)
          rw [← pos_succ, ← hack2]
        · generalize hrx3 : ({ tcpOfoUnlink rx2 seg'.data.length with
            recvAck := (tcpOfoUnlink rx2 seg'.data.length).recvAck +
              BitVec.ofNat 32 seg'.data.length } : Rx) = rx3
          have hpre3 : RxPrefix S held got (k + seg'.data.length) rx3 := by
            rw [← hrx3]
            exact (hpre2.of_sameReader hunlink).congr rfl rfl rfl
          obtain ⟨k', hk', hinv⟩ := ih hpre3 (by rw [← hrx3]; exact hack2)
            (by rw [← hrx3]; exact hunlink.peerEof.trans (by rw [← hrx2]; exact heof1)) hrest
            (by omega) (by omega) (by omega)
          exact ⟨k', by omega, hinv⟩

theorem tcpOfoDrain_inv (hpre : RxPrefix S held got k rx) (hack : rx.recvAck = pos S.irs k)
    (heof : rx.peerEof = false) (hqueue : Queue S lo rx.ofo (lo + 2 ^ 18)) (hlok : lo ≤ k)
    (hklo : k ≤ lo + 2 ^ 20) : ∃ k', lo ≤ k' ∧ RxInv S held got k' (tcpOfoDrain rx) := by
  obtain ⟨k', hk', hinv⟩ := tcpOfoDrainLoop_inv hpre hack heof hqueue hlok hklo (by omega)
  exact ⟨k', hlok.trans hk', hinv⟩

theorem tcpOfoInsert_inv (hinv : RxInv S held got k rx) (heof : rx.peerEof = false)
    (hcut : Cut S p data hasFin) (hback : k ≤ p + 2 ^ 20) (hahead : p ≤ k + 2 ^ 20)
    (hlen : data.length ≤ 2 ^ 16) :
    RxInv S held got k (tcpOfoInsert rx (pos S.irs p) data hasFin) ∧
      (tcpOfoInsert rx (pos S.irs p) data hasFin).peerEof = false := by
  have hnote := noteDuplicate_sameReader rx (pos S.irs p) data.length
  have hinv1 := hinv.of_sameReader hnote (noteDuplicate_ofo rx _ _)
  have heof1 := hnote.peerEof.trans heof
  unfold tcpOfoInsert
  generalize tcpSackNoteDuplicate rx (pos S.irs p) data.length = rx1 at hinv1 heof1 ⊢
  have hack1 : rx1.recvAck = pos S.irs k := by simpa [heof1] using hinv1.ack
  obtain ⟨hreader, hqueue⟩ :=
    tcpOfoQueueInsert_queue hack1 hinv1.size hinv1.queue hcut hback hahead hlen
  obtain ⟨valid, block, hrecent⟩ := noteRecent_eq
    (tcpOfoQueueInsert rx1 (pos S.irs p) data hasFin).2 (pos S.irs p) data.length
  simp only [hrecent]
  refine ⟨RxPrefix.inv ((hinv1.toRxPrefix.of_sameReader hreader).congr rfl rfl rfl) ?_ ?_ hqueue, ?_⟩
  · exact hreader.recvAck.trans hack1
  · exact hreader.peerEof.trans heof1
  · exact hreader.peerEof.trans heof1

/-- Sequence number of an agreeing segment at offset `p`, less than half the number space away
from `recv_ack`: only a segment that touches the window is accepted. -/
theorem acceptable_near {len : Nat} (hack : rx.recvAck = pos S.irs k)
    (hsize : rx.rcvbufSize ≤ 2 ^ 18) (hahead : p < k + 2 ^ 31) (hback : k ≤ p + 2 ^ 31)
    (hlen : len < 2 ^ 16) (h : tcpSegmentAcceptable rx (pos S.irs p) len hasFin = true) :
    k ≤ p + 2 ^ 16 ∧ p ≤ k + tcpRcvWnd rx := by
  have hwnd := (tcpRcvWnd_le rx).trans hsize
  simp only [tcpSegmentAcceptable, hack, pos_add] at h
  generalize hseg : len + (if hasFin = true then 1 else 0) = segLen at h
  have hsegLen : segLen ≤ 2 ^ 16 := by
    subst hseg
    split_ifs <;> omega
  split_ifs at h with hzero hempty
  · simp only [Bool.and_eq_true, beq_iff_eq] at h
    have := (pos_inj S.irs (by omega) (by omega)).mp h.2
    omega
  · simp only [Bool.and_eq_true, Bool.not_eq_true', ← Bool.not_eq_true] at h
    rw [lt_pos_iff _ (by omega) (by omega)] at h
    obtain ⟨hge, hlt⟩ := h
    rw [lt_pos_iff _ (by omega) (by omega)] at hlt
    omega
  · rw [Bool.and_eq_true] at h
    obtain ⟨hlt, hgt⟩ := h
    by_cases hfar : p + segLen < k + 2 ^ 31
    · rw [Serial.gt_pos_iff _ (by omega) (by omega)] at hgt
      rw [lt_pos_iff _ (by omega) (by omega)] at hlt
      omega
    · rw [lt_pos_iff _ (by omega) (by omega)] at hlt
      omega

/-- A stream whose state says that the FIN was consumed knows it already. -/
theorem peerEof_ite_eq_self (h : status.peerFinConsumed = true → rx.peerEof = true) :
    (if status.peerFinConsumed then { rx with peerEof := true } else rx) = rx := by
  split_ifs with hconsumed
  · rw [← h hconsumed]
  · rfl

/-- A segment cut from the stream keeps the receive invariant, in every state of the connection
and whatever the limits and the allocator answer. -/
theorem tcpReceiveRange_inv {payload : List UInt8} (hinv : RxInv S held got k rx)
    (hstatus : status.peerFinConsumed = true → rx.peerEof = true) (hcut : Cut S p payload hasFin)
    (hlen : payload.length < 2 ^ 16) (hahead : p < k + 2 ^ 31) (hback : k ≤ p + 2 ^ 31) :
    ∃ k', k ≤ k' ∧
      RxInv S held got k' (tcpReceiveRange rx status (pos S.irs p) payload hasFin) := by
  have hnote := noteDuplicate_sameReader rx (pos S.irs p) payload.length
  have hinv1 := hinv.of_sameReader hnote (noteDuplicate_ofo rx _ _)
  have hwnd1 : tcpRcvWnd (tcpSackNoteDuplicate rx (pos S.irs p) payload.length) =
      tcpRcvWnd rx := by
    obtain ⟨pending, block, heq⟩ := noteDuplicate_eq rx (pos S.irs p) payload.length
    rw [heq]
    rfl
  unfold tcpReceiveRange
  simp only
  generalize tcpSackNoteDuplicate rx (pos S.irs p) payload.length = rx1 at hnote hinv1 hwnd1 ⊢
  rw [peerEof_ite_eq_self fun h => hnote.peerEof.trans (hstatus h)]
  by_cases heof : rx1.peerEof = true
  · rw [if_pos heof]
    exact ⟨k, le_rfl, hinv1⟩
  rw [if_neg heof]
  have heof1 : rx1.peerEof = false := by simpa using heof
  have hack1 : rx1.recvAck = pos S.irs k := by simpa [heof1] using hinv1.ack
  by_cases hacc : tcpSegmentAcceptable rx1 (pos S.irs p) payload.length hasFin = true
  · rw [hacc, ← hnote.recvAck, ← hwnd1, hack1]
    obtain ⟨hnear, hin⟩ := acceptable_near hack1 hinv1.size hahead hback hlen hacc
    have hwnd := (tcpRcvWnd_le rx1).trans hinv1.size
    simp only [Bool.not_true, Bool.false_eq_true, if_false, pos_add]
    generalize Serial.gt (pos S.irs (p + payload.length)) _ = clipped
    generalize Serial.lt (pos S.irs (p + payload.length)) _ = keep
    generalize (pos S.irs (k + tcpRcvWnd rx1) - pos S.irs p).toNat = room
    have hclip := hcut.clip clipped keep room
    have hclen : (if clipped then payload.take room else payload).length ≤ payload.length := by
      split_ifs <;> simp
    generalize (if clipped then payload.take room else payload) = data at hclip hclen ⊢
    generalize (hasFin && !clipped && keep) = fin at hclip ⊢
    by_cases hpk : p = k
    · subst hpk
      rw [if_pos rfl]
      obtain ⟨env, hdeliver | hdeliver⟩ := deliver_cases rx1 data
      · rw [hdeliver]
        have hsame : rx1.SameReader { rx1 with env := env } := ⟨rfl, rfl, rfl, rfl, rfl⟩
        exact ⟨p, le_rfl, (tcpOfoInsert_inv (hinv1.of_sameReader hsame rfl) heof1 hclip (by omega)
          (by omega) (by omega)).1⟩
      · rw [hdeliver]
        simp only [hack1, pos_add, pos_succ]
        have hpre : RxPrefix S held got (p + data.length) { rx1 with
            env := env
            rxQueue := rx1.rxQueue ++ if data = [] then [] else [⟨data, 0⟩] } :=
          hinv1.toRxPrefix.deliver hclip rfl rfl rfl
        by_cases hfin : fin = true
        · rw [if_pos hfin]
          exact ⟨p + data.length, by omega,
            RxPrefix.inv_purge (hpre.congr rfl rfl rfl) rfl rfl (hclip.fin_end hfin)⟩
        · rw [if_neg hfin]
          exact tcpOfoDrain_inv (hpre.congr rfl rfl rfl) rfl heof1 hinv1.queue
            (Nat.le_add_right p _) (by omega)
    · rw [if_neg (mt (pos_inj _ (by omega) (by omega)).mp hpk)]
      obtain ⟨hinv2, heof2⟩ := tcpOfoInsert_inv hinv1 heof1 hclip (by omega) (by omega) (by omega)
      have hack2 := hinv2.ack
      rw [heof2, if_neg (by simp), add_zero] at hack2
      exact tcpOfoDrain_inv hinv2.toRxPrefix hack2 heof2 hinv2.queue le_rfl (by omega)
  · rw [Bool.not_eq_true] at hacc
    rw [hacc]
    simp only [Bool.not_false, if_true]
    split_ifs
    · have howner := recordDrop_onlyOwner rx1 (pos S.irs p) payload.length hasFin
      exact ⟨k, le_rfl, hinv1.of_sameReader howner.sameReader howner.ofo⟩
    · exact ⟨k, le_rfl, hinv1⟩

end SnowTG.Tcp
