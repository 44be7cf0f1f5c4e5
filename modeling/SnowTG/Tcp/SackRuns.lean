import SnowTG.Tcp.Dsack

/-!
# What a SACK option reports

The blocks above the acknowledgement are the maximal runs of the bytes held out
of order, as long as the queue is in order.  The stream notes which bytes of the
last payload offered to the queue were kept, and each report moves the run they
lie in to the front of a history.  So that run is reported first, now and in
later reports, until other payload is offered or the run changes behind a report.
-/

namespace SnowTG.Tcp.Options

open SnowTG.Lib Lib.Spans List BitVec

/-- A maximal run of bytes held out of order at or above `recv_ack`. -/
def HeldRun (ix : IndexedRx) (block : SackBlock) : Prop :=
  ∃ left right, left < right ∧ right < 2 ^ 31 ∧
    block = ⟨Serial.pos ix.rx.recvAck left, Serial.pos ix.rx.recvAck right⟩ ∧
    (∀ x, left ≤ x → x < right → ix.holds (Serial.pos ix.rx.recvAck x) = true) ∧
    (0 < left → ix.holds (Serial.pos ix.rx.recvAck (left - 1)) = false) ∧
    ix.holds (Serial.pos ix.rx.recvAck right) = false

section Ranges

/-- The byte lies in the range. -/
def Covers (block : SackBlock) (p : Seq) : Prop :=
  (p - block.left).toNat < (block.right - block.left).toNat

/-- The two ranges have a byte in common. -/
def Meet (b c : SackBlock) : Prop := ∃ p, Covers b p ∧ Covers c p

/-- The overlap of two ranges, as `tcp_sack_note_recent` computes it. -/
def overlap (b c : SackBlock) : SackBlock :=
  ⟨if Serial.gt b.left c.left then b.left else c.left,
    if Serial.lt b.right c.right then b.right else c.right⟩

/-- The range of a payload. -/
def payloadRange (seq : Seq) (len : Nat) : SackBlock := ⟨seq, seq + BitVec.ofNat 32 len⟩

/-- The range of a node. -/
def nodeRange (seg : OfoSeg) : SackBlock := payloadRange seg.seq seg.data.length

variable {b c : SackBlock} {p seq : Seq} {len : Nat}

theorem payloadRange_length (hlen : len < 2 ^ 32) :
    ((payloadRange seq len).right - (payloadRange seq len).left).toNat = len := by
  rw [payloadRange, add_sub_cancel_left, toNat_ofNat, Nat.mod_eq_of_lt hlen]

theorem covers_payloadRange_iff (hlen : len < 2 ^ 32) :
    Covers (payloadRange seq len) p ↔ (p - seq).toNat < len := by
  rw [Covers, payloadRange_length hlen]
  rfl

/-- The end of a node has no bytes the node does not have. -/
theorem covers_of_tail {part seg : OfoSeg} (h : part.TailOf seg) (hlen : seg.data.length < 2 ^ 16)
    (hp : Covers (nodeRange part) p) : Covers (nodeRange seg) p := by
  have hle := h.length_le
  obtain ⟨n, hseq, hdata⟩ := h
  rw [nodeRange, covers_payloadRange_iff (by omega)] at hp ⊢
  rw [hseq, hdata, length_drop] at hp
  have := seg.seq.isLt
  simp only [toNat_sub, toNat_add, toNat_ofNat] at hp ⊢
  omega

section

variable (hb : (b.right - b.left).toNat < 2 ^ 30) (hc : (c.right - c.left).toNat < 2 ^ 30)
include hb hc

theorem gt_of_covers (hbp : Covers b p) (hcp : Covers c p) :
    Serial.gt b.right c.left = true ∧ Serial.gt c.right b.left = true := by
  have := b.left.isLt
  have := c.left.isLt
  simp only [Covers, gt_iff_toNat, toNat_sub] at *
  omega

/-- For short ranges that pass the test of the source, the overlap is their intersection, short and
not empty. -/
theorem covers_overlap (hbpos : 0 < (b.right - b.left).toNat)
    (hcpos : 0 < (c.right - c.left).toNat) (hbc : Serial.gt b.right c.left = true)
    (hcb : Serial.gt c.right b.left = true) :
    (∀ p, Covers (overlap b c) p ↔ Covers b p ∧ Covers c p) ∧
      ((overlap b c).right - (overlap b c).left).toNat < 2 ^ 30 ∧
      Covers (overlap b c) (overlap b c).left := by
  have := b.left.isLt
  have := c.left.isLt
  rw [overlap]
  split_ifs with hleft hright hright
  all_goals
    simp only [Covers, gt_iff_toNat, Serial.lt_iff_toNat, toNat_sub] at *
    exact ⟨fun p => by omega, by omega, by omega⟩

/-- The test of the source finds out whether two ranges have a byte in common. -/
theorem meet_iff (hbpos : 0 < (b.right - b.left).toNat) (hcpos : 0 < (c.right - c.left).toNat) :
    Meet b c ↔ Serial.gt b.right c.left = true ∧ Serial.gt c.right b.left = true := by
  constructor
  · rintro ⟨p, hbp, hcp⟩
    exact gt_of_covers hb hc hbp hcp
  · rintro ⟨hbc, hcb⟩
    obtain ⟨hcommon, -, hfirst⟩ := covers_overlap hb hc hbpos hcpos hbc hcb
    exact ⟨(overlap b c).left, (hcommon _).mp hfirst⟩

end

end Ranges

section Note

/-- The payload a received segment offers to the out-of-order queue. -/
def offeredRange (ix : IndexedRx) (status : Status) (seq : Seq) (payload : List UInt8)
    (hasFin : Bool) : Option SackBlock :=
  let wndEnd := ix.rx.recvAck + BitVec.ofNat 32 (tcpRcvWnd ix.rx)
  let rx := tcpSackNoteDuplicate ix.rx seq payload.length
  if status.peerFinConsumed || rx.peerEof then none
  else if !tcpSegmentAcceptable rx seq payload.length hasFin then none
  else
    let clipped := Serial.gt (seq + BitVec.ofNat 32 payload.length) wndEnd
    let payload := if clipped then payload.take (wndEnd - seq).toNat else payload
    if seq = ix.rx.recvAck ∧ (tcpDeliverPayload rx payload).1 then none
    else some (payloadRange seq payload.length)

/-- The payload a call offers to the out-of-order queue. -/
def offered (ix : IndexedRx) : QueueCall → Option SackBlock
  | .insert seq data _ => some (payloadRange seq data.length)
  | .segment status seq payload hasFin => offeredRange ix status seq payload hasFin
  | _ => none

/-- The note of the stream is about the bytes of `range` in the node `seg`. -/
structure Traced (rx : Rx) (range : SackBlock) (seg : OfoSeg) : Prop where
  valid : rx.sackRecentValid = true
  short : (rx.sackRecent.right - rx.sackRecent.left).toNat < 2 ^ 30
  inside : ∀ p, Covers rx.sackRecent p → Covers range p
  covers : ∀ p, Covers (nodeRange seg) p → Covers range p → Covers rx.sackRecent p
  own : ∀ other ∈ rx.ofo, ∀ p, Covers (nodeRange other) p → Covers rx.sackRecent p →
    Covers (nodeRange seg) p

/-- The last node that has bytes of `range` is the one the note is about. -/
def Noted (rx : Rx) (range : SackBlock) : Prop :=
  ∀ pre seg rest, rx.ofo = pre ++ seg :: rest → Meet (nodeRange seg) range →
    (∀ other ∈ rest, ¬ Meet (nodeRange other) range) → Traced rx range seg

/-- The queue is empty, or the notes are the same and nodes have left the head of the queue, the
last of them perhaps in part. -/
def Kept (rx rx' : Rx) : Prop :=
  rx'.ofo = [] ∨ rx'.sackNotes = rx.sackNotes ∧ ∃ pre seg rest part,
    rx.ofo = pre ++ seg :: rest ∧ rx'.ofo = part :: rest ∧ part.TailOf seg

variable {rx rx' : Rx} {ix ix' : IndexedRx} {range : SackBlock} {seq : Seq} {data : List UInt8}
  {hasFin : Bool}

theorem Kept.of_eq (hofo : rx'.ofo = rx.ofo) (hnotes : rx'.sackNotes = rx.sackNotes) :
    Kept rx rx' := by
  cases hqueue : rx.ofo with
  | nil => exact .inl (hofo.trans hqueue)
  | cons seg rest => exact .inr ⟨hnotes, [], seg, rest, seg, hqueue, hofo.trans hqueue, .refl seg⟩

theorem Kept.drained (h : IndexedRx.Drained ix ix') (hcontent : IndexedRx.segs ix.queue = ix.rx.ofo) :
    Kept ix.rx ix'.rx := by
  have hcontent' := h.content hcontent
  rw [Kept, ← hcontent, ← hcontent']
  rcases h.notes with hsame | ⟨hnil, -⟩
  · rcases h.nodes with hnil | ⟨pre, node, rest, part, hqueue, hqueue', hpart⟩
    · exact .inl (congrArg IndexedRx.segs hnil)
    · refine .inr ⟨congrArg Prod.fst hsame, IndexedRx.segs pre, node.seg, IndexedRx.segs rest, part,
        ?_, congrArg IndexedRx.segs hqueue', hpart⟩
      rw [hqueue, IndexedRx.segs, map_append]
      rfl
  · exact .inl (congrArg IndexedRx.segs hnil)

/-- Nodes that leave the head of the queue do not take the note along. -/
theorem Kept.noted (h : Kept rx rx') (hshort : ∀ seg ∈ rx.ofo, seg.data.length < 2 ^ 16)
    (hnoted : Noted rx range) : Noted rx' range := by
  intro pre' seg' rest' hsplit hmeet hlast
  rcases h with hnil | ⟨hnotes, pre, seg, rest, part, hofo, hofo', hpart⟩
  · rw [hnil] at hsplit
    exact absurd hsplit.symm (append_ne_nil_of_right_ne_nil _ (cons_ne_nil _ _))
  simp only [Rx.sackNotes, Prod.mk.injEq] at hnotes
  obtain ⟨hvalid, hrecent, -⟩ := hnotes
  have hsub : ∀ p, Covers (nodeRange part) p → Covers (nodeRange seg) p := by
    intro p
    exact covers_of_tail hpart (hshort seg (by simp [hofo]))
  rw [hofo'] at hsplit
  cases pre' with
  | nil =>
    obtain ⟨rfl, rfl⟩ := cons.inj hsplit
    obtain ⟨p, hp, hrange⟩ := hmeet
    have htraced := hnoted pre seg rest hofo ⟨p, hsub p hp, hrange⟩ hlast
    refine ⟨hvalid.trans htraced.valid, ?_, ?_, ?_, ?_⟩
    all_goals rw [hrecent]
    · exact htraced.short
    · exact htraced.inside
    · exact fun p hp => htraced.covers p (hsub p hp)
    · intro other hother p hp hnote
      rw [hofo'] at hother
      rcases mem_cons.mp hother with heq | hmem
      · exact heq ▸ hp
      · exact absurd ⟨p, hp, htraced.inside p hnote⟩ (hlast other hmem)
  | cons head between =>
    obtain ⟨rfl, hrest⟩ := cons.inj hsplit
    rw [hrest] at hofo hofo'
    have htraced := hnoted (pre ++ seg :: between) seg' rest' (by simp [hofo]) hmeet hlast
    refine ⟨hvalid.trans htraced.valid, ?_, ?_, ?_, ?_⟩
    all_goals rw [hrecent]
    · exact htraced.short
    · exact htraced.inside
    · exact htraced.covers
    · intro other hother p hp
      rw [hofo'] at hother
      rcases mem_cons.mp hother with rfl | hmem
      · exact htraced.own seg (by simp [hofo]) p (hsub p hp)
      · exact htraced.own other (hofo ▸ mem_append_right _ (mem_cons_of_mem _ hmem)) p hp

section

variable {len : Nat} {seg : OfoSeg}

/-- The nodes `tcp_sack_note_recent` looks for. -/
def overlapsPayload (seq : Seq) (len : Nat) (seg : OfoSeg) : Bool :=
  seg.data.length ≠ 0 && Serial.gt seg.endSeq seq && Serial.gt (seq + BitVec.ofNat 32 len) seg.seq

variable (hlen : len < 2 ^ 16) (hpos : len ≠ 0)
include hlen hpos

/-- They are the nodes that have bytes of the payload. -/
theorem overlapsPayload_iff (hseg : seg.data.length < 2 ^ 16) :
    overlapsPayload seq len seg = true ↔ Meet (nodeRange seg) (payloadRange seq len) := by
  have hrange := @payloadRange_length seq len (by omega)
  have hnode := @payloadRange_length seg.seq seg.data.length (by omega)
  rw [← nodeRange] at hnode
  by_cases hempty : seg.data.length = 0
  · refine iff_of_false (by simp [overlapsPayload, hempty]) ?_
    rintro ⟨p, hp, -⟩
    rw [Covers, hnode, hempty] at hp
    exact Nat.not_lt_zero _ hp
  · rw [meet_iff (by omega) (by omega) (by omega) (by omega), overlapsPayload, Bool.and_eq_true,
      Bool.and_eq_true, decide_eq_true_iff]
    exact ⟨fun h => ⟨h.1.2, h.2⟩, fun h => ⟨⟨hempty, h.1⟩, h.2⟩⟩

/-- The last node that has bytes of the payload is noted. -/
theorem noteRecent_eq_overlap {pre rest : List OfoSeg}
    (hofo : ∀ seg ∈ rx.ofo, seg.data.length < 2 ^ 16) (hsplit : rx.ofo = pre ++ seg :: rest)
    (hmeet : Meet (nodeRange seg) (payloadRange seq len))
    (hlast : ∀ other ∈ rest, ¬ Meet (nodeRange other) (payloadRange seq len)) :
    tcpSackNoteRecent rx seq len = { rx with
      sackRecent := overlap (nodeRange seg) (payloadRange seq len)
      sackRecentValid := true } := by
  have htest : ∀ other ∈ rx.ofo, overlapsPayload seq len other = true ↔
      Meet (nodeRange other) (payloadRange seq len) :=
    fun other hother => overlapsPayload_iff hlen hpos (hofo other hother)
  rw [hsplit] at htest
  have hbehind : rest.filter (overlapsPayload seq len) = [] :=
    filter_eq_nil_iff.mpr fun other hother => mt (htest other (by simp [hother])).mp
      (hlast other hother)
  have hfound : (rx.ofo.filter (overlapsPayload seq len)).getLast? = some seg := by
    rw [hsplit, filter_append, filter_cons_of_pos ((htest seg (by simp)).mpr hmeet), hbehind,
      getLast?_concat]
  rw [tcpSackNoteRecent]
  simp only [if_neg hpos]
  generalize hlook : getLast? _ = found
  obtain rfl : found = some seg := hlook.symm.trans hfound
  rfl

end

/-- A new note is about the payload it was made for. -/
theorem noteRecent_noted {len : Nat} (hlen : len < 2 ^ 16)
    (hofo : ∀ seg ∈ rx.ofo, seg.data.length < 2 ^ 16) :
    Noted (tcpSackNoteRecent rx seq len) (payloadRange seq len) := by
  intro pre seg rest hsplit hmeet hlast
  have hpos : len ≠ 0 := by
    rintro rfl
    obtain ⟨p, -, hp⟩ := hmeet
    rw [covers_payloadRange_iff (by omega)] at hp
    exact Nat.not_lt_zero _ hp
  have hsame : (tcpSackNoteRecent rx seq len).ofo = rx.ofo := by
    obtain ⟨valid, block, heq⟩ := noteRecent_eq rx seq len
    rw [heq]
  rw [hsame] at hsplit
  have hseg := hofo seg (by simp [hsplit])
  have hrange := @payloadRange_length seq len (by omega)
  have hnode := @payloadRange_length seg.seq seg.data.length (by omega)
  rw [← nodeRange] at hnode
  have htest := (overlapsPayload_iff hlen hpos hseg).mpr hmeet
  simp only [overlapsPayload, Bool.and_eq_true, decide_eq_true_iff] at htest
  obtain ⟨⟨hdata, hbc⟩, hcb⟩ := htest
  have hb : ((nodeRange seg).right - (nodeRange seg).left).toNat < 2 ^ 30 := by omega
  have hc : ((payloadRange seq len).right - (payloadRange seq len).left).toNat < 2 ^ 30 := by omega
  obtain ⟨hcommon, hshort, -⟩ := covers_overlap hb hc (by omega) (by omega) hbc hcb
  rw [noteRecent_eq_overlap hlen hpos hofo hsplit hmeet hlast]
  exact ⟨rfl, hshort, fun p hp => ((hcommon p).mp hp).2,
    fun p hp hin => (hcommon p).mpr ⟨hp, hin⟩, fun _ _ p _ hp => ((hcommon p).mp hp).1⟩

theorem insert_noted (h : Reportable ix) (hdata : data.length < 2 ^ 16) :
    Noted (ix.insert seq data hasFin).rx (payloadRange seq data.length) :=
  noteRecent_noted hdata ((h.noteDuplicate hdata).queueInsert hdata).ofo_short

/-- The notes behind a call that offers this payload, or none. -/
def NotesAfter (rx rx' : Rx) : Option SackBlock → Prop
  | none => Kept rx rx'
  | some range => Noted rx' range

theorem offeredRange_eq (ix : IndexedRx) (status : Status) (seq : Seq) (payload : List UInt8)
    (hasFin : Bool) :
    let rx := tcpSackNoteDuplicate ix.rx seq payload.length
    let data := IndexedRx.windowCut ix.rx seq payload
    offeredRange ix status seq payload hasFin =
      if rx.takes status seq payload.length hasFin = true ∧
          ¬(seq = ix.rx.recvAck ∧ (tcpDeliverPayload rx data).1 = true) then
        some (payloadRange seq data.length)
      else none := by
  intro rx data
  rw [offeredRange]
  by_cases hover : (status.peerFinConsumed || rx.peerEof) = true
  · rw [if_pos hover, if_neg (by simp [Rx.takes, hover])]
  by_cases hacc : (!tcpSegmentAcceptable rx seq payload.length hasFin) = true
  · rw [if_neg hover, if_pos hacc, if_neg (by simp_all [Rx.takes])]
  rw [if_neg hover, if_neg hacc]
  have htaken : rx.takes status seq payload.length hasFin = true := by
    simp_all [Rx.takes]
  exact (ite_not ..).symm.trans (if_congr ⟨fun h => ⟨htaken, h⟩, And.right⟩ rfl rfl)

theorem receiveRange_notes {status : Status} {payload : List UInt8} (h : Reportable ix)
    (hlen : payload.length < 2 ^ 16) :
    NotesAfter ix.rx (ix.receiveRange status seq payload hasFin).rx
      (offeredRange ix status seq payload hasFin) := by
  have hreportable : Reportable { ix with rx := tcpSackNoteDuplicate ix.rx seq payload.length } :=
    h.noteDuplicate hlen
  have hdata := (IndexedRx.length_windowCut ix.rx seq payload).trans_lt hlen
  have hranged := ix.receiveRange_ranged status seq payload hasFin
  rw [offeredRange_eq]
  generalize ix.receiveRange status seq payload hasFin = ix' at hranged ⊢
  generalize IndexedRx.windowCut ix.rx seq payload = data at hdata hranged ⊢
  obtain ⟨pending, block, heq⟩ := noteDuplicate_eq ix.rx seq payload.length
  rw [heq] at hreportable hranged ⊢
  cases hranged with
  | eof _ htaken =>
    rw [if_neg (by simp [htaken])]
    exact .of_eq rfl rfl
  | dropped htaken =>
    rw [if_neg (by simp [htaken])]
    obtain ⟨rx, ⟨owner, env, rfl, -⟩, hdropped⟩ := IndexedRx.recordRcvWindowDrop_onlyOwner
      { ix with rx := { ix.rx with dsackPending := pending, dsackBlock := block } } seq
      payload.length hasFin
    rw [hdropped]
    exact .of_eq rfl rfl
  | refused _ htaken _ hdeliver =>
    rw [if_pos (by simp [htaken, hdeliver])]
    exact insert_noted (hreportable.congr ⟨rfl, id, rfl⟩) hdata
  | finished _ _ hseq hdeliver =>
    rw [if_neg fun hboth => hboth.2 ⟨hseq, hdeliver⟩]
    exact .inl rfl
  | delivered env _ hseq hdeliver =>
    rw [if_neg fun hboth => hboth.2 ⟨hseq, hdeliver⟩]
    have hkept := Kept.drained (IndexedRx.drained_drain { ix with
      rx := IndexedRx.accepted { ix.rx with dsackPending := pending, dsackBlock := block } env
        data }) h.content
    exact hkept
  | @queued fin htaken hseq =>
    rw [if_pos ⟨htaken, fun hboth => hseq hboth.1⟩]
    have hinserted := @Reportable.insert _ seq _ fin hreportable hdata
    exact (Kept.drained (IndexedRx.drained_drain _) hinserted.content).noted hinserted.ofo_short
      (insert_noted hreportable hdata)

/-- Every call keeps the notes or makes one about the payload it offers. -/
theorem apply_notes (h : Reportable ix) (call : QueueCall) (hlen : call.payload.length < 2 ^ 16) :
    NotesAfter ix.rx (call.apply ix).rx (offered ix call) := by
  cases call with
  | insert seq data hasFin => exact insert_noted h hlen
  | drain => exact Kept.drained (ix.drained_drain) h.content
  | purge => exact .inl rfl
  | segment status seq payload hasFin => exact receiveRange_notes h hlen
  | recv len =>
    rcases ix.recv_drains len with heq | ⟨current, queue, used, next, -, heq⟩
    · exact .of_eq (congrArg (·.rx.ofo) heq) (congrArg (·.rx.sackNotes) heq)
    · have hkept := Kept.drained (IndexedRx.drained_drain { ix with
        rx := { ix.rx with rxCurrent := current, rxQueue := queue, rcvbufUsed := used } }) h.content
      rw [QueueCall.apply, heq]
      exact hkept
  | drainRecv => exact .inl rfl

end Note

section Runs

variable {ix : IndexedRx} {base : Seq} {others : Nat × Nat} {k : Nat} {block : SackBlock}

/-- The blocks above the ACK of a settled stream are its maximal runs. -/
theorem mem_normalizeSacks_iff (h : ix.Settled base others k) :
    block ∈ aboveAck ix.rx ↔ HeldRun ix block := by
  obtain ⟨spans, hnormalized, hsep, hright, hholds⟩ := settled_spans h
  have hpoint : ∀ x < 2 ^ 32,
      (x ∈ points spans ↔ ix.holds (Serial.pos ix.rx.recvAck x) = true) := by
    intro x hx
    rw [← hholds, toNat_pos_sub hx]
  have hmissing : ∀ x < 2 ^ 32, x ∉ points spans →
      ix.holds (Serial.pos ix.rx.recvAck x) = false := by
    intro x hx hnot
    exact Bool.eq_false_iff.mpr fun hheld => hnot ((hpoint x hx).mpr hheld)
  rw [hnormalized]
  constructor
  · intro hblock
    obtain ⟨s, hs, rfl⟩ := mem_map.mp hblock
    have hlt := (hsep.mem_bounds s hs).2
    have hle := hright s hs
    refine ⟨s.left, s.right, hlt, by omega, rfl, ?_, ?_, ?_⟩
    · intro x hlow hhigh
      exact (hpoint x (by omega)).mp (mem_points.mpr ⟨s, hs, hlow, hhigh⟩)
    · intro hpos
      exact hmissing _ (by omega) (hsep.beside_notMem hs (.inr (Nat.sub_add_cancel hpos)))
    · exact hmissing _ (by omega) (hsep.beside_notMem hs (.inl rfl))
  · rintro ⟨left, right, hlt, hbound, rfl, hheld, hbefore, hbehind⟩
    have hall : ∀ x, left ≤ x → x < right → x ∈ points spans := by
      intro x hlow hhigh
      exact (hpoint x (by omega)).mpr (hheld x hlow hhigh)
    obtain ⟨s, hs, hleft, hright'⟩ := hsep.exists_superset hlt hall
    have hle := hright s hs
    -- a longer span would hold a byte next to the run
    have hleft' : s.left = left := by
      by_contra hne
      have hmem : left - 1 ∈ points spans := mem_points.mpr ⟨s, hs, by omega, by omega⟩
      have hheld := (hpoint (left - 1) (by omega)).mp hmem
      rw [hbefore (by omega)] at hheld
      exact Bool.false_ne_true hheld
    have hright'' : s.right = right := by
      by_contra hne
      have hmem : right ∈ points spans := mem_points.mpr ⟨s, hs, by omega, by omega⟩
      have hheld := (hpoint right (by omega)).mp hmem
      cases hbehind.symm.trans hheld
    refine mem_map.mpr ⟨s, hs, ?_⟩
    rw [toRange, hleft', hright'']

/-- Containment of blocks in offsets. -/
theorem contains_toRange {recvAck : Seq} {s t : Span} (hs : s.left < 2 ^ 31 ∧ s.right < 2 ^ 31)
    (ht : t.left < 2 ^ 31 ∧ t.right < 2 ^ 31) :
    blockContains (toRange recvAck s) (toRange recvAck t) = true ↔
      s.left ≤ t.left ∧ t.right ≤ s.right := by
  rw [blockContains, Bool.and_eq_true, toRange_left, toRange_left, toRange_right, toRange_right,
    Serial.leq_pos_iff _ (by omega) (by omega), Serial.leq_pos_iff _ (by omega) (by omega)]

/-- No block contains another one. -/
def Distinct (normalized : List SackBlock) : Prop :=
  ∀ b ∈ normalized, ∀ c ∈ normalized, blockContains b c = true ↔ b = c

theorem normalizeSacks_distinct (h : ix.Settled base others k) : Distinct (aboveAck ix.rx) := by
  obtain ⟨spans, hnormalized, hsep, hright, -⟩ := settled_spans h
  rw [hnormalized]
  intro b hb c hc
  obtain ⟨s, hs, rfl⟩ := mem_map.mp hb
  obtain ⟨t, ht, rfl⟩ := mem_map.mp hc
  have hs' := (hsep.mem_bounds s hs).2
  have ht' := (hsep.mem_bounds t ht).2
  have hsright := hright s hs
  have htright := hright t ht
  rw [contains_toRange (by omega) (by omega)]
  constructor
  · intro hcontains
    by_contra hne
    have hapart := hsep.apart hs ht fun heq => hne (congrArg _ heq)
    omega
  · intro heq
    have hleft := congrArg (fun b : SackBlock => (b.left - ix.rx.recvAck).toNat) heq
    have hright := congrArg (fun b : SackBlock => (b.right - ix.rx.recvAck).toNat) heq
    simp only [toRange_left, toRange_right] at hleft hright
    rw [toNat_pos_sub (by omega), toNat_pos_sub (by omega)] at hleft hright
    omega

/-- A byte of a block in offsets. -/
theorem covers_toRange_iff {recvAck p : Seq} {s : Span} (hlt : s.left < s.right)
    (hright : s.right ≤ 2 ^ 18) :
    Covers (toRange recvAck s) p ↔
      s.left ≤ (p - recvAck).toNat ∧ (p - recvAck).toNat < s.right := by
  have hlen : ((toRange recvAck s).right - (toRange recvAck s).left).toNat = s.right - s.left :=
    Serial.toNat_pos_sub_pos recvAck hlt.le (by omega)
  rw [Covers, hlen, toRange_left, Serial.pos, ← sub_sub]
  have := (p - recvAck).isLt
  simp only [toNat_sub _ (BitVec.ofNat _ _), toNat_ofNat]
  omega

theorem Settled.length_le (h : ix.Settled base others k) {seg : OfoSeg} (hseg : seg ∈ ix.rx.ofo) :
    seg.data.length ≤ 2 ^ 18 := by
  have hedge := h.edge_le
  obtain ⟨o, ho, -, hend, -⟩ := h.placed.position hseg
  omega

theorem holds_iff_covers (h : ix.Settled base others k) (p : Seq) :
    ix.holds p = true ↔ ∃ seg ∈ ix.rx.ofo, Covers (nodeRange seg) p := by
  have hcovers : ∀ seg ∈ ix.rx.ofo,
      (Covers (nodeRange seg) p ↔ (p - seg.seq).toNat < seg.data.length) :=
    fun seg hseg => covers_payloadRange_iff (by have := Settled.length_le h hseg; omega)
  rw [IndexedRx.holds, any_eq_true]
  rw [← h.content] at hcovers ⊢
  constructor
  · rintro ⟨node, hnode, hhas⟩
    exact ⟨node.seg, mem_map_of_mem hnode,
      (hcovers _ (mem_map_of_mem hnode)).mpr (of_decide_eq_true hhas)⟩
  · rintro ⟨seg, hseg, hp⟩
    have hhas := (hcovers seg hseg).mp hp
    obtain ⟨node, hnode, rfl⟩ := mem_map.mp hseg
    exact ⟨node, hnode, decide_eq_true hhas⟩

/-- The bytes of a node lie in one block. -/
theorem node_in_span (h : ix.Settled base others k) {spans : List Span} (hsep : Separated 0 spans)
    (hholds : ∀ q : Seq, (q - ix.rx.recvAck).toNat ∈ points spans ↔ ix.holds q = true)
    {seg : OfoSeg} (hseg : seg ∈ ix.rx.ofo) {q : Seq} (hq : Covers (nodeRange seg) q) :
    ∃ s ∈ spans, ∀ p, Covers (nodeRange seg) p →
      s.left ≤ (p - ix.rx.recvAck).toNat ∧ (p - ix.rx.recvAck).toNat < s.right := by
  have hedge := h.edge_le
  obtain ⟨o, hko, hseq, hend, -⟩ := h.placed.position hseg
  have hcovers : ∀ x < 2 ^ 32, Covers (nodeRange seg) (Serial.pos ix.rx.recvAck x) ↔
      o - k ≤ x ∧ x < o - k + seg.data.length := by
    intro x hx
    have hpos : Serial.pos (Serial.pos base k) x = Serial.pos base (k + x) := Serial.pos_add ..
    rw [nodeRange, covers_payloadRange_iff (by omega), h.ack, hpos]
    exact node_has_iff hseq hko (by omega) hx
  have hplace : ∀ p, Covers (nodeRange seg) p →
      o - k ≤ (p - ix.rx.recvAck).toNat ∧
        (p - ix.rx.recvAck).toNat < o - k + seg.data.length := by
    intro p hp
    rw [← pos_toNat_sub ix.rx.recvAck p] at hp
    exact (hcovers _ (p - ix.rx.recvAck).isLt).mp hp
  have hall : ∀ x, o - k ≤ x → x < o - k + seg.data.length → x ∈ points spans := by
    intro x hlow hhigh
    have hheld := (holds_iff_covers h _).mpr ⟨seg, hseg, (hcovers x (by omega)).mpr ⟨hlow, hhigh⟩⟩
    have hpoint := (hholds _).mpr hheld
    rwa [toNat_pos_sub (by omega)] at hpoint
  have hsome := hplace q hq
  obtain ⟨s, hs, hleft, hright⟩ := hsep.exists_superset (by omega) hall
  refine ⟨s, hs, fun p hp => ?_⟩
  have := hplace p hp
  omega

/-- Bytes of `range` are held, and all of them that are lie in `block`. -/
def Retains (ix : IndexedRx) (range block : SackBlock) : Prop :=
  (∃ p, Covers range p ∧ ix.holds p = true) ∧
    ∀ p, Covers range p → ix.holds p = true → Covers block p

/-- The last element with a property. -/
theorem exists_last {α : Type*} {P : α → Prop} {l : List α} (h : ∃ x ∈ l, P x) :
    ∃ pre x rest, l = pre ++ x :: rest ∧ P x ∧ ∀ y ∈ rest, ¬ P y := by
  induction l with
  | nil => simp at h
  | cons head rest ih =>
    by_cases hlater : ∃ x ∈ rest, P x
    · obtain ⟨pre, x, rest', rfl, hx, hlast⟩ := ih hlater
      exact ⟨head :: pre, x, rest', rfl, hx, hlast⟩
    · obtain ⟨x, hmem, hx⟩ := h
      rcases mem_cons.mp hmem with rfl | hmem
      · exact ⟨[], x, rest, rfl, hx, fun y hy hP => hlater ⟨y, hy, hP⟩⟩
      · exact absurd ⟨x, hmem, hx⟩ hlater

/-- The run with the bytes of the payload that are held is the one the note leads to. -/
theorem recentBlock_eq (h : ix.Settled base others k) {range : SackBlock}
    (hnoted : Noted ix.rx range) (hrun : HeldRun ix block) (hretains : Retains ix range block) :
    recentBlock ix.rx (aboveAck ix.rx) = some block := by
  obtain ⟨⟨q, hq, hqheld⟩, hall⟩ := hretains
  obtain ⟨last, hlast, hqlast⟩ := (holds_iff_covers h q).mp hqheld
  obtain ⟨pre, seg, rest, hofo, ⟨p, hp, hprange⟩, hbehind⟩ :=
    @exists_last _ (fun seg => Meet (nodeRange seg) range) _ ⟨last, hlast, q, hqlast, hq⟩
  have hseg : seg ∈ ix.rx.ofo := by simp [hofo]
  have htraced := hnoted pre seg rest hofo ⟨p, hp, hprange⟩ hbehind
  have hpnote := htraced.covers p hp hprange
  have hpblock := hall p hprange ((holds_iff_covers h p).mpr ⟨seg, hseg, hp⟩)
  have hmem := (mem_normalizeSacks_iff h).mpr hrun
  obtain ⟨spans, hnormalized, hsep, hright, hholds⟩ := settled_spans h
  obtain ⟨home, hhome, hin⟩ := node_in_span h hsep hholds hseg hp
  rw [hnormalized] at hmem
  obtain ⟨s, hs, rfl⟩ := mem_map.mp hmem
  have hslt := (hsep.mem_bounds s hs).2
  -- two spans with a common offset are the same
  have hunique : ∀ t ∈ spans, ∀ t' ∈ spans, ∀ x, t.left ≤ x → x < t.right → t'.left ≤ x →
      x < t'.right → t = t' := by
    intro t ht t' ht' x
    by_contra! hne
    have hapart := hsep.apart ht ht' hne.2.2.2.2
    omega
  rw [covers_toRange_iff hslt (hright s hs)] at hpblock
  obtain rfl : s = home :=
    hunique s hs home hhome _ hpblock.1 hpblock.2 (hin p hp).1 (hin p hp).2
  have hoverlap : ∀ t ∈ spans,
      ((Serial.gt (toRange ix.rx.recvAck t).right ix.rx.sackRecent.left &&
        Serial.gt ix.rx.sackRecent.right (toRange ix.rx.recvAck t).left) = true ↔ t = s) := by
    intro t ht
    have htlt := (hsep.mem_bounds t ht).2
    have htright := hright t ht
    have hlen : ((toRange ix.rx.recvAck t).right - (toRange ix.rx.recvAck t).left).toNat =
        t.right - t.left := Serial.toNat_pos_sub_pos _ htlt.le (by omega)
    rw [Bool.and_eq_true, ← meet_iff (by omega) htraced.short (by omega)
      (Nat.lt_of_le_of_lt (Nat.zero_le _) hpnote)]
    constructor
    · rintro ⟨x, hx, hxnote⟩
      rw [covers_toRange_iff htlt htright] at hx
      have hpoint := (hholds x).mp (mem_points.mpr ⟨t, ht, hx⟩)
      obtain ⟨other, hother, hxother⟩ := (holds_iff_covers h x).mp hpoint
      have hxin := hin x (htraced.own other hother x hxother hxnote)
      exact hunique t ht s hs _ hx.1 hx.2 hxin.1 hxin.2
    · rintro rfl
      exact ⟨p, (covers_toRange_iff htlt htright).mpr hpblock, hpnote⟩
  rw [recentBlock, if_pos htraced.valid, hnormalized]
  cases hfound : (spans.map (toRange ix.rx.recvAck)).find? fun block =>
      Serial.gt block.right ix.rx.sackRecent.left &&
        Serial.gt ix.rx.sackRecent.right block.left with
  | none => exact absurd ((hoverlap s hs).mpr rfl) (List.find?_eq_none.mp hfound _ hmem)
  | some found =>
    obtain ⟨t, ht, rfl⟩ := mem_map.mp (mem_of_find?_eq_some hfound)
    have hpassed := List.find?_some hfound
    rw [(hoverlap t ht).mp hpassed]

end Runs

section Assembly

variable {normalized out front : List SackBlock} {capacity : Nat} {st : OptionStream}

/-- Neither block contains the other. -/
def Apart (a b : SackBlock) : Prop := blockContains a b = false ∧ blockContains b a = false

/-- Of the blocks above the ACK none in a report contains another. -/
theorem Assembled.apart (h : Assembled front normalized out) (hdistinct : Distinct normalized) :
    ∃ rest, out = front ++ rest ∧ (∀ block ∈ rest, block ∈ normalized) ∧ rest.Pairwise Apart := by
  obtain ⟨rest, rfl, hrest, hapart⟩ := h
  refine ⟨rest, rfl, hrest, (pairwise_append.mp hapart).2.1.imp_of_mem ?_⟩
  intro a b ha hb hnot
  refine ⟨hnot, Bool.eq_false_iff.mpr fun hcontains => ?_⟩
  obtain rfl := (hdistinct b (hrest b hb) a (hrest a ha)).mp hcontains
  exact Bool.false_ne_true (hnot.symm.trans hcontains)

/-- The note is used up, and the first block of the history is `block`. -/
def Led (st : OptionStream) (block : SackBlock) : Prop :=
  st.ix.rx.sackRecentValid = false ∧
    (st.sackHistory.take st.ix.rx.sackHistoryCount).head? = some block

theorem Led.recentBlock_none {block : SackBlock} (h : Led st block) (normalized : List SackBlock) :
    recentBlock st.ix.rx normalized = none := by
  rw [recentBlock, h.1, if_neg Bool.false_ne_true]

/-- A block that is pushed is the first of the history. -/
theorem historyPush_head (history : List SackBlock) (block : SackBlock) :
    (tcpOptionsHistoryPush history block).head? = some block := by
  rw [tcpOptionsHistoryPush]
  split <;> rfl

/-- A report leaves the block the note leads to in front of the history; without a note the history
stays. -/
theorem collectSacks_led {block : SackBlock}
    (h : recentBlock st.ix.rx (aboveAck st.ix.rx) = some block ∨
      Led st block) :
    Led (tcpOptionsCollectSacks st capacity).2 block := by
  refine ⟨rfl, ?_⟩
  simp only [tcpOptionsCollectSacks]
  rcases h with hrecent | hled
  · simp only [hrecent]
    exact (congrArg head? (take_length)).trans (historyPush_head _ _)
  · simp only [hled.recentBlock_none]
    exact (congrArg head? (take_length)).trans hled.2

/-- The loops of the report do not change its first block. -/
theorem loops_head {block : SackBlock} (history : List SackBlock) (hout : out.head? = some block) :
    (normalized.foldl (addRemaining capacity)
      (history.foldl (addFromHistory normalized capacity) out)).head? = some block := by
  refine loops_induction (P := fun out => out.head? = some block) ?_ history hout
  intro out b _ hout
  obtain ⟨tail, hprefix⟩ := @isPrefix_addDistinct capacity out b
  rw [← hprefix, List.head?_append, hout]
  rfl

/-- The history finds a block that is still reported. -/
theorem addFromHistory_self {block : SackBlock} (hdistinct : Distinct normalized)
    (hcapacity : capacity ≠ 0) (hblock : block ∈ normalized) :
    addFromHistory normalized capacity [] block = [block] := by
  have hfound : normalized.find? (fun b => blockContains b block) = some block := by
    cases hfind : normalized.find? fun b => blockContains b block with
    | none =>
      have hself := (hdistinct block hblock block hblock).mpr rfl
      exact absurd hself (List.find?_eq_none.mp hfind block hblock)
    | some found =>
      have hcontains : blockContains found block = true :=
        List.find?_some (p := fun b => blockContains b block) hfind
      rw [(hdistinct found (mem_of_find?_eq_some hfind) block hblock).mp hcontains]
  rw [addFromHistory, hfound, length_nil, if_pos (Nat.pos_of_ne_zero hcapacity)]
  simp [tcpOptionsAddDistinct, hcapacity]

/-- Without a pending duplicate the block the note or the history leads to comes first. -/
theorem collectSacks_head {block : SackBlock} (hpending : st.ix.rx.dsackPending = false)
    (hcapacity : capacity ≠ 0)
    (hdistinct : Distinct (aboveAck st.ix.rx))
    (hblock : block ∈ aboveAck st.ix.rx)
    (hlead : recentBlock st.ix.rx (aboveAck st.ix.rx) = some block ∨
      Led st block) :
    (tcpOptionsCollectSacks st capacity).1.head? = some block := by
  simp only [tcpOptionsCollectSacks, hpending, Bool.false_and, Bool.false_eq_true, if_false]
  rcases hlead with hrecent | hled
  · have hfirst : tcpOptionsAddDistinct capacity [] block = [block] := by
      simp [tcpOptionsAddDistinct, hcapacity]
    simp only [hrecent, hfirst]
    exact loops_head _ rfl
  · simp only [hled.recentBlock_none]
    obtain ⟨rest, hhistory⟩ := head?_eq_some_iff.mp hled.2
    rw [hhistory, foldl_cons, addFromHistory_self hdistinct hcapacity hblock]
    exact loops_head rest rfl

end Assembly

section Watched

/-- A stream, the last payload that was offered to its queue, and the receive side at the first
report since then. -/
structure WatchedStream where
  stream : OptionStream
  last : SackBlock := ⟨0, 0⟩
  reported : Option IndexedRx := none

/-- The receive side that decides which run is to come first: at the first report since payload was
offered, or now. -/
def WatchedStream.decisive (w : WatchedStream) : IndexedRx := w.reported.getD w.stream.ix

/-- The payload an event offers to the queue. -/
def offeredBy (st : OptionStream) : OptionEvent → Option SackBlock
  | .call call owner tape => offered (st.ix.under owner tape) call
  | _ => none

/-- Whether an event builds a report: the header of an ACK, with something to report. -/
def buildsReport (st : OptionStream) : OptionEvent → Bool
  | .established f now => (tcpOptionsApplyEstablished st f now).isSome && f.ack &&
      st.ix.rx.sackPermitted && (st.ix.rx.dsackPending || st.ix.rx.ofo ≠ [])
  | _ => false

def watchedStep (w : WatchedStream) (e : OptionEvent) : WatchedStream :=
  match offeredBy w.stream e with
  | some range => { stream := optionStep w.stream e, last := range }
  | none =>
    { stream := optionStep w.stream e
      last := w.last
      reported := if buildsReport w.stream e then some w.decisive else w.reported }

/-- The runs of a stream, watched. -/
def watchedSystem : System WatchedStream OptionEvent where
  init w := reportSystem.init w.stream ∧ w.stream.ix.rx.sackRecentValid = false ∧ w.reported = none
  enabled w e := reportSystem.enabled w.stream e
  step := watchedStep

/-- No FIN without payload arrives strictly inside a node. -/
def WatchedFinApart (w : WatchedStream) (e : OptionEvent) : Prop := FinApart w.stream e

variable {w : WatchedStream} {st : OptionStream}

/-- A header without a report leaves notes and history alone. -/
theorem optionStep_established (st : OptionStream) (f : Fragment) (now : BitVec 32) :
    ∃ capacity stamp, optionStep st (.established f now) =
      { if buildsReport st (.established f now) then (tcpOptionsCollectSacks st capacity).2 else st
        with tsLastVal := stamp } := by
  rw [optionStep, buildsReport]
  cases hbuilt : tcpOptionsApplyEstablished st f now with
  | none => exact ⟨0, st.tsLastVal, rfl⟩
  | some built =>
    simp only [tcpOptionsApplyEstablished, Option.bind_eq_bind, Option.bind_eq_some_iff] at hbuilt
    obtain ⟨f₁, hstamped, sent, hsent, heq⟩ := hbuilt
    obtain rfl := Option.some.inj heq
    have hreports : reportsSacks st.ix.rx f₁ = (f.ack && st.ix.rx.sackPermitted &&
        (st.ix.rx.dsackPending || st.ix.rx.ofo ≠ [])) := by
      have hroom : f₁.ack = f.ack ∧ f₁.optLen * 4 + 2 ≤ tcpMaxOptions * 4 := by
        simp only [emitIf, tcpOptionsEmitTimestamp, tcpOptionsAppend] at hstamped
        split_ifs at hstamped <;> obtain rfl := Option.some.inj hstamped
        · refine ⟨rfl, ?_⟩
          simp [length_timestampOption, Fragment.clear, tcpMaxOptions]
        · exact ⟨rfl, show 0 * 4 + 2 ≤ 10 * 4 by decide⟩
      rw [reportsSacks, hroom.1, decide_eq_true hroom.2, Bool.and_true]
    have hstate := emitSack_state hsent
    simp only [Option.isSome_some, Bool.true_and, ← hreports]
    refine ⟨sackCapacity f₁, if st.timestampsOk then now else st.tsLastVal, hstate.trans ?_⟩
    cases reportsSacks st.ix.rx f₁ <;> rfl

/-- The last payload offered is noted until a report; then the run it lies in is first in the
history, as long as nothing is emptied. -/
structure WatchedStream.Remembers (w : WatchedStream) : Prop where
  noted : w.reported = none → Noted w.stream.ix.rx w.last
  led : ∀ ix, w.reported = some ix → ∀ block, HeldRun ix block → Retains ix w.last block →
    w.stream.ix.rx.ofo = [] ∨ Led w.stream block

/-- What keeps the notes and the history keeps what is remembered. -/
theorem WatchedStream.Remembers.of_kept (h : w.Remembers) (hsound : w.stream.Sound)
    (hkept : Kept w.stream.ix.rx st.ix.rx) (hhistory : st.sackHistory = w.stream.sackHistory) :
    { w with stream := st }.Remembers := by
  refine ⟨fun hnone => hkept.noted hsound.report.ofo_short (h.noted hnone), ?_⟩
  intro ix hsome block hrun hretains
  rcases hkept with hnil | ⟨hnotes, pre, seg, rest, part, hofo, -⟩
  · exact .inl hnil
  · rcases h.led ix hsome block hrun hretains with hnil | hled
    · exact absurd (hofo.symm.trans hnil) (by simp)
    · simp only [Rx.sackNotes, Prod.mk.injEq] at hnotes
      refine .inr ⟨hnotes.1.trans hled.1, ?_⟩
      show (st.sackHistory.take st.ix.rx.sackHistoryCount).head? = _
      rw [hhistory, hnotes.2.2]
      exact hled.2

/-- A report turns the note into the first block of the history. -/
theorem WatchedStream.Remembers.report {base : Seq} {others : Nat × Nat} {k capacity : Nat}
    (h : w.Remembers) (hsettled : w.stream.ix.Settled base others k) {stamp : BitVec 32} :
    WatchedStream.Remembers
      { stream := { (tcpOptionsCollectSacks w.stream capacity).2 with tsLastVal := stamp }
        last := w.last
        reported := some w.decisive } := by
  refine ⟨fun hnone => absurd hnone (Option.some_ne_none _), ?_⟩
  rintro ix ⟨⟩ block hrun hretains
  cases hreported : w.reported with
  | none =>
    rw [WatchedStream.decisive, hreported] at hrun hretains
    exact .inr (collectSacks_led (.inl (recentBlock_eq hsettled (h.noted hreported) hrun hretains)))
  | some ix =>
    rw [WatchedStream.decisive, hreported] at hrun hretains
    refine (h.led ix hreported block hrun hretains).imp id fun hled => ?_
    exact collectSacks_led (.inr hled)

theorem watchedStep_remembers (h : w.Remembers) (hsound : w.stream.Sound)
    (hplaced : w.stream.Placed) (e : OptionEvent) (henabled : optionSystem.enabled w.stream e) :
    (watchedStep w e).Remembers := by
  cases e with
  | call call owner tape =>
    have hunder : Reportable (w.stream.ix.under owner tape) :=
      hsound.report.congr ⟨rfl, id, rfl⟩
    have hnotes := apply_notes hunder call henabled
    rw [watchedStep, offeredBy]
    cases hoffered : offered (w.stream.ix.under owner tape) call with
    | none =>
      rw [hoffered] at hnotes
      exact h.of_kept hsound hnotes rfl
    | some range =>
      rw [hoffered] at hnotes
      exact ⟨fun _ => hnotes, fun ix hsome => absurd hsome.symm (Option.some_ne_none ix)⟩
  | negotiate peer => exact h.of_kept hsound (.of_eq rfl rfl) rfl
  | timestamp tsval => exact h.of_kept hsound (.of_eq rfl rfl) rfl
  | syn f includeWscale includeTimestamp includeSackPermitted tsecr now =>
    rw [watchedStep, optionStep]
    cases hbuilt : tcpOptionsApplySyn w.stream f includeWscale includeTimestamp
      includeSackPermitted tsecr now with
    | none => exact h
    | some built =>
      simp only [tcpOptionsApplySyn, Option.bind_eq_bind, Option.bind_eq_some_iff] at hbuilt
      obtain ⟨f₁, -, f₂, -, f₃, -, f₄, -, heq⟩ := hbuilt
      obtain rfl := Option.some.inj heq
      exact h.of_kept hsound (.of_eq rfl rfl) rfl
  | established f now =>
    obtain ⟨capacity, stamp, heq⟩ := optionStep_established w.stream f now
    obtain ⟨base, others, k, hsettled⟩ := hplaced
    have hnothing : offeredBy w.stream (.established f now) = none := rfl
    rw [watchedStep, hnothing, heq]
    cases hbuilds : buildsReport w.stream (.established f now) with
    | false => exact h.of_kept hsound (.of_eq rfl rfl) rfl
    | true => exact h.report hsettled

/-- In every run without a FIN inside a node the stream is sound and placed, and it remembers the
last payload offered. -/
theorem watched_of_reach (h : watchedSystem.Reach WatchedFinApart w) :
    (w.stream.Sound ∧ w.stream.Placed) ∧ w.Remembers := by
  apply h.invariant
  · rintro w ⟨hinit, -, hreported⟩
    refine ⟨sound_and_placed_of_reach (.init hinit), fun _ => ?_, fun ix hsome => ?_⟩
    · intro pre seg rest hofo
      rw [hinit.1.2.1] at hofo
      exact absurd hofo.symm (append_ne_nil_of_right_ne_nil _ (cons_ne_nil _ _))
    · exact absurd (hreported.symm.trans hsome).symm (Option.some_ne_none ix)
  · intro w e hinv henabled hfin
    obtain ⟨⟨hsound, hplaced⟩, hremembers⟩ := hinv
    have hstep : (watchedStep w e).stream = optionStep w.stream e := by
      rw [watchedStep]
      split <;> rfl
    refine ⟨?_, watchedStep_remembers hremembers hsound hplaced e henabled.1⟩
    show (watchedStep w e).stream.Sound ∧ (watchedStep w e).stream.Placed
    rw [hstep]
    exact ⟨optionStep_sound hsound e henabled.1, optionStep_placed hplaced e henabled hfin⟩

/-- The blocks an ACK carries behind the options that are already in the fragment. -/
def sackBlocks (st : OptionStream) (f : Fragment) : List SackBlock :=
  if reportsSacks st.ix.rx f then (tcpOptionsCollectSacks st (sackCapacity f)).1 else []

/-- The blocks of a report other than the pending duplicate. -/
def runBlocks (st : OptionStream) (f : Fragment) : List SackBlock :=
  if st.ix.rx.dsackPending then (sackBlocks st f).drop 1 else sackBlocks st f

instance (w : WatchedStream) (e : OptionEvent) : Decidable (watchedSystem.enabled w e) :=
  inferInstanceAs (Decidable (reportSystem.enabled w.stream e))

instance (w : WatchedStream) (e : OptionEvent) : Decidable (WatchedFinApart w e) :=
  inferInstanceAs (Decidable (FinApart w.stream e))

/-- An ACK without options so far. -/
def plainAck : Fragment := ⟨false, true, 0x50, 0, []⟩

theorem watched_run {ok : WatchedStream → OptionEvent → Prop} {events : List OptionEvent}
    (h : watchedSystem.Admissible ok { stream := negotiatedStream } events) :
    watchedSystem.Reach ok (watchedSystem.run { stream := negotiatedStream } events) := by
  have hinit : reportSystem.init negotiatedStream :=
    ⟨⟨rfl, rfl, rfl, by decide⟩, ⟨rfl, rfl, rfl, rfl, rfl, rfl, rfl, rfl, le_rfl, rfl⟩⟩
  have hstart : watchedSystem.init { stream := negotiatedStream } := ⟨hinit, rfl, rfl⟩
  exact System.Reach.run (.init hstart) h

/-- Two segments beyond a hole, the second one later. -/
def twoBeyond : List OptionEvent :=
  [.call (.segment .established 20 [1, 2, 3] false) {} [999, 999, 1, 1],
    .established plainAck 7,
    .call (.segment .established 30 [4] false) { segmentsCurrent := 1, bytesCurrent := 3 }
      [999, 999, 1, 1]]

/-- Two FINs without payload inside one node, and a byte of the node again. -/
def twoFinsInside : List OptionEvent :=
  [.call (.segment .established 5 [1, 2, 3, 4, 5, 6] false) {} [999, 999, 1, 1],
    .call (.segment .established 10 [] true) { segmentsCurrent := 1, bytesCurrent := 6 }
      [999, 999, 1, 1],
    .call (.segment .established 7 [] true) { segmentsCurrent := 2, bytesCurrent := 6 }
      [999, 999, 1, 1],
    .call (.segment .established 8 [4] false) { segmentsCurrent := 3, bytesCurrent := 6 }
      [999, 999, 1, 1]]

/-- A segment that finds no memory. -/
def noMemory : OptionEvent :=
  .call (.segment .established 40 [5] false) { segmentsCurrent := 2, bytesCurrent := 4 }
    [999, 999, 0]

end Watched

end SnowTG.Tcp.Options
