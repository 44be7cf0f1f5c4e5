import SnowTG.Lib.SpanMerge
import SnowTG.Tcp.SackRanges
import SnowTG.Tcp.Options

/-!
# The blocks a receiver reports

Ranges of the out-of-order queue are compared with `recv_ack` and with each
other.  Measured from `recv_ack`, what is reported lies in one half of the
sequence space whatever the queue holds, so the normalisation loop merges spans
of offsets, and every block has its ends in order.
-/

namespace SnowTG.Tcp.Options

open SnowTG.Lib SnowTG.Lib.Spans List

variable {recvAck : Seq} {ofo : List OfoSeg}

/-- What of a node is reported, as offsets from `recv_ack`. -/
def reportSpan (recvAck : Seq) (seg : OfoSeg) : Option Span :=
  if seg.data.length = 0 || !Serial.gt seg.endSeq recvAck then none
  else some ⟨if Serial.gt recvAck seg.seq then 0 else (seg.seq - recvAck).toNat,
    (seg.endSeq - recvAck).toNat⟩

theorem gt_iff_toNat (a b : Seq) :
    Serial.gt a b = true ↔ 0 < (a - b).toNat ∧ (a - b).toNat < 2 ^ 31 := by
  rw [Serial.gt, decide_eq_true_iff, BitVec.toInt_eq_toNat_cond]
  have := (a - b).isLt
  split_ifs with h <;> omega

theorem pos_toNat_sub (base q : Seq) : Serial.pos base (q - base).toNat = q := by
  rw [Serial.pos, BitVec.ofNat_toNat, BitVec.setWidth_eq, add_sub_cancel]

/-- A reported span is not empty, lies in the half behind `recv_ack`, and its ends are those the
source computes. -/
theorem reportSpan_spec {seg : OfoSeg} {s : Span} (hlen : seg.data.length < 2 ^ 31)
    (h : reportSpan recvAck seg = some s) :
    s.left < s.right ∧ s.right < 2 ^ 31 ∧ Serial.pos recvAck s.right = seg.endSeq ∧
      Serial.pos recvAck s.left = if Serial.gt recvAck seg.seq then recvAck else seg.seq := by
  rw [reportSpan] at h
  by_cases hskip : (seg.data.length = 0 || !Serial.gt seg.endSeq recvAck) = true
  · rw [if_pos hskip] at h
    exact absurd h (Option.some_ne_none s).symm
  rw [if_neg hskip] at h
  simp only [Bool.or_eq_true, decide_eq_true_iff, Bool.not_eq_true', not_or,
    Bool.not_eq_false] at hskip
  obtain ⟨hpos, hafter⟩ := hskip
  obtain rfl := Option.some.inj h
  rw [gt_iff_toNat] at hafter
  refine ⟨?_, hafter.2, pos_toNat_sub _ _, ?_⟩
  · dsimp only
    split_ifs with hbefore
    · exact hafter.1
    · rw [gt_iff_toNat] at hbefore
      -- the end is the start and the length further on, and neither wraps
      have hend : (seg.endSeq - recvAck).toNat =
          ((seg.seq - recvAck).toNat + seg.data.length) % 2 ^ 32 := by
        have heq : seg.endSeq - recvAck =
            (seg.seq - recvAck) + BitVec.ofNat 32 seg.data.length := by
          rw [OfoSeg.endSeq, add_sub_right_comm]
        rw [heq, BitVec.toNat_add, BitVec.toNat_ofNat, Nat.add_mod_mod]
      have hneg : (recvAck - seg.seq).toNat = (2 ^ 32 - (seg.seq - recvAck).toNat) % 2 ^ 32 := by
        rw [← neg_sub, BitVec.toNat_neg]
      have := (seg.seq - recvAck).isLt
      omega
  · dsimp only
    split_ifs
    · exact Serial.pos_zero _
    · exact pos_toNat_sub _ _

theorem gt_pos {a b : Nat} (ha : a < 2 ^ 31) (hb : b < 2 ^ 31) :
    Serial.gt (Serial.pos recvAck a) (Serial.pos recvAck b) = decide (b < a) := by
  rw [Bool.eq_iff_iff, decide_eq_true_iff, Serial.gt_pos_iff _ (by omega) (by omega)]

section

variable (hlen : ∀ seg ∈ ofo, seg.data.length < 2 ^ 31)
include hlen

/-- The normalisation loop merges the reported spans. -/
theorem normalizeSacks_eq {acc : List Span} (hacc : ∀ s ∈ acc, s.right < 2 ^ 31) :
    normalizeSacks recvAck ofo (acc.map (toRange recvAck)) =
      (mergeTouching tcpOfoMaxSegs (ofo.filterMap (reportSpan recvAck)) acc).map
        (toRange recvAck) := by
  induction ofo generalizing acc with
  | nil => simp [normalizeSacks, mergeTouching]
  | cons seg rest ih =>
    have hrest : ∀ seg ∈ rest, seg.data.length < 2 ^ 31 :=
      fun other hother => hlen other (mem_cons_of_mem _ hother)
    rw [normalizeSacks, filterMap_cons]
    by_cases hskip : (seg.data.length = 0 || !Serial.gt seg.endSeq recvAck) = true
    · rw [if_pos hskip, reportSpan, if_pos hskip]
      exact ih hrest hacc
    · rw [if_neg hskip]
      obtain ⟨s, hs⟩ : ∃ s, reportSpan recvAck seg = some s := by
        rw [reportSpan, if_neg hskip]
        exact ⟨_, rfl⟩
      obtain ⟨hlt, hright, hend, hstart⟩ := reportSpan_spec (hlen seg mem_cons_self) hs
      simp only [hs, ← hstart, ← hend]
      cases acc with
      | nil => exact @ih hrest [s] (by simpa using hright)
      | cons last older =>
        have hlast := hacc last mem_cons_self
        have holder : ∀ t ∈ older, t.right < 2 ^ 31 :=
          fun t ht => hacc t (mem_cons_of_mem _ ht)
        simp only [map_cons, toRange_left, toRange_right, length_cons,
          length_map, gt_pos (hlt.trans hright) hlast, gt_pos hright hlast, mergeTouching,
          Bool.not_eq_true', decide_eq_false_iff_not, not_lt, decide_eq_true_iff]
        split_ifs with htouch hgrow hfull
        · have hmax : max last.right s.right = s.right := max_eq_right hgrow.le
          rw [hmax]
          refine @ih hrest (⟨last.left, s.right⟩ :: older) ?_
          exact forall_mem_cons.mpr ⟨hright, holder⟩
        · have hmax : max last.right s.right = last.right := max_eq_left (not_lt.mp hgrow)
          rw [hmax]
          exact @ih hrest (last :: older) hacc
        · rw [map_reverse, map_cons]
        · exact @ih hrest (s :: last :: older) (forall_mem_cons.mpr ⟨hright, hacc⟩)

/-- The blocks above `recv_ack`: separated spans of offsets in one half of the sequence space. -/
theorem normalizeSacks_spans :
    ∃ spans : List Span, normalizeSacks recvAck ofo [] = spans.map (toRange recvAck) ∧
      Separated 0 spans ∧ (∀ s ∈ spans, s.right < 2 ^ 31) ∧
      spans = mergeTouching tcpOfoMaxSegs (ofo.filterMap (reportSpan recvAck)) [] := by
  have hspan : ∀ s ∈ ofo.filterMap (reportSpan recvAck), s.left < s.right ∧ s.right < 2 ^ 31 := by
    intro s hs
    obtain ⟨seg, hseg, hreport⟩ := mem_filterMap.mp hs
    obtain ⟨hlt, hright, -⟩ := reportSpan_spec (hlen seg hseg) hreport
    exact ⟨hlt, hright⟩
  refine ⟨_, normalizeSacks_eq hlen (fun s hs => absurd hs not_mem_nil), ?_, ?_, rfl⟩
  · exact mergeTouching_separated (fun s hs => (hspan s hs).1) trivial
  · exact mergeTouching_right_lt (fun s hs => (hspan s hs).2)
      fun s hs => absurd hs not_mem_nil

theorem normalizeSacks_ordered :
    ∀ block ∈ normalizeSacks recvAck ofo [], Serial.gt block.right block.left = true := by
  obtain ⟨spans, heq, hsep, hright, -⟩ := @normalizeSacks_spans recvAck ofo hlen
  rw [heq]
  intro block hblock
  obtain ⟨s, hs, rfl⟩ := mem_map.mp hblock
  have hlt := (hsep.mem_bounds s hs).2
  have hbound := hright s hs
  rw [toRange_left, toRange_right, gt_pos hbound (hlt.trans hbound), decide_eq_true_iff]
  exact hlt

end

section Collect

variable {capacity : Nat} {good : SackBlock → Prop} {out : List SackBlock}

/-- A report within its capacity all of whose blocks are `good`. -/
structure Report (good : SackBlock → Prop) (capacity : Nat) (out : List SackBlock) : Prop where
  all : ∀ block ∈ out, good block
  few : out.length ≤ capacity

theorem report_nil : Report good capacity [] :=
  ⟨fun _ hblock => absurd hblock not_mem_nil, zero_le⟩

theorem Report.addDistinct {block : SackBlock} (h : Report good capacity out)
    (hblock : good block) : Report good capacity (tcpOptionsAddDistinct capacity out block) := by
  rw [tcpOptionsAddDistinct]
  split_ifs with hcontained hfull
  · exact h
  · exact h
  · refine ⟨?_, by rw [length_append, length_singleton]; omega⟩
    intro b hb
    rcases mem_append.mp hb with hb | hb
    · exact h.all b hb
    · rw [mem_singleton.mp hb]
      exact hblock

/-- The blocks above `recv_ack`. -/
abbrev aboveAck (rx : Rx) : List SackBlock := normalizeSacks rx.recvAck rx.ofo []

/-- What is kept by adding a block above `recv_ack` is kept by the loops over the history and over
the blocks. -/
theorem loops_induction {P : List SackBlock → Prop} {normalized : List SackBlock}
    (hadd : ∀ out, ∀ block ∈ normalized, P out → P (tcpOptionsAddDistinct capacity out block))
    (history : List SackBlock) (hout : P out) :
    P (normalized.foldl (addRemaining capacity)
      (history.foldl (addFromHistory normalized capacity) out)) := by
  have hfold : ∀ {round : List SackBlock → SackBlock → List SackBlock} (l out : List SackBlock),
      (∀ out, ∀ block ∈ l, P out → P (round out block)) → P out → P (l.foldl round out) := by
    intro round l
    induction l with
    | nil => exact fun out _ hout => hout
    | cons block rest ih =>
      intro out hround hout
      apply ih _ (fun out other hother => hround out other (mem_cons_of_mem _ hother))
      exact hround out block mem_cons_self hout
  refine hfold _ _ ?_ (hfold _ _ ?_ hout)
  · intro out block hblock hout
    rw [addRemaining]
    split_ifs
    · exact hadd out block hblock hout
    · exact hout
  · intro out old _ hout
    rw [addFromHistory]
    split_ifs
    · split
      · next block hfind => exact hadd out block (mem_of_find?_eq_some hfind) hout
      · exact hout
    · exact hout

/-- What holds of the report of the duplicate and is kept by adding a block above `recv_ack` holds
of the whole report. -/
theorem collectSacks_induction {P : List SackBlock → Prop} (st : OptionStream) (capacity : Nat)
    (hstart : P (if (st.ix.rx.dsackPending && capacity ≠ 0) = true then
      dsackBlocks st.ix.rx (aboveAck st.ix.rx) capacity else []))
    (hadd : ∀ out, ∀ block ∈ aboveAck st.ix.rx, P out →
      P (tcpOptionsAddDistinct capacity out block)) :
    P (tcpOptionsCollectSacks st capacity).1 := by
  simp only [tcpOptionsCollectSacks]
  refine loops_induction hadd _ ?_
  split
  · next block hfind =>
      rw [recentBlock] at hfind
      split_ifs at hfind
      exact hadd _ block (mem_of_find?_eq_some hfind) hstart
  · exact hstart

/-- The same from the duplicate range alone: the block around it is one above `recv_ack`. -/
theorem collectSacks_from {P : List SackBlock → Prop} (st : OptionStream) (capacity : Nat)
    (hstart : P (if (st.ix.rx.dsackPending && capacity ≠ 0) = true then [st.ix.rx.dsackBlock]
      else []))
    (hadd : ∀ out, ∀ block ∈ aboveAck st.ix.rx, P out →
      P (tcpOptionsAddDistinct capacity out block)) :
    P (tcpOptionsCollectSacks st capacity).1 := by
  refine collectSacks_induction st capacity ?_ hadd
  by_cases hreports : (st.ix.rx.dsackPending && capacity ≠ 0) = true
  · have hfirst : tcpOptionsAddDistinct capacity [] st.ix.rx.dsackBlock = [st.ix.rx.dsackBlock] := by
      simp_all [tcpOptionsAddDistinct]
    rw [if_pos hreports] at hstart ⊢
    rw [dsackBlocks, hfirst]
    split_ifs
    · split
      · next block hfind => exact hadd _ block (mem_of_find?_eq_some hfind) hstart
      · exact hstart
    · exact hstart
  · rwa [if_neg hreports] at hstart ⊢

/-- What the duplicate range and the blocks above `recv_ack` have, every block of the report has. -/
theorem collectSacks_report (st : OptionStream) (capacity : Nat)
    (hnormalized : ∀ block ∈ aboveAck st.ix.rx, good block)
    (hdsack : st.ix.rx.dsackPending = true → good st.ix.rx.dsackBlock) :
    Report good capacity (tcpOptionsCollectSacks st capacity).1 := by
  apply collectSacks_from
  · split_ifs with hreports
    · rw [Bool.and_eq_true, decide_eq_true_iff] at hreports
      exact ⟨fun block hblock => mem_singleton.mp hblock ▸ hdsack hreports.1,
        Nat.pos_of_ne_zero hreports.2⟩
    · exact report_nil
  · intro out block hblock hout
    exact hout.addDistinct (hnormalized block hblock)

end Collect

end SnowTG.Tcp.Options
