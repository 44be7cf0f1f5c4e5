import SnowTG.Tcp.OptionRun

/-!
# Agreement on duplicates

A receiver reports a duplicate range as the first block.  Above the ACK the
sender takes it for a duplicate only if the second block contains it, and the
receiver leaves that block out when the duplicate already covers it.
-/

namespace SnowTG.Tcp.Options

open SnowTG.Lib SnowTG.Lib.Spans List
open SnowTG.Lib.Serial (pos gt_pos_iff toNat_pos_sub_pos)

theorem gt_of_leq_false {a b : Seq} (h : Serial.leq a b = false) : Serial.gt a b = true := by
  rw [Serial.leq, decide_eq_false_iff_not, not_le] at h
  rw [Serial.gt, decide_eq_true_iff]
  exact h

section Classification

variable {d : SackBlock} {normalized out : List SackBlock} {capacity : Nat} {block : SackBlock}

/-- A report: `front`, and behind it blocks above the ACK, none contained in one before it. -/
def Assembled (front normalized out : List SackBlock) : Prop :=
  ∃ rest, out = front ++ rest ∧ (∀ block ∈ rest, block ∈ normalized) ∧
    out.Pairwise fun a b => blockContains a b = false

theorem Assembled.addDistinct {front : List SackBlock} (h : Assembled front normalized out)
    (hblock : block ∈ normalized) :
    Assembled front normalized (tcpOptionsAddDistinct capacity out block) := by
  rw [tcpOptionsAddDistinct]
  split_ifs with hcontained hfull
  · exact h
  · exact h
  · obtain ⟨rest, rfl, hrest, hapart⟩ := h
    refine ⟨rest ++ [block], append_assoc _ _ _, ?_, ?_⟩
    · intro b hb
      rcases mem_append.mp hb with hb | hb
      · exact hrest b hb
      · exact mem_singleton.mp hb ▸ hblock
    · refine pairwise_append.mpr ⟨hapart, pairwise_singleton _ _, fun b hb c hc => ?_⟩
      rw [mem_singleton.mp hc]
      exact Bool.eq_false_iff.mpr fun hcontains =>
        hcontained (any_eq_true.mpr ⟨b, hb, hcontains⟩)

theorem isPrefix_addDistinct (out : List SackBlock) (block : SackBlock) :
    out <+: tcpOptionsAddDistinct capacity out block := by
  rw [tcpOptionsAddDistinct]
  split_ifs
  · exact prefix_rfl
  · exact prefix_rfl
  · exact prefix_append out [block]

variable {st : OptionStream}

/-- The first blocks of a report of a duplicate range above the ACK. -/
theorem dsackBlocks_prefix (hpending : st.ix.rx.dsackPending = true) (hcapacity : 2 ≤ capacity) :
    dsackBlocks st.ix.rx (aboveAck st.ix.rx) capacity <+:
      (tcpOptionsCollectSacks st capacity).1 := by
  have hreports : (st.ix.rx.dsackPending && capacity ≠ 0) = true := by
    rw [hpending, Bool.true_and, decide_eq_true_iff]
    omega
  apply collectSacks_induction
  · rw [if_pos hreports]
  · intro out block _ hout
    exact hout.trans (isPrefix_addDistinct out block)

theorem addDistinct_nil (hcapacity : 2 ≤ capacity) : tcpOptionsAddDistinct capacity [] d = [d] := by
  rw [tcpOptionsAddDistinct, any_nil, if_neg Bool.false_ne_true, if_neg]
  · rfl
  · rw [length_nil]
    omega

/-- The whole report: the pending duplicate, if there is room for it, and the blocks above the
ACK. -/
theorem collectSacks_assembled (st : OptionStream) (capacity : Nat) :
    Assembled (if (st.ix.rx.dsackPending && capacity ≠ 0) = true then [st.ix.rx.dsackBlock] else [])
      (aboveAck st.ix.rx) (tcpOptionsCollectSacks st capacity).1 := by
  apply collectSacks_from
  · refine ⟨[], (append_nil _).symm, fun _ h => absurd h not_mem_nil, ?_⟩
    split_ifs
    · exact pairwise_singleton _ _
    · exact .nil
  · exact fun out block hblock hout => hout.addDistinct hblock

/-- A report of a duplicate starts with it; behind it stand blocks that it does not contain. -/
theorem collectSacks_headed (hpending : st.ix.rx.dsackPending = true) (hcapacity : 2 ≤ capacity) :
    ∃ rest, (tcpOptionsCollectSacks st capacity).1 = st.ix.rx.dsackBlock :: rest ∧
      ∀ block ∈ rest, block ∈ aboveAck st.ix.rx ∧
        blockContains st.ix.rx.dsackBlock block = false := by
  obtain ⟨rest, hout, hrest, hapart⟩ := collectSacks_assembled st capacity
  have hroom : capacity ≠ 0 := by omega
  simp only [hpending, hroom, ne_eq, not_false_eq_true, decide_true, Bool.and_self, if_true] at hout
  rw [hout] at hapart
  exact ⟨rest, hout, fun block hblock => ⟨hrest block hblock, rel_of_pairwise_cons hapart hblock⟩⟩

/-- Above the ACK, the block around a duplicate comes second unless the duplicate covers it. -/
theorem dsackBlocks_of_mem {rx : Rx} (hcapacity : 2 ≤ capacity)
    (hafter : Serial.gt rx.dsackBlock.right rx.recvAck = true) (hblock : block ∈ normalized)
    (hcontains : blockContains block rx.dsackBlock = true)
    (hnot : blockContains rx.dsackBlock block = false)
    (hunique : ∀ other ∈ normalized, blockContains other rx.dsackBlock = true → other = block) :
    dsackBlocks rx normalized capacity = [rx.dsackBlock, block] := by
  have hfind : normalized.find? (fun b => blockContains b rx.dsackBlock) = some block := by
    cases hfound : normalized.find? fun b => blockContains b rx.dsackBlock with
    | none =>
      have := List.find?_eq_none.mp hfound block hblock
      exact absurd hcontains this
    | some other =>
      have hmem := mem_of_find?_eq_some hfound
      have hin : blockContains other rx.dsackBlock = true := @List.find?_some _ _ other _ hfound
      rw [hunique other hmem hin]
  rw [dsackBlocks, addDistinct_nil hcapacity]
  simp only [hafter, hfind, if_true]
  rw [tcpOptionsAddDistinct, if_neg, if_neg]
  · rfl
  · rw [length_singleton]
    omega
  · simp [hnot]

/-- The sender's rule on a whole report: the range ends at or before the ACK, or a block above the
ACK contains it and is not contained in it. -/
theorem firstIsDsack_collect (hpending : st.ix.rx.dsackPending = true) (hcapacity : 2 ≤ capacity)
    (hunique : Serial.gt st.ix.rx.dsackBlock.right st.ix.rx.recvAck = true →
      ∀ b ∈ aboveAck st.ix.rx,
      ∀ c ∈ aboveAck st.ix.rx,
      blockContains b st.ix.rx.dsackBlock = true → blockContains c st.ix.rx.dsackBlock = true →
      b = c) :
    sackFirstIsDsack st.ix.rx.recvAck (tcpOptionsCollectSacks st capacity).1 = true ↔
      Serial.leq st.ix.rx.dsackBlock.right st.ix.rx.recvAck = true ∨
        ∃ block ∈ aboveAck st.ix.rx,
          blockContains block st.ix.rx.dsackBlock = true ∧
            blockContains st.ix.rx.dsackBlock block = false := by
  obtain ⟨rest, hout, hrest⟩ := collectSacks_headed hpending hcapacity
  have hprefix := dsackBlocks_prefix hpending hcapacity
  rw [hout] at hprefix ⊢
  have hrule : sackFirstIsDsack st.ix.rx.recvAck (st.ix.rx.dsackBlock :: rest) = true ↔
      Serial.leq st.ix.rx.dsackBlock.right st.ix.rx.recvAck = true ∨
        ∃ second ∈ rest.head?, blockContains second st.ix.rx.dsackBlock = true := by
    cases rest with
    | nil | cons second others => simp [sackFirstIsDsack]
  rw [hrule]
  constructor
  · rintro (hbelow | ⟨second, hsecond, hcontains⟩)
    · exact .inl hbelow
    · obtain ⟨hmem, hnot⟩ := hrest second (mem_of_mem_head? hsecond)
      exact .inr ⟨second, hmem, hcontains, hnot⟩
  · rintro (hbelow | ⟨block, hblock, hcontains, hnot⟩)
    · exact .inl hbelow
    · cases hbelow : Serial.leq st.ix.rx.dsackBlock.right st.ix.rx.recvAck with
      | true => exact .inl rfl
      | false =>
        have hafter := gt_of_leq_false hbelow
        rw [dsackBlocks_of_mem hcapacity hafter hblock hcontains hnot
          fun other hother hin => hunique hafter other hother block hblock hin hcontains,
          cons_prefix_cons] at hprefix
        obtain ⟨others, rfl⟩ := hprefix.2
        exact .inr ⟨block, rfl, hcontains⟩

end Classification

variable {x : Nat}

section Buffered

variable {base : Seq} {others : Nat × Nat} {k : Nat} {ofo : List OfoSeg} {seg : OfoSeg} {o : Nat}

/-- What of a node of a chain is reported. -/
theorem reportSpan_of_pos (hseq : seg.seq = pos base o) (hko : k ≤ o)
    (hend : o + seg.data.length ≤ k + 2 ^ 18) :
    reportSpan (pos base k) seg =
      if seg.data.length = 0 then none else some ⟨o - k, o - k + seg.data.length⟩ := by
  have hstart : Serial.gt (pos base k) seg.seq = false := by
    rw [hseq, Bool.eq_false_iff, ne_eq, gt_pos_iff base (by omega) (by omega)]
    omega
  have hleft : (seg.seq - pos base k).toNat = o - k := by
    rw [hseq, toNat_pos_sub_pos base hko (by omega)]
  have hright : (seg.endSeq - pos base k).toNat = o - k + seg.data.length := by
    rw [endSeq_pos hseq, toNat_pos_sub_pos base (by omega) (by omega)]
    omega
  rw [reportSpan, hstart, hleft, hright]
  by_cases hempty : seg.data.length = 0
  · rw [if_pos hempty, if_pos (by simp [hempty])]
  · have hafter : Serial.gt seg.endSeq (pos base k) = true := by
      rw [endSeq_pos hseq, gt_pos_iff base (by omega) (by omega)]
      omega
    rw [if_neg hempty, if_neg (by simp [hempty, hafter])]
    rfl

/-- Whether a node of a chain has the byte `x` behind position `k`. -/
theorem node_has_iff (hseq : seg.seq = pos base o) (hko : k ≤ o)
    (hend : o + seg.data.length ≤ k + 2 ^ 18) (hx : x < 2 ^ 32) :
    (pos base (k + x) - seg.seq).toNat < seg.data.length ↔
      o - k ≤ x ∧ x < o - k + seg.data.length := by
  by_cases hle : o ≤ k + x
  · rw [hseq, toNat_pos_sub_pos base hle (by omega)]
    omega
  · have hback : (pos base (k + x) - seg.seq).toNat = 2 ^ 32 - (o - (k + x)) := by
      have hwrap : pos base (k + x) = pos base (k + x + 2 ^ 32) := by
        rw [pos, pos, BitVec.ofNat_add (k + x)]
        simp
      rw [hwrap, hseq, toNat_pos_sub_pos base (by omega) (by omega)]
      omega
    rw [hback]
    omega

/-- The reported spans of a chain ascend, and cover the bytes of its nodes. -/
theorem chain_reportSpans {edge behind lo hi : Nat} (h : Chain base edge behind lo ofo hi)
    (hk : k ≤ lo) (hhi : hi ≤ k + 2 ^ 18) :
    (ofo.filterMap (reportSpan (pos base k))).Pairwise (fun s t => s.left ≤ t.left) ∧
      (∀ s ∈ ofo.filterMap (reportSpan (pos base k)),
        lo - k ≤ s.left ∧ s.left < s.right ∧ s.right ≤ hi - k) ∧
      ∀ x < 2 ^ 32, x ∈ points (ofo.filterMap (reportSpan (pos base k))) ↔
        ∃ seg ∈ ofo, (pos base (k + x) - seg.seq).toNat < seg.data.length := by
  induction ofo generalizing lo with
  | nil => simp [points]
  | cons seg rest ih =>
    obtain ⟨o, hlo, hseq, -, hrest⟩ := h
    have hend := hrest.le
    obtain ⟨hascend, hbounds, hpoints⟩ := ih hrest (by omega)
    have hnode := reportSpan_of_pos hseq (hk.trans hlo) (by omega)
    by_cases hempty : seg.data.length = 0
    · rw [if_pos hempty] at hnode
      rw [filterMap_cons_none hnode]
      refine ⟨hascend, fun s hs => ?_, fun x hx => ?_⟩
      · have := hbounds s hs
        omega
      · rw [hpoints x hx, exists_mem_cons_iff]
        simp [hempty]
    · rw [if_neg hempty] at hnode
      rw [filterMap_cons_some hnode]
      refine ⟨List.Pairwise.cons (fun t ht => ?_) hascend, ?_, fun x hx => ?_⟩
      · have := (hbounds t ht).1
        dsimp only
        omega
      · refine forall_mem_cons.mpr ⟨?_, fun s hs => ?_⟩
        · dsimp only
          omega
        · have := hbounds s hs
          omega
      · rw [points, Finset.mem_union, Finset.mem_Ico, hpoints x hx, exists_mem_cons_iff,
          node_has_iff hseq (hk.trans hlo) (by omega) hx]

/-- The blocks above the ACK of a settled stream are the stretches of its buffered bytes. -/
theorem settled_spans {ix : IndexedRx} (h : ix.Settled base others k) :
    ∃ spans : List Span,
      aboveAck ix.rx = spans.map (toRange ix.rx.recvAck) ∧
      Separated 0 spans ∧ (∀ s ∈ spans, s.right ≤ 2 ^ 18) ∧
      ∀ q : Seq, (q - ix.rx.recvAck).toNat ∈ points spans ↔ ix.holds q = true := by
  have hedge := h.edge_le
  obtain ⟨hascend, hbounds, hpoints⟩ := chain_reportSpans h.placed le_rfl hedge
  have hlen : ∀ seg ∈ ix.rx.ofo, seg.data.length < 2 ^ 31 := by
    intro seg hseg
    obtain ⟨o, ho, -, hend, -⟩ := h.placed.position hseg
    omega
  obtain ⟨spans, hnormalized, hseparated, -, hmerged⟩ :=
    @normalizeSacks_spans ix.rx.recvAck ix.rx.ofo hlen
  have hack := h.ack
  rw [← hack] at hascend hbounds hpoints
  refine ⟨spans, hnormalized, hseparated, ?_, ?_⟩
  · have hlt : ∀ s ∈ spans, s.right < 2 ^ 18 + 1 := by
      rw [hmerged]
      apply mergeTouching_right_lt
      · intro s hs
        have := (hbounds s hs).2.2
        omega
      · exact fun s hs => absurd hs not_mem_nil
    exact fun s hs => Nat.lt_succ_iff.mp (hlt s hs)
  · intro q
    have hfew : (ix.rx.ofo.filterMap (reportSpan ix.rx.recvAck)).length ≤ tcpOfoMaxSegs := by
      have hcount := h.count
      exact (length_filterMap_le _ _).trans (hcount ▸ h.segLimit)
    have hsame : points spans = points (ix.rx.ofo.filterMap (reportSpan ix.rx.recvAck)) := by
      rw [hmerged, points_mergeTouching (fun s hs => (hbounds s hs).2.1) hascend
        (fun last hlast => absurd hlast (by simp)) (by simpa using hfew), points,
        Finset.empty_union]
    have hq : pos base (k + (q - ix.rx.recvAck).toNat) = q := by
      rw [← Serial.pos_add, ← hack]
      exact pos_toNat_sub ix.rx.recvAck q
    rw [hsame, hpoints _ (q - ix.rx.recvAck).isLt, hq, IndexedRx.holds, any_eq_true,
      ← h.content, IndexedRx.segs]
    simp

end Buffered

section Surrounded

variable {recvAck : Seq} {spans : List Span} {d : SackBlock}

theorem leq_iff_toNat (a b : Seq) :
    Serial.leq a b = true ↔ (a - b).toNat = 0 ∨ 2 ^ 31 ≤ (a - b).toNat := by
  rw [Serial.leq, decide_eq_true_iff, BitVec.toInt_eq_toNat_cond]
  have := (a - b).isLt
  split_ifs with h <;> omega

/-- The same in offsets from `recvAck`. -/
theorem leq_iff_offsets (a b : Seq) :
    Serial.leq a b = true ↔
      (2 ^ 32 - (b - recvAck).toNat + (a - recvAck).toNat) % 2 ^ 32 = 0 ∨
        2 ^ 31 ≤ (2 ^ 32 - (b - recvAck).toNat + (a - recvAck).toNat) % 2 ^ 32 := by
  have hdiff : a - b = (a - recvAck) - (b - recvAck) := (sub_sub_sub_cancel_right a b recvAck).symm
  rw [leq_iff_toNat, hdiff, BitVec.toNat_sub]

theorem toNat_pos_sub (hx : x < 2 ^ 32) : (pos recvAck x - recvAck).toNat = x := by
  rw [pos, add_sub_cancel_left, BitVec.toNat_ofNat, Nat.mod_eq_of_lt hx]

/-- The end of a range in offsets from `recvAck`. -/
theorem right_offset (d : SackBlock) : (d.right - recvAck).toNat =
    ((d.left - recvAck).toNat + (d.right - d.left).toNat) % 2 ^ 32 := by
  have hsum : d.right - recvAck = (d.left - recvAck) + (d.right - d.left) := by abel
  rw [hsum, BitVec.toNat_add]

/-- Containment of a short range that ends behind `recvAck`, in offsets. -/
theorem contains_iff {s : Span} (hlt : s.left < s.right) (hright : s.right ≤ 2 ^ 18)
    (hd : ShortRange d) (hafter : Serial.gt d.right recvAck = true) :
    (blockContains (toRange recvAck s) d = true ↔
      (d.left - recvAck).toNat < (d.right - recvAck).toNat ∧
        s.left ≤ (d.left - recvAck).toNat ∧ (d.right - recvAck).toNat ≤ s.right) ∧
    ((d.left - recvAck).toNat < (d.right - recvAck).toNat →
      (blockContains d (toRange recvAck s) = true ↔
        (d.left - recvAck).toNat ≤ s.left ∧ s.right ≤ (d.right - recvAck).toNat)) := by
  obtain ⟨hpos, hshort⟩ := hd
  have hend := @right_offset recvAck d
  have hleft := (d.left - recvAck).isLt
  rw [gt_iff_toNat] at hafter
  simp only [blockContains, Bool.and_eq_true, @leq_iff_offsets recvAck, toRange_left,
    toRange_right, toNat_pos_sub (show s.left < 2 ^ 32 by omega),
    toNat_pos_sub (show s.right < 2 ^ 32 by omega)]
  constructor
  · omega
  · omega

/-- A longer block is around the range exactly if all its bytes and one next to it are there. -/
theorem exists_around_iff (hsep : Separated 0 spans) (hright : ∀ s ∈ spans, s.right ≤ 2 ^ 18)
    (hd : ShortRange d) (hafter : Serial.gt d.right recvAck = true) :
    (∃ block ∈ spans.map (toRange recvAck),
        blockContains block d = true ∧ blockContains d block = false) ↔
      (∀ i < (d.right - d.left).toNat, (pos d.left i - recvAck).toNat ∈ points spans) ∧
        ((d.right - recvAck).toNat ∈ points spans ∨
          (d.left - 1 - recvAck).toNat ∈ points spans) := by
  have hcontains := fun s hs => contains_iff (hsep.mem_bounds s hs).2 (hright s hs) hd hafter
  have hsmall : ∀ x ∈ points spans, x < 2 ^ 18 := by
    intro x hx
    obtain ⟨s, hs, -, hlt⟩ := mem_points.mp hx
    exact hlt.trans_le (hright s hs)
  have hend := @right_offset recvAck d
  have hleft := (d.left - recvAck).isLt
  have hbyte : ∀ i : Nat, (pos d.left i - recvAck).toNat =
      ((d.left - recvAck).toNat + i) % 2 ^ 32 := by
    intro i
    rw [pos, add_sub_right_comm, BitVec.toNat_add, BitVec.toNat_ofNat, Nat.add_mod_mod]
  have hpred : (d.left - 1 - recvAck).toNat =
      ((d.left - recvAck).toNat + (2 ^ 32 - 1)) % 2 ^ 32 := by
    rw [sub_right_comm, BitVec.toNat_sub, add_comm]
    rfl
  obtain ⟨hpos, hshort⟩ := hd
  have hbehind := (gt_iff_toNat _ _).mp hafter
  rw [hpred]
  simp only [hbyte]
  generalize (d.left - recvAck).toNat = a at *
  generalize (d.right - recvAck).toNat = b at *
  generalize (d.right - d.left).toNat = n at *
  by_cases hab : a < b
  · obtain rfl : b = a + n := by omega
    have hlonger := hsep.exists_longer_iff hab
    simp only [mem_map, exists_exists_and_eq_and]
    calc (∃ s ∈ spans, blockContains (toRange recvAck s) d = true ∧
            blockContains d (toRange recvAck s) = false)
        ↔ ∃ s ∈ spans, s.left ≤ a ∧ a + n ≤ s.right ∧ (s.left < a ∨ a + n < s.right) := by
          refine exists_congr fun s => and_congr_right fun hs => ?_
          rw [(hcontains s hs).1, Bool.eq_false_iff, ne_eq, (hcontains s hs).2 hab]
          omega
      _ ↔ _ := hlonger
      _ ↔ _ := by
          refine and_congr ⟨fun hall i hi => ?_, fun hall x hax hxb => ?_⟩ (or_congr_right ?_)
          · rw [Nat.mod_eq_of_lt (by omega)]
            exact hall (a + i) (by omega) (by omega)
          · have := hall (x - a) (by omega)
            rwa [Nat.mod_eq_of_lt (by omega), Nat.add_sub_cancel' hax] at this
          · constructor
            · rintro ⟨hpos, hmem⟩
              have heq : (a + (2 ^ 32 - 1)) % 2 ^ 32 = a - 1 := by omega
              rwa [heq]
            · intro hmem
              have hlt := hsmall _ hmem
              have heq : (a + (2 ^ 32 - 1)) % 2 ^ 32 = a - 1 := by omega
              rw [heq] at hmem
              exact ⟨by omega, hmem⟩
  · -- the range starts before the ACK, where nothing is buffered
    constructor
    · rintro ⟨block, hblock, hin, -⟩
      obtain ⟨s, hs, rfl⟩ := mem_map.mp hblock
      exact absurd ((hcontains s hs).1.mp hin).1 hab
    · rintro ⟨hall, -⟩
      have := hsmall _ (hall 0 hpos)
      omega

/-- The range ends at or before the ACK, or all its bytes and one next to it are buffered. -/
def OptionStream.Surrounded (st : OptionStream) : Prop :=
  Serial.leq st.ix.rx.dsackBlock.right st.ix.rx.recvAck = true ∨
    (∀ i < (st.ix.rx.dsackBlock.right - st.ix.rx.dsackBlock.left).toNat,
      st.ix.holds (Serial.pos st.ix.rx.dsackBlock.left i) = true) ∧
    (st.ix.holds st.ix.rx.dsackBlock.right = true ∨
      st.ix.holds (st.ix.rx.dsackBlock.left - 1) = true)

instance (st : OptionStream) : Decidable st.Surrounded :=
  inferInstanceAs (Decidable (_ ∨ _))

/-- At most one block is around a short range behind the ACK. -/
theorem around_unique (hsep : Separated 0 spans) (hright : ∀ s ∈ spans, s.right ≤ 2 ^ 18)
    (hd : ShortRange d) (hafter : Serial.gt d.right recvAck = true) :
    ∀ b ∈ spans.map (toRange recvAck), ∀ c ∈ spans.map (toRange recvAck),
      blockContains b d = true → blockContains c d = true → b = c := by
  have hcontains := fun s hs => contains_iff (hsep.mem_bounds s hs).2 (hright s hs) hd hafter
  intro b hb c hc hbd hcd
  obtain ⟨s, hs, rfl⟩ := mem_map.mp hb
  obtain ⟨t, ht, rfl⟩ := mem_map.mp hc
  have hsd := (hcontains s hs).1.mp hbd
  have htd := (hcontains t ht).1.mp hcd
  by_contra hne
  have hapart := hsep.apart hs ht fun heq => hne (congrArg _ heq)
  omega

/-- The sender's rule on the report of a settled stream. -/
theorem firstIsDsack_iff_surrounded {st : OptionStream} {base : Seq} {others : Nat × Nat}
    {k capacity : Nat} (h : st.ix.Settled base others k)
    (hpending : st.ix.rx.dsackPending = true) (hshort : ShortRange st.ix.rx.dsackBlock)
    (hcapacity : 2 ≤ capacity) :
    sackFirstIsDsack st.ix.rx.recvAck (tcpOptionsCollectSacks st capacity).1 = true ↔
      st.Surrounded := by
  obtain ⟨spans, hnormalized, hsep, hright, hholds⟩ := settled_spans h
  rw [firstIsDsack_collect hpending hcapacity, OptionStream.Surrounded, hnormalized]
  · cases hbelow : Serial.leq st.ix.rx.dsackBlock.right st.ix.rx.recvAck with
    | true => simp
    | false =>
      have hafter : Serial.gt st.ix.rx.dsackBlock.right st.ix.rx.recvAck = true :=
        gt_of_leq_false hbelow
      rw [exists_around_iff hsep hright hshort hafter]
      simp only [hholds]
  · rw [hnormalized]
    exact around_unique hsep hright hshort

end Surrounded

section Sender

/-- What the sender reports about a duplicate is decided by its first-block rule. -/
theorem sackUpdate_dsack (tp : Scoreboard) (ack flightEnd : Seq) {d : SackBlock}
    {rest : List SackBlock} (hfew : rest.length < tcpSackMaxBlocks) :
    let result := (tcpSackUpdate tp ack (d :: rest) flightEnd).1
    result.dsackValid = true ∧ result.dsack = d ↔ sackFirstIsDsack ack (d :: rest) = true := by
  have hall : (d :: rest).take tcpSackMaxBlocks = d :: rest :=
    take_of_length_le (by rw [length_cons]; omega)
  have hexit : ∀ (tp : Scoreboard) (result : SackAckResult),
      (sackRecoveryExit tp result).1.dsackValid = result.dsackValid ∧
        (sackRecoveryExit tp result).1.dsack = result.dsack := by
    intro tp result
    rw [sackRecoveryExit]
    split_ifs
    · exact ⟨rfl, rfl⟩
    · exact ⟨rfl, rfl⟩
  have hresult : ∀ tp : Scoreboard,
      (sackDsackResult tp (sackFirstIsDsack ack (d :: rest)) (d :: rest)).dsackValid = true ∧
        (sackDsackResult tp (sackFirstIsDsack ack (d :: rest)) (d :: rest)).dsack = d ↔
      sackFirstIsDsack ack (d :: rest) = true := by
    intro tp
    cases sackFirstIsDsack ack (d :: rest) with
    | true | false => simp [sackDsackResult]
  rw [tcpSackUpdate, hall]
  dsimp only
  split_ifs
  · rw [(hexit _ _).1, (hexit _ _).2]
    exact hresult _
  · split
    · rw [(hexit _ _).1, (hexit _ _).2]
      exact hresult _
    · rw [(hexit _ _).1, (hexit _ _).2]
      exact hresult _

end Sender

section Runs

variable {st : OptionStream}

/-- A stream that has received nothing.  The owner that makes a call counts at least the nodes and
bytes of this stream. -/
def reportSystem : System OptionStream OptionEvent where
  init st := optionSystem.init st ∧ (OwnedStream.mk st.ix false).Unused
  enabled st e := optionSystem.enabled st e ∧
    match e with
    | .call _ owner _ =>
      st.ix.rx.ofoCount ≤ owner.segmentsCurrent ∧ st.ix.rx.ofoBytes ≤ owner.bytesCurrent
    | _ => True
  step := optionStep

instance (st : OptionStream) : (e : OptionEvent) → Decidable (reportSystem.enabled st e)
  | .call call owner _ => inferInstanceAs (Decidable (call.payload.length < 2 ^ 16 ∧
      st.ix.rx.ofoCount ≤ owner.segmentsCurrent ∧ st.ix.rx.ofoBytes ≤ owner.bytesCurrent))
  | .negotiate _ | .timestamp _ | .syn .. | .established .. =>
    inferInstanceAs (Decidable (True ∧ True))

/-- The event is not a FIN without payload strictly inside a node. -/
def FinApart (st : OptionStream) : OptionEvent → Prop
  | .call call _ _ => call.finInside st.ix = false
  | _ => True

instance (st : OptionStream) : (e : OptionEvent) → Decidable (FinApart st e)
  | .call call _ _ => inferInstanceAs (Decidable (call.finInside st.ix = false))
  | .negotiate _ | .timestamp _ | .syn .. | .established .. => inferInstanceAs (Decidable True)

/-- The queue and the receive accounting are as the calls on them leave them. -/
def OptionStream.Placed (st : OptionStream) : Prop :=
  ∃ base others k, st.ix.Settled base others k

theorem optionStep_placed (h : st.Placed) (e : OptionEvent) (henabled : reportSystem.enabled st e)
    (hfin : FinApart st e) : (optionStep st e).Placed := by
  obtain ⟨base, others, k, hsettled⟩ := h
  by_cases hheader : ∀ call owner tape, e ≠ .call call owner tape
  · obtain ⟨rx, ⟨permitted, pending, valid, count, rfl, -⟩, hix, -⟩ :=
      optionStep_header st e hheader
    refine ⟨base, others, k, ?_⟩
    rw [hix]
    exact hsettled.congr ⟨rfl, rfl, rfl, rfl, rfl, rfl, rfl⟩ rfl
  · push Not at hheader
    obtain ⟨call, owner, tape, rfl⟩ := hheader
    obtain ⟨hlen, hcount, hbytes⟩ := henabled
    have hunder := hsettled.under (owner.segmentsCurrent - st.ix.rx.ofoCount,
      owner.bytesCurrent - st.ix.rx.ofoBytes) tape
      (Prod.ext (Nat.sub_add_cancel hcount).symm (Nat.sub_add_cancel hbytes).symm)
    obtain ⟨k', hafter, -⟩ := hunder.apply call hlen hfin
    exact ⟨base, _, k', hafter⟩

theorem sound_and_placed_of_reach (h : reportSystem.Reach FinApart st) : st.Sound ∧ st.Placed := by
  apply h.invariant
  · rintro st ⟨hinit, hunused⟩
    exact ⟨sound_of_reach (.init hinit), ⟨_, _, _, hunused.settled⟩⟩
  · intro st e hinv henabled hfin
    exact ⟨optionStep_sound hinv.1 e henabled.1, optionStep_placed hinv.2 e henabled hfin⟩

/-- In every run in which no FIN without payload arrives strictly inside a node, the sender takes
the first block of a report for the pending duplicate range exactly if the range ends at or before
the ACK, or all its bytes and a byte next to it are buffered. -/
theorem dsack_recognised_iff (h : reportSystem.Reach FinApart st)
    (hpending : st.ix.rx.dsackPending = true) (f : Fragment) (hsent : reportedBlocks st f ≠ [])
    (tp : Scoreboard) (flightEnd : Seq) :
    let result := (tcpSackUpdate tp st.ix.rx.recvAck (reportedBlocks st f) flightEnd).1
    result.dsackValid = true ∧ result.dsack = st.ix.rx.dsackBlock ↔ st.Surrounded := by
  obtain ⟨hsound, base, others, k, hsettled⟩ := sound_and_placed_of_reach h
  have hshort : ShortRange st.ix.rx.dsackBlock := hsound.report.duplicate hpending
  have hblocks : reportedBlocks st f =
      (tcpOptionsCollectSacks st (if st.timestampsOk then 3 else 4)).1 := by
    rw [reportedBlocks] at hsent ⊢
    exact if_pos (by_contra fun hsilent => hsent (if_neg hsilent))
  rw [hblocks]
  generalize hcapacity : (if st.timestampsOk then 3 else 4) = capacity
  have hbounds : 2 ≤ capacity ∧ capacity ≤ tcpSackMaxBlocks := by
    rw [← hcapacity]
    split_ifs <;> decide
  obtain ⟨rest, hout, -⟩ := collectSacks_headed hpending hbounds.1
  have hfew : rest.length < tcpSackMaxBlocks := by
    have hreport : Report (fun _ => True) capacity (tcpOptionsCollectSacks st capacity).1 :=
      collectSacks_report st capacity (fun _ _ => trivial) fun _ => trivial
    have := hreport.few
    rw [hout, length_cons] at this
    omega
  rw [← firstIsDsack_iff_surrounded hsettled hpending hshort hbounds.1, hout]
  exact sackUpdate_dsack tp st.ix.rx.recvAck flightEnd hfew

/-- Three bytes behind a hole, and then some of them again. -/
def threeAndAgain (seq : Seq) (again : List UInt8) : List OptionEvent :=
  [.call (.segment .established 20 [4, 5, 6] false) {} [999, 999, 1, 1],
    .call (.segment .established seq again false) { segmentsCurrent := 1, bytesCurrent := 3 } []]

theorem threeAndAgain_reach {seq : Seq} {again : List UInt8}
    (h : reportSystem.Admissible FinApart negotiatedStream (threeAndAgain seq again)) :
    reportSystem.Reach FinApart (reportSystem.run negotiatedStream (threeAndAgain seq again)) := by
  have hinit : reportSystem.init negotiatedStream :=
    ⟨⟨rfl, rfl, rfl, by decide⟩, ⟨rfl, rfl, rfl, rfl, rfl, rfl, rfl, rfl, le_rfl, rfl⟩⟩
  exact System.Reach.run (.init hinit) h

/-- The middle byte is recognised as a duplicate. -/
theorem dsack_recognised_middle :
    let st := reportSystem.run negotiatedStream (threeAndAgain 21 [5])
    let result := (tcpSackUpdate { sndUna := 0 } st.ix.rx.recvAck
      (reportedBlocks st ⟨false, true, 0x50, 0, []⟩) 100).1
    st.ix.rx.recvAck = 0 ∧ st.ix.rx.dsackBlock = ⟨21, 22⟩ ∧
      result.dsackValid = true ∧ result.dsack = st.ix.rx.dsackBlock := by
  have hreach := @threeAndAgain_reach 21 [5] (by decide)
  exact ⟨by decide, by decide, (dsack_recognised_iff hreach (by decide) _ (by decide) _ _).mpr
    (by decide)⟩

/-- All three bytes are reported without a block around them, and the sender takes the report for
new data. -/
theorem dsack_of_whole_block_missed :
    ∃ st, reportSystem.Reach FinApart st ∧ st.ix.rx.dsackPending = true ∧
      st.ix.rx.recvAck = 0 ∧ st.ix.rx.dsackBlock = ⟨20, 23⟩ ∧
      reportedBlocks st ⟨false, true, 0x50, 0, []⟩ = [⟨20, 23⟩] ∧
      (tcpSackUpdate { sndUna := 0 } 0
        (reportedBlocks st ⟨false, true, 0x50, 0, []⟩) 100).1.dsackValid = false :=
  ⟨_, @threeAndAgain_reach 20 [4, 5, 6] (by decide), by decide⟩

end Runs

end SnowTG.Tcp.Options
