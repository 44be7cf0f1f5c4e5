import SnowTG.Lib.System
import SnowTG.Tcp.SackRanges

/-!
# Runs of the sender scoreboard

The scoreboard together with the stream positions it is about: the position of
`snd_una`, the end of the payload in flight, and the set of positions the
accepted selective acknowledgements cover.  Every call of `tcp_sack.c` that
touches a range list is an event of the system.
-/

namespace SnowTG.Tcp

open SnowTG.Lib SnowTG.Lib.Spans List
open SnowTG.Lib.Serial (pos lt_pos_add_iff toNat_pos_sub_pos)

/-- A scoreboard and what it stands for: `una` and `flight` are the positions of `snd_una` and of
the payload flight end, `accepted` the positions of the clipped blocks accepted since the last
clear that are not cumulatively acknowledged. -/
structure SackState where
  tp : Scoreboard
  una : Nat
  flight : Nat
  accepted : Finset Nat

/-- Calls into the scoreboard.  `update` and `trim` follow a cumulative acknowledgement that moved
`snd_una` to the position `ack`; `commit` sends `n` bytes of a candidate that starts at the
position `p`; `reset` follows the draining of the send buffer, whose next byte is at `p`. -/
inductive SackCall where
  | sent (n : Nat)
  | update (ack : Nat) (packetAck : Seq) (blocks : List SackBlock) (env : Tape)
  | trim (ack : Nat)
  | commit (kind : RecoveryTxKind) (nextsegRule : Nat) (rescue : Bool) (p n : Nat) (env : Tape)
  | onRto
  | enterRecovery (mode : RecoveryMode)
  | reset (p : Nat)

/-- `tcp_sack_update` looks at new blocks: the scoreboard is not degraded after the trim, SACK is
on, and payload is in flight. -/
def sackListens (tp : Scoreboard) (una flightEnd : Seq) : Bool :=
  !(tp.degraded && Serial.lt una tp.degradedUntil) && tp.sackPermitted && Serial.lt una flightEnd

/-- A block that starts at or behind the flight end and yet ends, by serial comparison, not behind
it: it wraps around half the sequence space, and the two cuts of `tcp_sack_update` keep it. -/
def SackBlock.Wraps (una flightEnd : Seq) (block : SackBlock) : Prop :=
  Serial.lt block.left una = false ∧ Serial.lt block.left flightEnd = false ∧
    seqGt block.right flightEnd = false ∧ Serial.lt block.left block.right = true

instance (una flightEnd : Seq) (block : SackBlock) : Decidable (block.Wraps una flightEnd) := by
  unfold SackBlock.Wraps
  infer_instance

/-- The positions of a list of ranges, counted by unsigned distance from `snd_una`. -/
def covered (una : Nat) (sndUna : Seq) : List SackRange → Finset Nat
  | [] => ∅
  | r :: rest =>
    Finset.Ico (una + (r.left - sndUna).toNat) (una + (r.right - sndUna).toNat) ∪
      covered una sndUna rest

/-- The positions a call of `tcp_sack_update` accepts. -/
def acceptedBy (base : Seq) (s : SackState) (ack : Nat) (packetAck : Seq)
    (blocks : List SackBlock) : Finset Nat :=
  if sackListens s.tp (Serial.pos base ack) (Serial.pos base s.flight) then
    covered ack (Serial.pos base ack)
      ((sackNewBlocks packetAck blocks).filterMap
        (sackClipBlock (Serial.pos base ack) (Serial.pos base s.flight)))
  else ∅

/-- Result of the `tcp_sack_update` an acknowledgement of position `ack` leads to. -/
def sackUpdateAt (base : Seq) (s : SackState) (ack : Nat) (packetAck : Seq)
    (blocks : List SackBlock) (env : Tape) : SackAckResult × Scoreboard :=
  tcpSackUpdate { s.tp with sndUna := Serial.pos base ack, env := env } packetAck blocks
    (Serial.pos base s.flight)

/-- A degraded scoreboard has forgotten what it accepted. -/
def SackState.forget (s : SackState) : SackState :=
  if s.tp.degraded then { s with accepted := ∅ } else s

/-- One call. -/
def sackStep (base : Seq) (s : SackState) : SackCall → SackState
  | .sent n => { s with flight := s.flight + n }
  | .update ack packetAck blocks env =>
    SackState.forget
      { tp := (sackUpdateAt base s ack packetAck blocks env).2
        una := ack
        flight := s.flight
        accepted := s.accepted.filter (ack ≤ ·) ∪ acceptedBy base s ack packetAck blocks }
  | .trim ack =>
    { s with
      tp := tcpSackTrim { s.tp with sndUna := Serial.pos base ack } (Serial.pos base s.flight)
      una := ack
      accepted := s.accepted.filter (ack ≤ ·) }
  | .commit kind nextsegRule rescue p n env =>
    SackState.forget
      { s with
        tp := tcpSackCommitCandidate
          { s.tp with
            env := env
            pending := some ⟨kind, nextsegRule, rescue, Serial.pos base p,
              Serial.pos base (p + n)⟩ }
          (Serial.pos base (p + n)) }
  | .onRto => { s with tp := tcpSackOnRto s.tp (Serial.pos base s.flight), accepted := ∅ }
  | .enterRecovery mode =>
    { s with tp := tcpSackEnterRecovery s.tp mode (Serial.pos base s.flight) }
  | .reset p =>
    { tp := tcpSackStateReset { s.tp with sndUna := Serial.pos base p } (Serial.pos base p)
      una := p
      flight := p
      accepted := ∅ }

/-- When a call can happen: less than half the sequence space is in flight, an acknowledgement
covers at most the payload in flight and a FIN behind it, and what is sent again was in flight. -/
def SackCall.Possible (s : SackState) : SackCall → Prop
  | .sent n => s.una ≤ s.flight ∧ s.flight + n < s.una + 2 ^ 31
  | .update ack _ _ _ => s.una ≤ ack ∧ ack ≤ s.flight + 1
  | .trim ack => s.una ≤ ack ∧ ack ≤ s.flight + 1
  | .commit _ _ _ p n _ => s.una ≤ p ∧ p + n ≤ s.flight
  | .onRto => True
  | .enterRecovery _ => True
  | .reset _ => True

/-- The scoreboard of a connection whose first byte is at sequence number `base`. -/
def sackSystem (base : Seq) : System SackState SackCall where
  init s := ∃ tp : Scoreboard, s = ⟨tcpSackStateInit { tp with sndUna := base } base, 0, 0, ∅⟩
  enabled := SackCall.Possible
  step := sackStep base

variable {blocks : List SackBlock}

section Invariant

variable {base : Seq} {tp : Scoreboard} {lo flight ack p n : Nat} {sp rt : List Span}
  {block : SackBlock} {a b : Nat}

/-- The range lists hold the spans `sp` and `rt` of positions from `lo` to `flight`, and the node
count is theirs. -/
structure Scoreboard.Holds (base : Seq) (tp : Scoreboard) (lo flight : Nat)
    (sp rt : List Span) : Prop where
  sacked : tp.sacked = sp.map (toRange base)
  retransmitted : tp.retransmitted = rt.map (toRange base)
  sackedApart : Separated lo sp
  retransmittedApart : Separated lo rt
  sackedInside : ∀ s ∈ sp, s.right ≤ flight
  retransmittedInside : ∀ s ∈ rt, s.right ≤ flight
  count : tp.rangeCount = sp.length + rt.length
  limit : tp.rangeCount ≤ tcpSackScoreMaxRanges
  degraded : tp.degraded = true → sp = []

/-- Only the lists, the node count and the degraded flag matter. -/
theorem Scoreboard.Holds.congr {tp' : Scoreboard} (h : tp.Holds base lo flight sp rt)
    (hsacked : tp'.sacked = tp.sacked) (hretransmitted : tp'.retransmitted = tp.retransmitted)
    (hcount : tp'.rangeCount = tp.rangeCount) (hdegraded : tp'.degraded = tp.degraded) :
    tp'.Holds base lo flight sp rt where
  sacked := hsacked.trans h.sacked
  retransmitted := hretransmitted.trans h.retransmitted
  sackedApart := h.sackedApart
  retransmittedApart := h.retransmittedApart
  sackedInside := h.sackedInside
  retransmittedInside := h.retransmittedInside
  count := hcount.trans h.count
  limit := hcount ▸ h.limit
  degraded hd := h.degraded (hdegraded ▸ hd)

theorem spansNear_of_inside (h : Separated lo sp) (hin : ∀ s ∈ sp, s.right ≤ flight)
    (hflight : flight < lo + 2 ^ 31) : SpansNear lo sp := by
  intro s hs
  have hbounds := h.mem_bounds s hs
  have hright := hin s hs
  exact ⟨⟨hbounds.1, by omega⟩, ⟨by omega, by omega⟩⟩

section

variable (h : tp.Holds base lo flight sp rt)
include h

/-- `sack_degrade` empties both lists. -/
theorem sackDegrade_holds : (sackDegrade tp).Holds base lo flight [] [] := by
  refine ⟨rfl, rfl, trivial, trivial, by simp, by simp, ?_, ?_, fun _ => rfl⟩
  · simp [sackDegrade, h.count, h.sacked, h.retransmitted]
  · exact (Nat.sub_le _ _).trans ((Nat.sub_le _ _).trans h.limit)

theorem candidateSet_holds (kind : RecoveryTxKind) (rule : Nat) (rescue : Bool) (seq stop : Seq) :
    (candidateSet tp kind rule rescue seq stop).2.Holds base lo flight sp rt := by
  simp only [candidateSet]
  split_ifs
  · exact h
  · exact h.congr rfl rfl rfl rfl
  · exact h.congr rfl rfl rfl rfl

theorem tcpSackEnterRecovery_holds (mode : RecoveryMode) (flightEnd : Seq) :
    (tcpSackEnterRecovery tp mode flightEnd).Holds base lo flight sp rt := by
  rw [tcpSackEnterRecovery]
  apply candidateSet_holds
  exact h.congr rfl rfl rfl rfl

theorem tcpSackOnRto_holds (flightEnd : Seq) :
    (tcpSackOnRto tp flightEnd).Holds base lo flight [] rt := by
  rw [tcpSackOnRto]
  apply tcpSackEnterRecovery_holds
  refine ⟨rfl, h.retransmitted, trivial, h.retransmittedApart, by simp, h.retransmittedInside, ?_,
    ?_, fun _ => rfl⟩
  · simp [h.count, h.sacked]
  · exact (Nat.sub_le _ _).trans h.limit

theorem sackRecoveryExit_holds (result : SackAckResult) :
    (sackRecoveryExit tp result).2.Holds base lo flight sp rt := by
  rw [sackRecoveryExit]
  split_ifs
  · exact h.congr rfl rfl rfl rfl
  · exact h

end

theorem lt_una_flight (base : Seq) (hlo : lo ≤ ack) (hack : ack ≤ flight + 1) (hflight : flight < lo + 2 ^ 31) :
    Serial.lt (pos base ack) (pos base flight) = decide (ack < flight) :=
  Bool.eq_iff_iff.mpr
    (by rw [Serial.lt_pos_iff base (by omega) (by omega), decide_eq_true_iff])

/-- `tcp_sack_trim` drops exactly the positions outside the flight. -/
theorem tcpSackTrim_holds (h : tp.Holds base lo flight sp rt)
    (huna : tp.sndUna = pos base ack) (hlo : lo ≤ ack) (hack : ack ≤ flight + 1)
    (hflight : flight < lo + 2 ^ 31) :
    ∃ sp' rt', (tcpSackTrim tp (pos base flight)).Holds base ack flight sp' rt' ∧
      points sp' = points sp ∩ Finset.Ico ack flight := by
  have hcmp := lt_una_flight base hlo hack hflight
  have hcount := h.count
  by_cases hlt : ack < flight
  · have hnear : Near lo ack ∧ Near lo flight := ⟨⟨hlo, by omega⟩, ⟨by omega, by omega⟩⟩
    have hsp := rangeListTrim_map base (spansNear_of_inside h.sackedApart h.sackedInside hflight) hnear.1 hnear.2
    have hrt := rangeListTrim_map base (spansNear_of_inside h.retransmittedApart h.retransmittedInside hflight) hnear.1 hnear.2
    have hsplen : (clip ack flight sp).length ≤ sp.length := length_filterMap_le _ _
    have hrtlen : (clip ack flight rt).length ≤ rt.length := length_filterMap_le _ _
    refine ⟨clip ack flight sp, clip ack flight rt, ⟨?_, ?_, ?_, ?_, ?_, ?_, ?_, ?_, ?_⟩,
      points_clip⟩
    · simp [tcpSackTrim, huna, hcmp, hlt, h.sacked, hsp]
    · simp [tcpSackTrim, huna, hcmp, hlt, h.retransmitted, hrt]
    · exact (h.sackedApart.clip hlt).mono (le_max_right _ _)
    · exact (h.retransmittedApart.clip hlt).mono (le_max_right _ _)
    · exact fun s hs => (clip_right_le hs).2
    · exact fun s hs => (clip_right_le hs).2
    · simp only [tcpSackTrim, huna, hcmp, hlt, h.sacked, h.retransmitted, hsp, hrt, decide_true,
        Bool.not_true, Bool.false_eq_true, if_false, length_map]
      omega
    · exact (Nat.sub_le _ _).trans h.limit
    · intro hdegraded
      rw [h.degraded (Bool.and_eq_true_iff.mp hdegraded).1]
      rfl
  · refine ⟨[], [], ⟨?_, ?_, trivial, trivial, by simp, by simp, ?_, ?_, fun _ => rfl⟩, ?_⟩
    · simp [tcpSackTrim, huna, hcmp, hlt]
    · simp [tcpSackTrim, huna, hcmp, hlt]
    · simp [tcpSackTrim, huna, hcmp, hlt, h.sacked, h.retransmitted, hcount]
    · exact (Nat.sub_le _ _).trans h.limit
    · rw [Finset.Ico_eq_empty hlt, Finset.inter_empty]
      rfl

/-- A block that does not wrap is cut to a span of the flight. -/
theorem sackClipBlock_span {r : SackBlock} (hlt : ack < flight) (hflight : flight < ack + 2 ^ 31)
    (hwraps : ¬ block.Wraps (pos base ack) (pos base flight))
    (hclip : sackClipBlock (pos base ack) (pos base flight) block = some r) :
    ∃ a b, r = toRange base ⟨a, b⟩ ∧ ack ≤ a ∧ a < b ∧ b ≤ flight := by
  -- unsigned distances from `snd_una` turn every serial comparison into arithmetic
  obtain ⟨left, right⟩ := block
  obtain ⟨x, hx, rfl⟩ := Serial.exists_eq_pos_add base left ack
  obtain ⟨y, hy, rfl⟩ := Serial.exists_eq_pos_add base right ack
  obtain ⟨f, rfl⟩ := Nat.exists_eq_add_of_le hlt.le
  have hf : f < 2 ^ 32 := by omega
  have hxu := lt_pos_add_iff base ack hx (Nat.two_pow_pos 32)
  have hxf := lt_pos_add_iff base ack hx hf
  have hfy := lt_pos_add_iff base ack hf hy
  have hxy := lt_pos_add_iff base ack hx hy
  have huy := lt_pos_add_iff base ack (Nat.two_pow_pos 32) hy
  rw [add_zero] at hxu huy
  simp only [SackBlock.Wraps, seqGt, Bool.eq_false_iff, ne_eq, hxu, hxf, hfy, hxy] at hwraps
  rw [sackClipBlock] at hclip
  simp only [seqGt, hxu, hfy] at hclip
  split_ifs at hclip with hl hr hcmp hcmp hr hcmp hcmp
  · refine ⟨ack, ack + f, (Option.some.inj hclip).symm, le_rfl, hlt, le_rfl⟩
  · rw [huy] at hcmp
    exact ⟨ack, ack + y, (Option.some.inj hclip).symm, le_rfl, by omega, by omega⟩
  · rw [hxf] at hcmp
    exact ⟨ack + x, ack + f, (Option.some.inj hclip).symm, by omega, by omega, le_rfl⟩
  · rw [hxy] at hcmp
    exact ⟨ack + x, ack + y, (Option.some.inj hclip).symm, by omega, by omega, by omega⟩

theorem covered_append (una : Nat) (sndUna : Seq) (l r : List SackRange) :
    covered una sndUna (l ++ r) = covered una sndUna l ∪ covered una sndUna r := by
  induction l with
  | nil => simp [covered]
  | cons x rest ih => simp only [cons_append, covered, ih, Finset.union_assoc]

/-- The number of bytes an insertion inside the flight adds is not the failure value. -/
theorem ofNat_added_ne_failed (hab : a < b) (hb : b < a + 2 ^ 31) :
    BitVec.ofNat 32 (added a b sp) ≠ rangeInsertFailed := by
  intro heq
  have hle : added a b sp ≤ b - a := Nat.sub_le _ _
  have htoNat := congrArg BitVec.toNat heq
  rw [BitVec.toNat_ofNat, Nat.mod_eq_of_lt (by omega)] at htoNat
  rw [htoNat] at hle
  have hval : rangeInsertFailed.toNat = 2 ^ 32 - 1 := by decide
  omega

theorem insert_inside (h : Separated lo sp) (hin : ∀ s ∈ sp, s.right ≤ flight) (hlo : lo ≤ a)
    (hab : a < b) (hb : b ≤ flight) : ∀ s ∈ Spans.insert a b sp, s.right ≤ flight := by
  intro s hs
  have hbounds := (h.insert hlo hab).mem_bounds s hs
  have hlast : s.right - 1 ∈ points (Spans.insert a b sp) :=
    mem_points.mpr ⟨s, hs, by omega, by omega⟩
  rw [points_insert h hab.le, Finset.mem_union, Finset.mem_Ico] at hlast
  rcases hlast with hlast | hlast
  · obtain ⟨t, ht, -, hlt'⟩ := mem_points.mp hlast
    have := hin t ht
    omega
  · omega

/-- Distances of positions of the flight from `snd_una`. -/
theorem dist_una {x : Nat} (hx : ack ≤ x) (hxf : x < ack + 2 ^ 32) :
    ack + (pos base x - pos base ack).toNat = x := by
  rw [toNat_pos_sub_pos base hx hxf]
  omega

/-- An allocation fails and the scoreboard is degraded, or the blocks are added and their growth
counted. -/
abbrev BlocksAdded (base : Seq) (ack flight : Nat) (sp rt : List Span) (newly : BitVec 32)
    (blocks : List SackRange) (result : Option (BitVec 32) × Scoreboard) : Prop :=
  (∃ tp', result = (none, tp') ∧
      tp'.Holds base ack flight [] [] ∧ tp'.sndUna = pos base ack ∧ tp'.degraded = true) ∨
    ∃ tp' sp' m, result = (some (newly + BitVec.ofNat 32 m), tp') ∧
      tp'.Holds base ack flight sp' rt ∧ tp'.sndUna = pos base ack ∧ tp'.degraded = false ∧
      points sp' = points sp ∪ covered ack (pos base ack) blocks ∧
      (points sp').card = (points sp).card + m

section

variable (hlt : ack < flight) (hflight : flight < ack + 2 ^ 31) (newly : BitVec 32)
  (h : tp.Holds base ack flight sp rt) (huna : tp.sndUna = pos base ack)
  (hdegraded : tp.degraded = false)
include hlt hflight h huna hdegraded

/-- One round of the block loop. -/
theorem sackInsertBlock_holds (hwraps : ¬ block.Wraps (pos base ack) (pos base flight)) :
    BlocksAdded base ack flight sp rt newly
      (sackClipBlock (pos base ack) (pos base flight) block).toList
      (sackInsertBlock (pos base flight) block tp newly) := by
  rw [sackInsertBlock, huna]
  cases hclip : sackClipBlock (pos base ack) (pos base flight) block with
  | none => exact .inr ⟨tp, sp, 0, by simp, h, huna, hdegraded, by simp [covered], rfl⟩
  | some r =>
    obtain ⟨a, b, rfl, ha, hab, hb⟩ := sackClipBlock_span hlt hflight hwraps hclip
    have hcount : sp.length ≤ tp.rangeCount := h.count ▸ Nat.le_add_right _ _
    have hnear := spansNear_of_inside h.sackedApart h.sackedInside hflight
    rcases rangeInsert_cases base tp h.sackedApart hnear ⟨ha, by omega⟩ ⟨by omega, by omega⟩ hab
      hcount h.limit with ⟨env, hfail⟩ | ⟨env, count, hdone, hnodes, hlimit⟩
    · rw [← h.sacked] at hfail
      simp only [toRange_left, toRange_right, hfail, if_true]
      have hholds : Scoreboard.Holds base { tp with env := env } ack flight sp rt :=
        h.congr rfl rfl rfl rfl
      exact .inl ⟨_, rfl, sackDegrade_holds hholds, huna, rfl⟩
    · rw [← h.sacked] at hdone
      simp only [toRange_left, toRange_right, hdone, if_neg (ofNat_added_ne_failed hab (by omega))]
      refine .inr ⟨_, Spans.insert a b sp, added a b sp, rfl, ⟨rfl, h.retransmitted,
        h.sackedApart.insert ha hab, h.retransmittedApart,
        insert_inside h.sackedApart h.sackedInside ha hab hb, h.retransmittedInside, ?_, hlimit,
        fun hd => absurd hd (by simp [hdegraded])⟩, huna, hdegraded, ?_,
        card_points_insert h.sackedApart hab.le⟩
      · have := h.count
        simp only
        omega
      · rw [points_insert h.sackedApart hab.le, Option.toList_some, covered, covered,
          Finset.union_empty, toRange_left, toRange_right, dist_una ha (by omega),
          dist_una (ha.trans hab.le) (by omega)]

/-- The block loop of `tcp_sack_update`. -/
theorem sackInsertBlocks_holds
    (hwraps : ∀ block ∈ blocks, ¬ block.Wraps (pos base ack) (pos base flight)) :
    BlocksAdded base ack flight sp rt newly
      (blocks.filterMap (sackClipBlock (pos base ack) (pos base flight)))
      (sackInsertBlocks (pos base flight) blocks tp newly) := by
  induction blocks generalizing tp sp newly with
  | nil => exact .inr ⟨tp, sp, 0, by simp [sackInsertBlocks], h, huna, hdegraded, by simp [covered], rfl⟩
  | cons block rest ih =>
    rcases sackInsertBlock_holds hlt hflight newly h huna hdegraded (hwraps block (by simp)) with
      ⟨tp', heq, hholds, hfail⟩ | ⟨tp', sp', m, heq, hholds, huna', hd, hpoints, hcard⟩
    · exact .inl ⟨tp', tryEach_cons_none rest heq, hholds, hfail⟩
    · rw [sackInsertBlocks, tryEach_cons_some rest heq, ← sackInsertBlocks]
      rcases ih _ hholds huna' hd (fun b hb => hwraps b (by simp [hb])) with
        hfail | ⟨tp'', sp'', m', heq', hholds', huna'', hd', hpoints', hcard'⟩
      · exact .inl hfail
      · refine .inr ⟨tp'', sp'', m + m', ?_, hholds', huna'', hd', ?_, by omega⟩
        · rw [heq', BitVec.ofNat_add, BitVec.add_assoc]
        · rw [hpoints', hpoints, Finset.union_assoc, ← covered_append]
          congr 2
          cases hclip : sackClipBlock (pos base ack) (pos base flight) block <;>
            simp [hclip]

end

theorem tcpSackNoteNewData_holds (h : tp.Holds base lo flight sp rt) (endSeq : Seq) :
    (tcpSackNoteNewData tp endSeq).Holds base lo flight sp rt ∧
      (tcpSackNoteNewData tp endSeq).degraded = tp.degraded := by
  rw [tcpSackNoteNewData]
  split_ifs
  · exact ⟨h.congr rfl rfl rfl rfl, rfl⟩
  · exact ⟨h, rfl⟩

/-- `tcp_sack_commit_candidate` of a candidate inside the flight adds it to the retransmitted
list, or degrades the scoreboard. -/
theorem tcpSackCommitCandidate_holds (hflight : flight < lo + 2 ^ 31)
    (h : tp.Holds base lo flight sp rt) {candidate : RecoveryCandidate}
    (hpending : tp.pending = some candidate) (hseq : candidate.seq = pos base p)
    (hp : lo ≤ p) (hn : p + n ≤ flight) :
    ((tcpSackCommitCandidate tp (pos base (p + n))).Holds base lo flight [] [] ∧
        (tcpSackCommitCandidate tp (pos base (p + n))).degraded = true) ∨
      ∃ rt', (tcpSackCommitCandidate tp (pos base (p + n))).Holds base lo flight sp rt' ∧
        (tcpSackCommitCandidate tp (pos base (p + n))).degraded = tp.degraded := by
  have hnear : Near lo p ∧ Near lo (p + n) := ⟨⟨hp, by omega⟩, ⟨by omega, by omega⟩⟩
  simp only [tcpSackCommitCandidate, hpending, hseq, lt_pos base hnear.1 hnear.2]
  by_cases hempty : p < p + n
  · simp only [hempty, decide_true, Bool.not_true, Bool.false_eq_true, if_false]
    cases candidate.kind with
    | newData =>
      obtain ⟨hholds, hdegraded⟩ := tcpSackNoteNewData_holds h (pos base (p + n))
      exact .inr ⟨rt, hholds.congr rfl rfl rfl rfl, hdegraded⟩
    | retransmit =>
      have hcount : rt.length ≤ tp.rangeCount := h.count ▸ Nat.le_add_left _ _
      have hspans := spansNear_of_inside h.retransmittedApart h.retransmittedInside hflight
      rcases rangeInsert_cases base tp h.retransmittedApart hspans hnear.1 hnear.2 hempty hcount
        h.limit with ⟨env, hfail⟩ | ⟨env, count, hdone, hnodes, hlimit⟩
      · rw [← h.retransmitted] at hfail
        simp only [hfail, if_true]
        have hholds : Scoreboard.Holds base { tp with env := env } lo flight sp rt :=
          h.congr rfl rfl rfl rfl
        exact .inl ⟨sackDegrade_holds hholds, rfl⟩
      · rw [← h.retransmitted] at hdone
        simp only [hdone, if_neg (ofNat_added_ne_failed hempty (by omega))]
        have hholds : Scoreboard.Holds base
            { tp with
              env := env
              rangeCount := count
              retransmitted := (Spans.insert p (p + n) rt).map (toRange base) }
            lo flight sp (Spans.insert p (p + n) rt) := by
          refine ⟨h.sacked, rfl, h.sackedApart, h.retransmittedApart.insert hp hempty,
            h.sackedInside, insert_inside h.retransmittedApart h.retransmittedInside hp hempty hn,
            ?_, hlimit, h.degraded⟩
          have := h.count
          simp only
          omega
        refine .inr ⟨Spans.insert p (p + n) rt, ?_, ?_⟩
        · split_ifs <;> exact hholds.congr rfl rfl rfl rfl
        · split_ifs <;> rfl
  · simp only [hempty, decide_false, Bool.not_false, if_true]
    exact .inr ⟨rt, h, trivial⟩

theorem sackListens_eq (tp : Scoreboard) (flightEnd : Seq) :
    sackListens tp tp.sndUna flightEnd =
      !((tcpSackTrim tp flightEnd).degraded || !(tcpSackTrim tp flightEnd).sackPermitted ||
        !Serial.lt (tcpSackTrim tp flightEnd).sndUna flightEnd) := by
  simp [sackListens, tcpSackTrim]

@[simp] theorem sackDsackResult_newly (tp : Scoreboard) (firstIsDsack : Bool)
    (blocks : List SackBlock) : (sackDsackResult tp firstIsDsack blocks).newlySackedBytes = 0 := by
  unfold sackDsackResult
  split <;> rfl

@[simp] theorem sackRecoveryExit_same (tp : Scoreboard) (result : SackAckResult) :
    (sackRecoveryExit tp result).1.newlySackedBytes = result.newlySackedBytes ∧
      (sackRecoveryExit tp result).2.sndUna = tp.sndUna ∧
      (sackRecoveryExit tp result).2.degraded = tp.degraded := by
  rw [sackRecoveryExit]
  split_ifs <;> exact ⟨rfl, rfl, rfl⟩

@[simp] theorem tcpSackTrim_sndUna (tp : Scoreboard) (flightEnd : Seq) :
    (tcpSackTrim tp flightEnd).sndUna = tp.sndUna := rfl

/-- `tcp_sack_update`: the lists hold spans of the flight again; unless the scoreboard is degraded
the sacked positions are those left by the trim and those of the new blocks, and the result counts
the growth. -/
theorem tcpSackUpdate_holds (h : tp.Holds base lo flight sp rt)
    (huna : tp.sndUna = pos base ack) (hlo : lo ≤ ack) (hack : ack ≤ flight + 1)
    (hflight : flight < lo + 2 ^ 31) (packetAck : Seq) (blocks : List SackBlock)
    (hwraps : sackListens tp (pos base ack) (pos base flight) = true →
      ∀ block ∈ sackNewBlocks packetAck blocks, ¬ block.Wraps (pos base ack) (pos base flight)) :
    ∃ sp' rt' m, (tcpSackUpdate tp packetAck blocks (pos base flight)).2.Holds base ack
        flight sp' rt' ∧
      (tcpSackUpdate tp packetAck blocks (pos base flight)).2.sndUna = pos base ack ∧
      (tcpSackUpdate tp packetAck blocks (pos base flight)).1.newlySackedBytes =
        BitVec.ofNat 32 m ∧
      ((tcpSackUpdate tp packetAck blocks (pos base flight)).2.degraded = true ∧ m = 0 ∨
        points sp' = points sp ∩ Finset.Ico ack flight ∪
          (if sackListens tp (pos base ack) (pos base flight) then covered ack (pos base ack)
              ((sackNewBlocks packetAck blocks).filterMap
                (sackClipBlock (pos base ack) (pos base flight)))
          else ∅) ∧
        (points sp').card = (points sp ∩ Finset.Ico ack flight).card + m) := by
  obtain ⟨sp1, rt1, hholds, hpoints⟩ := tcpSackTrim_holds h huna hlo hack hflight
  have hlistens := sackListens_eq tp (pos base flight)
  rw [huna] at hlistens
  rw [← hpoints]
  simp only [tcpSackUpdate]
  by_cases hl : sackListens tp (pos base ack) (pos base flight) = true
  · rw [hl, eq_comm, Bool.not_eq_true'] at hlistens
    have hdegraded : (tcpSackTrim tp (pos base flight)).degraded = false :=
      (Bool.or_eq_false_iff.mp (Bool.or_eq_false_iff.mp hlistens).1).1
    have hlt : ack < flight := by
      have hcmp := (Bool.and_eq_true_iff.mp hl).2
      rwa [lt_una_flight base hlo hack hflight, decide_eq_true_iff] at hcmp
    simp only [hlistens, Bool.false_eq_true, if_false, if_pos hl]
    rcases sackInsertBlocks_holds hlt (by omega) 0 hholds huna hdegraded (hwraps hl) with
      ⟨tp', heq, hholds', huna', hd⟩ | ⟨tp', sp', m, heq, hholds', huna', -, hpoints', hcard⟩
    · rw [heq]
      exact ⟨[], [], 0, sackRecoveryExit_holds hholds' _, by simpa using huna', by simp,
        .inl ⟨by simpa using hd, rfl⟩⟩
    · rw [heq]
      exact ⟨sp', rt1, m, sackRecoveryExit_holds hholds' _, by simpa using huna', by simp,
        .inr ⟨hpoints', hcard⟩⟩
  · rw [Bool.eq_false_iff.mpr hl, eq_comm, Bool.not_eq_false'] at hlistens
    simp only [hlistens, if_true, if_neg hl, Finset.union_empty]
    exact ⟨sp1, rt1, 0, sackRecoveryExit_holds hholds _, by simpa using huna, by simp,
      .inr ⟨rfl, rfl⟩⟩

theorem rangeInsert_frame (tp : Scoreboard) (ranges : List SackRange) (left right : Seq) :
    ∃ env count, (rangeInsert tp ranges left right).2.2 =
      { tp with env := env, rangeCount := count } := by
  simp only [rangeInsert, rangeAlloc]
  split_ifs
  · exact ⟨_, _, rfl⟩
  · exact ⟨_, _, rfl⟩
  · exact ⟨_, _, rfl⟩
  · exact ⟨tp.env, _, rfl⟩

theorem tcpSackCommitCandidate_same (tp : Scoreboard) (sentEnd : Seq) :
    (tcpSackCommitCandidate tp sentEnd).sndUna = tp.sndUna ∧
      (tcpSackCommitCandidate tp sentEnd).sndMss = tp.sndMss := by
  unfold tcpSackCommitCandidate
  cases tp.pending with
  | none => exact ⟨rfl, rfl⟩
  | some candidate =>
    obtain ⟨env, count, hframe⟩ := rangeInsert_frame tp tp.retransmitted candidate.seq sentEnd
    cases hkind : candidate.kind <;>
      simp only [hkind, hframe, tcpSackNoteNewData, sackCommitted, sackDegrade] <;> split_ifs <;>
        exact ⟨rfl, rfl⟩

theorem tcpSackEnterRecovery_sndUna (tp : Scoreboard) (mode : RecoveryMode) (flightEnd : Seq) :
    (tcpSackEnterRecovery tp mode flightEnd).sndUna = tp.sndUna := by
  simp only [tcpSackEnterRecovery, candidateSet]
  split_ifs <;> rfl

end Invariant

/-- A range list as the scoreboard keeps it: sorted in serial order with gaps, made of non-empty
ranges that lie within `size` bytes from `snd_una`. -/
structure RangesOk (sndUna : Seq) (size : Nat) (ranges : List SackRange) : Prop where
  sorted : ranges.Pairwise fun r t => Serial.lt r.right t.left = true
  inside : ∀ r ∈ ranges, (r.left - sndUna).toNat < (r.right - sndUna).toNat ∧
    (r.right - sndUna).toNat ≤ size

/-- What the scoreboard promises in every state. -/
structure SackState.Represents (base : Seq) (s : SackState) : Prop where
  una : s.tp.sndUna = Serial.pos base s.una
  sacked : RangesOk s.tp.sndUna (s.flight - s.una) s.tp.sacked
  retransmitted : RangesOk s.tp.sndUna (s.flight - s.una) s.tp.retransmitted
  count : s.tp.rangeCount = s.tp.sacked.length + s.tp.retransmitted.length
  limit : s.tp.rangeCount ≤ tcpSackScoreMaxRanges
  cover : covered s.una s.tp.sndUna s.tp.sacked = s.accepted

/-- The new blocks an update listens to do not wrap. -/
def SackCall.Unwrapped (base : Seq) (s : SackState) : SackCall → Prop
  | .update ack packetAck blocks _ =>
    sackListens s.tp (Serial.pos base ack) (Serial.pos base s.flight) = true →
      ∀ block ∈ sackNewBlocks packetAck blocks,
        ¬ block.Wraps (Serial.pos base ack) (Serial.pos base s.flight)
  | _ => True

/-- The inductive invariant: both lists hold spans of the flight, and the sacked spans are the
accepted positions. -/
def SackState.Inv (base : Seq) (s : SackState) : Prop :=
  ∃ sp rt, s.tp.sndUna = Serial.pos base s.una ∧ s.una ≤ s.flight + 1 ∧
    s.flight < s.una + 2 ^ 31 ∧ s.tp.Holds base s.una s.flight sp rt ∧ points sp = s.accepted

section Runs

variable {base : Seq} {s : SackState} {sp : List Span} {ack flight una : Nat}

theorem filter_eq_inter (hin : ∀ r ∈ sp, r.right ≤ flight) :
    (points sp).filter (ack ≤ ·) = points sp ∩ Finset.Ico ack flight := by
  ext x
  simp only [Finset.mem_filter, Finset.mem_inter, Finset.mem_Ico]
  constructor
  · rintro ⟨hx, hack⟩
    obtain ⟨r, hr, -, hlt⟩ := mem_points.mp hx
    exact ⟨hx, hack, hlt.trans_le (hin r hr)⟩
  · rintro ⟨hx, hack, -⟩
    exact ⟨hx, hack⟩

theorem SackState.Inv.forget {rt : List Span} (huna : s.tp.sndUna = pos base s.una)
    (hfin : s.una ≤ s.flight + 1) (hflight : s.flight < s.una + 2 ^ 31)
    (h : s.tp.Holds base s.una s.flight sp rt)
    (hpoints : s.tp.degraded = false → points sp = s.accepted) : s.forget.Inv base := by
  rw [SackState.forget]
  split_ifs with hd
  · exact ⟨sp, rt, huna, hfin, hflight, h, by rw [h.degraded hd]; rfl⟩
  · exact ⟨sp, rt, huna, hfin, hflight, h, hpoints (Bool.eq_false_iff.mpr hd)⟩

/-- What one update does to a state that satisfies the invariant. -/
theorem sackUpdateAt_spec (h : s.Inv base) (packetAck : Seq) (blocks : List SackBlock) (env : Tape)
    (hpos : (SackCall.update ack packetAck blocks env).Possible s)
    (hok : (SackCall.update ack packetAck blocks env).Unwrapped base s) :
    ∃ sp rt m, (sackUpdateAt base s ack packetAck blocks env).2.Holds base ack s.flight sp rt ∧
      (sackUpdateAt base s ack packetAck blocks env).2.sndUna = pos base ack ∧
      (sackUpdateAt base s ack packetAck blocks env).1.newlySackedBytes = BitVec.ofNat 32 m ∧
      ((sackUpdateAt base s ack packetAck blocks env).2.degraded = true ∧ m = 0 ∨
        points sp = s.accepted.filter (ack ≤ ·) ∪ acceptedBy base s ack packetAck blocks ∧
        (points sp).card = (s.accepted.filter (ack ≤ ·)).card + m) := by
  obtain ⟨sp, rt, huna, hfin, hflight, hholds, hpoints⟩ := h
  have hset : Scoreboard.Holds base { s.tp with sndUna := pos base ack, env := env } s.una
      s.flight sp rt := hholds.congr rfl rfl rfl rfl
  rw [← hpoints, filter_eq_inter hholds.sackedInside]
  exact tcpSackUpdate_holds hset rfl hpos.1 hpos.2 hflight packetAck blocks hok

/-- Every event keeps the scoreboard that of the flight. -/
theorem sackStep_inv (call : SackCall) (h : s.Inv base) (hpos : call.Possible s)
    (hok : call.Unwrapped base s) : (sackStep base s call).Inv base := by
  have hinv := h
  obtain ⟨sp, rt, huna, hfin, hflight, hholds, hpoints⟩ := h
  cases call with
  | sent n =>
    refine ⟨sp, rt, huna, by have := hpos.1; simp only [sackStep]; omega, hpos.2, ?_, hpoints⟩
    exact { hholds with
      sackedInside := fun r hr => (hholds.sackedInside r hr).trans (Nat.le_add_right _ n)
      retransmittedInside := fun r hr =>
        (hholds.retransmittedInside r hr).trans (Nat.le_add_right _ n) }
  | update ack packetAck blocks env =>
    obtain ⟨sp', rt', m, hholds', huna', -, hcases⟩ :=
      sackUpdateAt_spec hinv packetAck blocks env hpos hok
    refine SackState.Inv.forget huna' hpos.2 ?_ hholds' ?_
    · have := hpos.1
      simp only
      omega
    · intro hd
      rcases hcases with ⟨hd', -⟩ | ⟨hpoints', -⟩
      · rw [hd] at hd'
        simp at hd'
      · exact hpoints'
  | trim ack =>
    have hset : Scoreboard.Holds base { s.tp with sndUna := pos base ack } s.una
        s.flight sp rt := hholds.congr rfl rfl rfl rfl
    obtain ⟨sp', rt', hholds', hpoints'⟩ :=
      tcpSackTrim_holds hset rfl hpos.1 hpos.2 hflight
    refine ⟨sp', rt', rfl, hpos.2, ?_, hholds', ?_⟩
    · have := hpos.1
      simp only [sackStep]
      omega
    · rw [hpoints', ← filter_eq_inter hholds.sackedInside, hpoints]
      rfl
  | commit kind nextsegRule rescue p n env =>
    have hset : Scoreboard.Holds base
        { s.tp with
          env := env
          pending := some ⟨kind, nextsegRule, rescue, pos base p,
            pos base (p + n)⟩ } s.una s.flight sp rt := hholds.congr rfl rfl rfl rfl
    have huna' := (tcpSackCommitCandidate_same
        { s.tp with
          env := env
          pending := some ⟨kind, nextsegRule, rescue, pos base p,
            pos base (p + n)⟩ } (pos base (p + n))).1.trans huna
    rcases tcpSackCommitCandidate_holds hflight hset rfl rfl hpos.1 hpos.2 with
      ⟨hholds', hd⟩ | ⟨rt', hholds', -⟩
    · refine SackState.Inv.forget huna' hfin hflight hholds' fun hd' => ?_
      cases hd'.symm.trans hd
    · exact SackState.Inv.forget huna' hfin hflight hholds' fun _ => hpoints
  | onRto =>
    refine ⟨[], rt, ?_, hfin, hflight, tcpSackOnRto_holds hholds _, rfl⟩
    exact (tcpSackEnterRecovery_sndUna _ _ _).trans huna
  | enterRecovery mode =>
    refine ⟨sp, rt, ?_, hfin, hflight, tcpSackEnterRecovery_holds hholds _ _, hpoints⟩
    exact (tcpSackEnterRecovery_sndUna _ _ _).trans huna
  | reset p =>
    refine ⟨[], [], rfl, Nat.le_succ p, by simp [sackStep], ?_, rfl⟩
    exact ⟨rfl, rfl, trivial, trivial, by simp, by simp, rfl, zero_le, fun _ => rfl⟩

theorem sackSystem_init_inv (h : (sackSystem base).init s) : s.Inv base := by
  obtain ⟨tp, rfl⟩ := h
  refine ⟨[], [], (Serial.pos_zero base).symm, by simp, by simp, ?_, rfl⟩
  exact ⟨rfl, rfl, trivial, trivial, by simp, by simp, rfl, zero_le, fun _ => rfl⟩

/-- Spans of the flight are well-formed ranges. -/
theorem rangesOk_map (h : Separated una sp) (hin : ∀ r ∈ sp, r.right ≤ flight)
    (hflight : flight < una + 2 ^ 31) :
    RangesOk (pos base una) (flight - una) (sp.map (toRange base)) := by
  have hnear := spansNear_of_inside h hin hflight
  constructor
  · rw [pairwise_map]
    refine List.Pairwise.imp_of_mem (fun {r t} hr ht hgap => ?_) h.pairwise
    rw [toRange_left, toRange_right, lt_pos base (hnear r hr).2 (hnear t ht).1]
    exact decide_eq_true hgap
  · intro r hr
    obtain ⟨t, ht, rfl⟩ := mem_map.mp hr
    have hbounds := h.mem_bounds t ht
    have hright := hin t ht
    rw [toRange_left, toRange_right, toNat_pos_sub_pos base hbounds.1 (by omega),
      toNat_pos_sub_pos base (by omega) (by omega)]
    omega

theorem covered_map (h : Separated una sp) (hin : ∀ r ∈ sp, r.right ≤ flight)
    (hflight : flight < una + 2 ^ 31) :
    covered una (pos base una) (sp.map (toRange base)) = points sp := by
  have hbounds := h.mem_bounds
  clear h
  induction sp with
  | nil => rfl
  | cons r rest ih =>
    have hr := hbounds r (by simp)
    have hright := hin r (by simp)
    rw [map_cons, covered, points, toRange_left, toRange_right, dist_una hr.1 (by omega),
      dist_una (by omega) (by omega), ih (fun t ht => hin t (by simp [ht]))
        (fun t ht => hbounds t (by simp [ht]))]

theorem SackState.Inv.represents (h : s.Inv base) : s.Represents base := by
  obtain ⟨sp, rt, huna, -, hflight, hholds, hpoints⟩ := h
  refine ⟨huna, ?_, ?_, ?_, hholds.limit, ?_⟩
  · rw [huna, hholds.sacked]
    exact rangesOk_map hholds.sackedApart hholds.sackedInside hflight
  · rw [huna, hholds.retransmitted]
    exact rangesOk_map hholds.retransmittedApart hholds.retransmittedInside hflight
  · simp [hholds.sacked, hholds.retransmitted, hholds.count]
  · rw [huna, hholds.sacked, covered_map hholds.sackedApart hholds.sackedInside hflight, hpoints]

/-- The byte count an update reports is the growth of the accepted set. -/
theorem SackState.Inv.newly_eq_growth (h : s.Inv base) {packetAck : Seq} {env : Tape}
    (hpos : (SackCall.update ack packetAck blocks env).Possible s)
    (hok : (SackCall.update ack packetAck blocks env).Unwrapped base s) :
    (sackUpdateAt base s ack packetAck blocks env).1.newlySackedBytes.toNat =
      ((sackStep base s (.update ack packetAck blocks env)).accepted \ s.accepted).card := by
  obtain ⟨sp, rt, m, hholds, -, hnewly, hcases⟩ :=
    sackUpdateAt_spec h packetAck blocks env hpos hok
  obtain ⟨-, -, -, -, hflight, -⟩ := h
  rw [hnewly, sackStep, SackState.forget]
  split_ifs with hd
  · -- a degraded scoreboard has accepted nothing, and reports nothing
    have hm : m = 0 := by
      rcases hcases with ⟨-, hm⟩ | ⟨-, hcard⟩
      · exact hm
      · rw [hholds.degraded hd, points, Finset.card_empty] at hcard
        omega
    simp [hm]
  · rcases hcases with ⟨hd', -⟩ | ⟨hpoints, hcard⟩
    · exact absurd hd' hd
    · have hrange : points sp ⊆ Finset.Ico ack s.flight := by
        intro x hx
        obtain ⟨r, hr, -, hlt⟩ := mem_points.mp hx
        exact Finset.mem_Ico.mpr ⟨hholds.sackedApart.le_of_mem_points hx,
          hlt.trans_le (hholds.sackedInside r hr)⟩
      have hsame : points sp \ s.accepted = points sp \ s.accepted.filter (ack ≤ ·) := by
        ext x
        simp only [Finset.mem_sdiff, Finset.mem_filter, not_and]
        refine and_congr_right fun hx => ⟨fun hn ha => absurd ha hn, fun hn ha => ?_⟩
        exact hn ha (Finset.mem_Ico.mp (hrange hx)).1
      have hsplit := Finset.card_sdiff_add_card_eq_card
        (hpoints ▸ Finset.subset_union_left : s.accepted.filter (ack ≤ ·) ⊆ points sp)
      have hle := Finset.card_le_card hrange
      have hack := hpos.1
      rw [Nat.card_Ico] at hle
      simp only [← hpoints, hsame]
      rw [BitVec.toNat_ofNat, Nat.mod_eq_of_lt (by omega)]
      omega

/-- In every run whose updates listen to no wrapping block, the range lists represent the accepted
positions of the flight, and every update reports the growth of that set. -/
theorem scoreboard_represents_flight (base : Seq) {s : SackState}
    (h : (sackSystem base).Reach (SackCall.Unwrapped base) s) :
    s.Represents base ∧
      ∀ ack packetAck blocks env,
        (SackCall.update ack packetAck blocks env).Possible s →
        (SackCall.update ack packetAck blocks env).Unwrapped base s →
          (sackUpdateAt base s ack packetAck blocks env).1.newlySackedBytes.toNat =
            ((sackStep base s (.update ack packetAck blocks env)).accepted \ s.accepted).card := by
  have hinv : s.Inv base := h.invariant (fun _ => sackSystem_init_inv)
    fun _ call hs hpos hok => sackStep_inv call hs hpos hok
  exact ⟨hinv.represents, fun _ _ _ _ => hinv.newly_eq_growth⟩

/-- The scoreboard of a fresh connection. -/
def sackFresh (base : Seq) : SackState :=
  ⟨tcpSackStateInit { sndUna := base } base, 0, 0, ∅⟩

theorem sackFresh_reach (base : Seq) (ok : SackState → SackCall → Prop) :
    (sackSystem base).Reach ok (sackFresh base) :=
  .init ⟨{ sndUna := base }, rfl⟩

theorem scoreboard_represents_flight_of_ten :
    (sackStep 4294967290 (sackStep 4294967290 (sackFresh 4294967290) (.sent 10))
      (.update 1 4294967291 [⟨4294967293, 2⟩] [1])).Represents 4294967290 := by
  have hsent : (sackSystem 4294967290).Reach (SackCall.Unwrapped 4294967290)
      (sackStep 4294967290 (sackFresh 4294967290) (.sent 10)) :=
    (sackFresh_reach _ _).after (.sent 10) ⟨by decide, by decide⟩ trivial
  have hupdate : (sackSystem 4294967290).Reach (SackCall.Unwrapped 4294967290)
      (sackStep 4294967290 (sackStep 4294967290 (sackFresh 4294967290) (.sent 10))
        (.update 1 4294967291 [⟨4294967293, 2⟩] [1])) :=
    hsent.after (.update 1 4294967291 [⟨4294967293, 2⟩] [1]) ⟨by decide, by decide⟩
      (fun _ => by decide)
  exact (scoreboard_represents_flight 4294967290 hupdate).1

/-- One byte is in flight; the second block starts behind it, wraps around half the sequence space
and is taken in whole: three bytes that were never sent are reported as newly acknowledged. -/
theorem wrapping_block_is_accepted :
    ∃ s : SackState, (sackSystem 1000).Reach (fun _ _ => True) s ∧ s.flight - s.una = 1 ∧
      (sackUpdateAt 1000 s 0 1000 [⟨1005, 1006⟩, ⟨2147484647, 2147484650⟩] [1]).1.newlySackedBytes =
        3 ∧
      ¬ (sackStep 1000 s
        (.update 0 1000 [⟨1005, 1006⟩, ⟨2147484647, 2147484650⟩] [1])).Represents 1000 := by
  refine ⟨sackStep 1000 (sackFresh 1000) (.sent 1), ?_, rfl, by decide, ?_⟩
  · exact (sackFresh_reach 1000 _).after (.sent 1) ⟨by decide, by decide⟩ trivial
  · intro h
    have hout := (h.sacked.inside ⟨2147484647, 2147484650⟩ (by decide)).2
    exact absurd hout (by decide)

end Runs

end SnowTG.Tcp
