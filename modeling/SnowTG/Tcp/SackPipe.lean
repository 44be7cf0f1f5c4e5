import SnowTG.Lib.SpanSums
import SnowTG.Tcp.SackRanges

/-!
# The pipe

RFC 6675 defines the pipe byte by byte: an unsacked byte counts once unless it is
lost and once more if it was sent again below HighRxt.  `tcp_sack_set_pipe` walks the
gaps of the scoreboard and finds the end of the lost part of a gap by binary search.
-/

namespace SnowTG.Tcp

open SnowTG.Lib SnowTG.Lib.Spans List
open SnowTG.Lib.Serial (pos pos_sub_pos_of_le pos_add Near)

/-- The IsLost rule for an unsacked position. -/
def lostByRule (smss : Nat) (sp : List Span) (x : Nat) : Bool :=
  decide (tcpSackDupThresh ≤ spansAbove sp x ∨ (tcpSackDupThresh - 1) * smss < pointsAbove sp x)

theorem lostByRule_antitone (smss : Nat) (sp : List Span) {x y : Nat} (h : x ≤ y)
    (hlost : lostByRule smss sp y = true) : lostByRule smss sp x = true := by
  have hspans := spansAbove_antitone (l := sp) h
  have hpoints := pointsAbove_antitone (l := sp) h
  simp only [lostByRule, decide_eq_true_eq] at hlost ⊢
  omega

section

variable {origin : Seq} {l : List Span} {lo x : Nat} {highRxt : Seq} {a b : Nat}

/-- The loop of `tcp_sack_is_lost` counts the spans and the numbers from `x` on. -/
theorem sackIsLostFrom_eq (smss : Nat) (hnear : SpansNear 0 l) (hx : Near 0 x)
    (hsep : Separated lo l) {bytes disc : Nat} (hdisc : disc < tcpSackDupThresh)
    (hbytes : bytes ≤ (tcpSackDupThresh - 1) * smss) (hfits : bytes + countFrom l x < 2 ^ 32) :
    sackIsLostFrom smss (pos origin x) (l.map (toRange origin)) (BitVec.ofNat 32 bytes) disc =
        true ↔
      tcpSackDupThresh ≤ disc + spansAbove l x ∨
        (tcpSackDupThresh - 1) * smss < bytes + countFrom l x := by
  induction l generalizing lo bytes disc with
  | nil =>
    rw [map_nil, sackIsLostFrom, spansAbove_nil, countFrom_nil]
    simp only [Bool.false_eq_true, false_iff]
    omega
  | cons s rest ih =>
    obtain ⟨hleft, hright⟩ := hnear s (by simp)
    obtain ⟨-, hlt, hrest⟩ := hsep
    have hnear' : SpansNear 0 rest := fun t ht => hnear t (by simp [ht])
    rw [countFrom_cons] at hfits
    rw [map_cons, spansAbove_cons, countFrom_cons, sackIsLostFrom, toRange_left,
      toRange_right, seqGt_pos origin hright hx]
    by_cases hbelow : x < s.right
    · -- the span reaches above `x`: its part from `x` on is added
      have hgrow : max s.left x < s.right := by omega
      have hbytes' : (if Serial.lt (pos origin (max s.left x)) (pos origin s.right)
          then BitVec.ofNat 32 bytes + (pos origin s.right -
            pos origin (max s.left x)) else BitVec.ofNat 32 bytes) =
          BitVec.ofNat 32 (bytes + (s.right - max s.left x)) := by
        rw [lt_pos origin (near_max hleft hx) hright, if_pos (decide_eq_true hgrow),
          pos_sub_pos_of_le origin hgrow.le, ← BitVec.ofNat_add]
      have hdisc' : (if seqGt (pos origin s.left) (pos origin x) then disc + 1
          else disc) = disc + (if x < s.left then 1 else 0) := by
        rw [seqGt_pos origin hleft hx]
        split_ifs with h1 h2 h2 <;> simp_all
      have hsum : (BitVec.ofNat 32 (bytes + (s.right - max s.left x))).toNat =
          bytes + (s.right - max s.left x) := by
        rw [BitVec.toNat_ofNat, Nat.mod_eq_of_lt (by omega)]
      rw [if_neg (by simpa using hbelow)]
      dsimp only
      rw [ite_seqGt_eq_max hleft hx, hbytes', hdisc', hsum]
      by_cases hover : tcpSackDupThresh ≤ disc + (if x < s.left then 1 else 0) ∨
          (tcpSackDupThresh - 1) * smss < bytes + (s.right - max s.left x)
      · rw [if_pos (by simpa using hover)]
        simp only [true_iff]
        omega
      · rw [if_neg (by simpa using hover)]
        rw [not_or, not_le, not_lt] at hover
        rw [ih hnear' hrest hover.1 hover.2 (by omega)]
        omega
    · rw [if_pos (by simpa using hbelow), ih hnear' hrest hdisc hbytes (by omega),
        if_neg (by omega)]
      omega

theorem points_lt_of_near (hnear : SpansNear 0 l) (hx : x ∈ points l) : x < 2 ^ 31 := by
  obtain ⟨s, hs, -, hlt⟩ := mem_points.mp hx
  have hright := (hnear s hs).2.2
  omega

/-- On an unsacked position the code's test is the rule. -/
theorem tcpSackIsLost_eq {tp : Scoreboard} {sp : List Span} (hsacked : tp.sacked = sp.map (toRange origin))
    (hnear : SpansNear 0 sp) (hsep : Separated lo sp) (hx : Near 0 x) (hout : x ∉ points sp) :
    tcpSackIsLost tp (pos origin x) = lostByRule tp.smss sp x := by
  have hfits : 0 + countFrom sp x < 2 ^ 32 := by
    have hcard : ((points sp).filter (x ≤ ·)).card ≤ (Finset.range (2 ^ 31)).card := by
      apply Finset.card_le_card
      intro y hy
      exact Finset.mem_range.mpr (points_lt_of_near hnear (Finset.mem_filter.mp hy).1)
    rw [Finset.card_range] at hcard
    rw [countFrom_eq hsep]
    omega
  unfold tcpSackIsLost lostByRule
  rw [Bool.eq_iff_iff, hsacked, decide_eq_true_iff]
  have hloop : sackIsLostFrom tp.smss (pos origin x) (sp.map (toRange origin))
      (BitVec.ofNat 32 0) 0 = true ↔ _ :=
    sackIsLostFrom_eq tp.smss hnear hx hsep (by decide) zero_le hfits
  rw [zero_add, zero_add, countFrom_eq_pointsAbove hsep hout] at hloop
  exact hloop

/-- A position precedes HighRxt in serial order. -/
def belowHighRxt (origin highRxt : Seq) (x : Nat) : Bool :=
  Serial.lt (Serial.pos origin x) highRxt

/-- No position strictly between `a` and `b` is half the sequence space away from HighRxt. -/
def Comparable (origin highRxt : Seq) (a b : Nat) : Prop :=
  ∀ y, a < y → y < b → Serial.pos origin y ≠ highRxt + BitVec.ofNat 32 (2 ^ 31)

theorem Comparable.mono {a' b' : Nat} (h : Comparable origin highRxt a b) (ha : a ≤ a')
    (hb : b' ≤ b) : Comparable origin highRxt a' b' :=
  fun y hay hyb => h y (by omega) (by omega)

/-- HighRxt cuts an interval in at most one place, so one comparison at its start and one at
its end count the positions below. -/
theorem belowHighRxt_count (hab : a < b) (hb : Near 0 b) (hcmp : Comparable origin highRxt a b) :
    (if Serial.lt (pos origin a) highRxt then
      (if seqGt (pos origin b) highRxt then highRxt else pos origin b) -
        pos origin a
      else 0) =
      BitVec.ofNat 32 ((Finset.Ico a b).filter fun x => belowHighRxt origin highRxt x = true).card := by
  obtain ⟨k, hk, hhigh⟩ := Serial.exists_eq_pos_add origin highRxt a
  have hlen : b - a < 2 ^ 31 := by
    have hbound := hb.2
    omega
  have hbelow : ∀ j < 2 ^ 31, belowHighRxt origin highRxt (a + j) = true ↔
      2 ^ 32 ≤ 2 * ((j + (2 ^ 32 - k)) % 2 ^ 32) := by
    intro j hj
    unfold belowHighRxt
    rw [hhigh]
    exact Serial.lt_pos_add_iff origin a (by omega) hk
  have hfirst := hbelow 0 (by norm_num)
  rw [add_zero] at hfirst
  by_cases hahead : 0 < k ∧ k ≤ 2 ^ 31
  · -- HighRxt lies ahead of the interval's start
    have hstart : Serial.lt (pos origin a) highRxt = true := hfirst.mpr (by omega)
    have hstop : seqGt (pos origin b) highRxt = decide (k < b - a) := by
      rw [Bool.eq_iff_iff, decide_eq_true_iff, seqGt, hhigh]
      have hsplit : b = a + (b - a) := by omega
      rw [hsplit, Serial.lt_pos_add_iff origin a hk (by omega), ← hsplit]
      omega
    have hset : (Finset.Ico a b).filter (fun x => belowHighRxt origin highRxt x = true) =
        Finset.Ico a (a + min k (b - a)) := by
      ext x
      simp only [Finset.mem_filter, Finset.mem_Ico]
      constructor
      · rintro ⟨⟨hax, hxb⟩, hx⟩
        obtain ⟨j, rfl⟩ := Nat.exists_eq_add_of_le hax
        have := (hbelow j (by omega)).mp hx
        omega
      · rintro ⟨hax, hxb⟩
        obtain ⟨j, rfl⟩ := Nat.exists_eq_add_of_le hax
        exact ⟨by omega, (hbelow j (by omega)).mpr (by omega)⟩
    rw [if_pos hstart, hstop, hset, Nat.card_Ico, Nat.add_sub_cancel_left]
    by_cases hcut : k < b - a
    · rw [if_pos (decide_eq_true hcut), hhigh,
        pos_sub_pos_of_le origin (Nat.le_add_right a k), Nat.add_sub_cancel_left]
      congr 1
      omega
    · rw [if_neg (by simpa using hcut), pos_sub_pos_of_le origin hab.le]
      congr 1
      omega
  · -- HighRxt is not ahead of the start; no later position can be below it either
    have hstart : ¬ Serial.lt (pos origin a) highRxt = true := by
      intro hlt
      have := hfirst.mp hlt
      omega
    have hset : (Finset.Ico a b).filter (fun x => belowHighRxt origin highRxt x = true) = ∅ := by
      apply Finset.filter_eq_empty_iff.mpr
      intro x hx hlt
      obtain ⟨hax, hxb⟩ := Finset.mem_Ico.mp hx
      obtain ⟨j, rfl⟩ := Nat.exists_eq_add_of_le hax
      have hj := (hbelow j (by omega)).mp hlt
      apply hcmp (a + (k - 2 ^ 31)) (by omega) (by omega)
      rw [hhigh, pos_add]
      have hk' : a + k + 2 ^ 31 = a + (k - 2 ^ 31) + 2 ^ 32 := by omega
      rw [hk', ← pos_add origin (a + (k - 2 ^ 31)) (2 ^ 32)]
      simp
    rw [if_neg hstart, hset, Finset.card_empty]
    rfl

/-- Positions of the interval that were sent again below HighRxt. -/
def resentBelow (origin highRxt : Seq) (rt : List Span) (a b : Nat) : Finset Nat :=
  (Finset.Ico a b ∩ points rt).filter fun x => belowHighRxt origin highRxt x = true

theorem resentBelow_cons {s : Span} {rest : List Span} (hsep : Separated lo (s :: rest)) :
    (resentBelow origin highRxt (s :: rest) a b).card =
      ((Finset.Ico (max a s.left) (min b s.right)).filter
        fun x => belowHighRxt origin highRxt x = true).card +
        (resentBelow origin highRxt rest a b).card := by
  have hfirst : Finset.Ico a b ∩ Finset.Ico s.left s.right =
      Finset.Ico (max a s.left) (min b s.right) := Finset.Ico_inter_Ico
  unfold resentBelow
  rw [points, Finset.inter_union_distrib_left, hfirst, Finset.filter_union,
    Finset.card_union_of_disjoint]
  apply Finset.disjoint_filter_filter
  rw [← hfirst]
  exact (hsep.disjoint_points.mono_left Finset.inter_subset_right).mono_right
    Finset.inter_subset_right

/-- The loop of `retransmitted_overlap` counts the positions sent again below HighRxt. -/
theorem retransmittedOverlapFrom_eq (hnear : SpansNear 0 l) (hsep : Separated lo l) (ha : Near 0 a)
    (hb : Near 0 b) (hcmp : Comparable origin highRxt a b) (bytes : BitVec 32) :
    retransmittedOverlapFrom highRxt (pos origin a) (pos origin b)
        (l.map (toRange origin)) bytes =
      bytes + BitVec.ofNat 32 (resentBelow origin highRxt l a b).card := by
  induction l generalizing lo bytes with
  | nil => simp [retransmittedOverlapFrom, resentBelow, points]
  | cons s rest ih =>
    obtain ⟨hleft, hright⟩ := hnear s (by simp)
    have hlt := hsep.2.1
    have hnear' : SpansNear 0 rest := fun t ht => hnear t (by simp [ht])
    rw [map_cons, retransmittedOverlapFrom, toRange_left, toRange_right,
      lt_pos origin hleft hb, lt_pos origin ha hright]
    by_cases hbefore : s.left < b
    · rw [if_neg (by simpa using hbefore)]
      by_cases hbehind : a < s.right
      · -- the range overlaps the interval
        rw [if_neg (by simpa using hbehind)]
        dsimp only
        have hcap : (if Serial.lt (pos origin b) (pos origin s.right) then
            pos origin b else pos origin s.right) =
            pos origin (min b s.right) := ite_lt_eq_min hb hright
        rw [ite_seqGt_eq_max ha hleft, hcap]
        by_cases hin : max a s.left < min b s.right
        · have hcount := belowHighRxt_count hin (near_min hb hright)
            (hcmp.mono (Nat.le_max_left _ _) (Nat.min_le_left _ _))
          rw [lt_pos origin (near_max ha hleft) (near_min hb hright), decide_eq_true hin,
            Bool.true_and, ih hnear' hsep.2.2, resentBelow_cons hsep, BitVec.ofNat_add, ← hcount]
          split_ifs <;> simp [BitVec.add_assoc]
        · rw [ih hnear' hsep.2.2, resentBelow_cons hsep, Finset.Ico_eq_empty (by omega),
            lt_pos origin (near_max ha hleft) (near_min hb hright), decide_eq_false hin]
          simp
      · rw [if_pos (by simpa using hbehind), ih hnear' hsep.2.2, resentBelow_cons hsep,
          Finset.Ico_eq_empty (by omega)]
        simp
    · -- this range and all behind it start too late
      rw [if_pos (by simpa using hbefore)]
      have hnone : resentBelow origin highRxt (s :: rest) a b = ∅ := by
        apply Finset.filter_eq_empty_iff.mpr
        intro x hx
        obtain ⟨hin, hpoint⟩ := Finset.mem_inter.mp hx
        have hge : s.left ≤ x := by
          have hsep' : Separated s.left (s :: rest) := ⟨le_rfl, hsep.2⟩
          exact hsep'.le_of_mem_points hpoint
        have hxb := (Finset.mem_Ico.mp hin).2
        omega
      rw [hnone, Finset.card_empty]
      simp

/-- What an unsacked position contributes to the pipe. -/
def pipeWeight (origin highRxt : Seq) (smss : Nat) (sp rt : List Span) (x : Nat) : Nat :=
  (if lostByRule smss sp x then 0 else 1) +
    (if x ∈ points rt ∧ belowHighRxt origin highRxt x = true then 1 else 0)

theorem sum_pipeWeight (highRxt : Seq) (smss : Nat) (sp rt : List Span) (a b : Nat) :
    ∑ x ∈ Finset.Ico a b, pipeWeight origin highRxt smss sp rt x =
      (∑ x ∈ Finset.Ico a b, if lostByRule smss sp x then 0 else 1) +
        (resentBelow origin highRxt rt a b).card := by
  unfold pipeWeight resentBelow
  rw [Finset.sum_add_distrib, Finset.card_filter, ← Finset.filter_mem_eq_inter, Finset.sum_filter]
  congr 1
  apply Finset.sum_congr rfl
  intro x _
  split_ifs <;> simp_all

/-- In a gap the lost positions come first. -/
theorem sum_not_lost (smss : Nat) (sp : List Span) {n : Nat}
    (hn : ∀ x, a ≤ x → x < b → (lostByRule smss sp x = true ↔ x < a + n)) :
    ∑ x ∈ Finset.Ico a b, (if lostByRule smss sp x then 0 else 1) = b - (a + n) := by
  calc
    ∑ x ∈ Finset.Ico a b, (if lostByRule smss sp x then 0 else 1) =
        ∑ x ∈ Finset.Ico a b, (if a + n ≤ x then 1 else 0) := by
      apply Finset.sum_congr rfl
      intro x hx
      obtain ⟨hax, hxb⟩ := Finset.mem_Ico.mp hx
      have hiff := hn x hax hxb
      by_cases hlost : lostByRule smss sp x = true
      · rw [if_pos hlost, if_neg (by have := hiff.mp hlost; omega)]
      · rw [if_neg hlost, if_pos (by by_contra h; exact hlost (hiff.mpr (by omega)))]
    _ = ((Finset.Ico a b).filter (a + n ≤ ·)).card := (Finset.card_filter _ _).symm
    _ = (Finset.Ico (a + n) b).card := by
      congr 1
      ext x
      simp only [Finset.mem_filter, Finset.mem_Ico]
      omega
    _ = b - (a + n) := Nat.card_Ico _ _

theorem pipeFirstNotLost_eq (tp : Scoreboard) (left : Seq) (rounds lo hi : Nat) :
    pipeFirstNotLost tp left rounds lo hi =
      firstFailing (fun mid => tcpSackIsLost tp (left + BitVec.ofNat 32 mid)) rounds lo hi := by
  induction rounds generalizing lo hi with
  | zero => rfl
  | succ rounds ih => simp only [pipeFirstNotLost, firstFailing, ih]

end

/-- The range lists stand for separated spans of positions counted from `origin`. -/
structure Scoreboard.StandsFor (origin : Seq) (sp rt : List Span) (tp : Scoreboard) : Prop where
  sacked : tp.sacked = sp.map (toRange origin)
  retransmitted : tp.retransmitted = rt.map (toRange origin)
  sackedApart : Separated 0 sp
  retransmittedApart : Separated 0 rt
  sackedNear : SpansNear 0 sp
  retransmittedNear : SpansNear 0 rt

section

variable {origin : Seq} {sp rt : List Span} {tp : Scoreboard} {a b f : Nat} {flightEnd cursor : Seq}

/-- One gap of the scoreboard. -/
theorem pipeForUnsacked_eq (h : tp.StandsFor origin sp rt) (hab : a < b) (hb : Near 0 b)
    (hgap : ∀ x, a ≤ x → x < b → x ∉ points sp) (hcmp : Comparable origin tp.highRxt a b) :
    pipeForUnsacked tp (pos origin a) (pos origin b) =
      BitVec.ofNat 32 (∑ x ∈ Finset.Ico a b, pipeWeight origin tp.highRxt tp.smss sp rt x) := by
  have ha : Near 0 a := Near.between zero_le zero_le hab.le hb
  have hlen := hb.2
  have hlost : ∀ x, a ≤ x → x < b →
      tcpSackIsLost tp (pos origin x) = lostByRule tp.smss sp x := fun x hax hxb =>
    tcpSackIsLost_eq h.sacked h.sackedNear h.sackedApart ⟨zero_le, by omega⟩
      (hgap x hax hxb)
  have hover : retransmittedOverlap tp (pos origin a) (pos origin b) =
      BitVec.ofNat 32 (resentBelow origin tp.highRxt rt a b).card := by
    rw [retransmittedOverlap, h.retransmitted, retransmittedOverlapFrom_eq h.retransmittedNear
      h.retransmittedApart ha hb hcmp]
    exact BitVec.zero_add _
  rw [pipeForUnsacked, hover, sum_pipeWeight, lt_pos origin ha hb, hlost a le_rfl hab]
  dsimp only
  rw [if_neg (by simpa using hab)]
  by_cases hfirst : lostByRule tp.smss sp a = true
  · -- binary search for the end of the lost part
    rw [if_neg (by simpa using hfirst), pipeFirstNotLost_eq,
      Serial.toNat_pos_sub_pos origin hab.le (by omega)]
    have hmid : ∀ j < b - a, tcpSackIsLost tp (pos origin a + BitVec.ofNat 32 j) =
        lostByRule tp.smss sp (a + j) := by
      intro j hj
      rw [pos_add]
      exact hlost (a + j) (Nat.le_add_right _ _) (by omega)
    obtain ⟨hle, hcut⟩ := firstFailing_spec
      (p := fun j => tcpSackIsLost tp (pos origin a + BitVec.ofNat 32 j))
      (n := b - a) (by
        intro x y hxy hy hp
        rw [hmid y hy] at hp
        rw [hmid x (by omega)]
        exact lostByRule_antitone tp.smss sp (by omega) hp)
      33 0 (b - a) zero_le le_rfl (by omega) (by omega) (by omega)
    generalize firstFailing (fun j => tcpSackIsLost tp (pos origin a + BitVec.ofNat 32 j))
      33 0 (b - a) = n at hle hcut ⊢
    have hsum := sum_not_lost tp.smss sp (a := a) (b := b) (n := n) (by
      intro x hax hxb
      obtain ⟨j, rfl⟩ := Nat.exists_eq_add_of_le hax
      have hj := hcut j (by omega)
      rw [hmid j (by omega)] at hj
      rw [hj]
      omega)
    rw [hsum, pos_add, pos_sub_pos_of_le origin (by omega), ← BitVec.ofNat_add, add_comm]
  · rw [if_pos (by simpa using hfirst), pos_sub_pos_of_le origin hab.le, ← BitVec.ofNat_add]
    have hsum := sum_not_lost tp.smss sp (a := a) (b := b) (n := 0) (by
      intro x hax hxb
      constructor
      · intro hx
        exact absurd (lostByRule_antitone tp.smss sp hax hx) hfirst
      · intro hx
        omega)
    rw [hsum, add_zero, add_comm]

/-- The walk over the ranges, with the gap behind the last one. -/
def pipeWalk (tp : Scoreboard) (flightEnd : Seq) (ranges : List SackRange) (cursor : Seq)
    (pipe : BitVec 32) : BitVec 32 :=
  let walked := sackPipeFrom tp flightEnd ranges cursor pipe
  if Serial.lt walked.1 flightEnd then walked.2 + pipeForUnsacked tp walked.1 flightEnd
  else walked.2

theorem tcpSackSetPipe_eq (tp : Scoreboard) (flightEnd : Seq) :
    (tcpSackSetPipe tp flightEnd).1 = pipeWalk tp flightEnd tp.sacked tp.sndUna 0 := rfl

theorem pipeWalk_done (ranges : List SackRange) (pipe : BitVec 32)
    (h : Serial.lt cursor flightEnd = false) : pipeWalk tp flightEnd ranges cursor pipe = pipe := by
  cases ranges <;> simp [pipeWalk, sackPipeFrom, h]

theorem pipeWalk_nil (pipe : BitVec 32) (h : Serial.lt cursor flightEnd = true) :
    pipeWalk tp flightEnd [] cursor pipe = pipe + pipeForUnsacked tp cursor flightEnd := by
  simp [pipeWalk, sackPipeFrom, h]

theorem pipeWalk_cons (r : SackRange) (rest : List SackRange) (pipe : BitVec 32)
    (h : Serial.lt cursor flightEnd = true) :
    pipeWalk tp flightEnd (r :: rest) cursor pipe =
      pipeWalk tp flightEnd rest (if seqGt r.right cursor then r.right else cursor)
        (if Serial.lt cursor r.left then
          pipe + pipeForUnsacked tp cursor (seqMin r.left flightEnd) else pipe) := by
  simp [pipeWalk, sackPipeFrom, h]

/-- The walk from some cursor on adds the weights of the unsacked positions from there. -/
theorem pipeWalk_eq (h : tp.StandsFor origin sp rt) (hf : Near 0 f) (l : List Span)
    (lo cursor : Nat) (hsep : Separated lo l) (hnear : SpansNear 0 l) (hcursor : Near 0 cursor)
    (hsame : ∀ x, cursor ≤ x → (x ∈ points sp ↔ x ∈ points l))
    (hcmp : Comparable origin tp.highRxt cursor f) (pipe : BitVec 32) :
    pipeWalk tp (pos origin f) (l.map (toRange origin)) (pos origin cursor) pipe =
      pipe + BitVec.ofNat 32 (∑ x ∈ Finset.Ico cursor f \ points l,
        pipeWeight origin tp.highRxt tp.smss sp rt x) := by
  induction l generalizing lo cursor pipe with
  | nil =>
    by_cases hgo : cursor < f
    · rw [map_nil, pipeWalk_nil pipe (by rw [lt_pos origin hcursor hf, decide_eq_true hgo]),
        pipeForUnsacked_eq h hgo hf _ hcmp, points, Finset.sdiff_empty]
      intro x hx _ hpoint
      have hmem := (hsame x hx).mp hpoint
      simp [points] at hmem
    · rw [pipeWalk_done _ _ (by rw [lt_pos origin hcursor hf, decide_eq_false hgo]),
        Finset.Ico_eq_empty hgo]
      simp
  | cons s rest ih =>
    obtain ⟨hleft, hright⟩ := hnear s (by simp)
    have hnear' : SpansNear 0 rest := fun t ht => hnear t (by simp [ht])
    by_cases hgo : cursor < f
    · have hsame' : ∀ x, max s.right cursor ≤ x → (x ∈ points sp ↔ x ∈ points rest) := by
        intro x hx
        rw [hsame x (by omega), points, Finset.mem_union, Finset.mem_Ico]
        constructor
        · rintro (hin | hin)
          · omega
          · exact hin
        · exact .inr
      rw [map_cons, pipeWalk_cons _ _ _ (by rw [lt_pos origin hcursor hf, decide_eq_true hgo]),
        toRange_left, toRange_right, ite_seqGt_eq_max hright hcursor,
        ih (s.right + 1) (max s.right cursor) hsep.2.2 hnear' (near_max hright hcursor) hsame'
          (hcmp.mono (Nat.le_max_right _ _) le_rfl),
        hsep.sum_gaps_cons, Nat.max_comm cursor s.right, lt_pos origin hcursor hleft]
      by_cases hgap : cursor < s.left
      · have hmin : seqMin (pos origin s.left) (pos origin f) =
            pos origin (min s.left f) := ite_lt_eq_min hleft hf
        rw [if_pos (by simpa using hgap), hmin,
          pipeForUnsacked_eq h (Nat.lt_min.mpr ⟨hgap, hgo⟩) (near_min hleft hf) _
            (hcmp.mono le_rfl (Nat.min_le_right _ _)), BitVec.ofNat_add, BitVec.add_assoc]
        intro x hx hxl hpoint
        have hin := (hsame x hx).mp hpoint
        have hsep' : Separated s.left (s :: rest) := ⟨le_rfl, hsep.2⟩
        have hge := hsep'.le_of_mem_points hin
        omega
      · rw [if_neg (by simpa using hgap),
          Finset.Ico_eq_empty (show ¬ cursor < min s.left f by omega)]
        simp
    · rw [pipeWalk_done _ _ (by rw [lt_pos origin hcursor hf, decide_eq_false hgo]),
        Finset.Ico_eq_empty hgo]
      simp

/-- A position weighs at most two, so the pipe of less than half the sequence space fits. -/
theorem sum_pipeWeight_lt (highRxt : Seq) (smss : Nat) (hf : Near 0 f) (u : Nat) (s : Finset Nat)
    (hs : s ⊆ Finset.Ico u f) : ∑ x ∈ s, pipeWeight origin highRxt smss sp rt x < 2 ^ 32 := by
  have hbound := hf.2
  calc
    ∑ x ∈ s, pipeWeight origin highRxt smss sp rt x ≤ ∑ _x ∈ s, 2 := by
      apply Finset.sum_le_sum
      intro x _
      unfold pipeWeight
      split_ifs <;> omega
    _ = s.card * 2 := by rw [Finset.sum_const, smul_eq_mul]
    _ ≤ (f - u) * 2 := Nat.mul_le_mul_right 2 (Nat.card_Ico u f ▸ Finset.card_le_card hs)
    _ < 2 ^ 32 := by omega

end

/-- On every well-formed scoreboard the pipe is the RFC 6675 sum, if HighRxt is not half the
sequence space away from a position strictly inside the flight. -/
theorem sack_pipe_is_rfc6675 (origin : Seq) (sp rt : List Span) (tp : Scoreboard) (u f : Nat)
    (h : tp.StandsFor origin sp rt) (huna : tp.sndUna = Serial.pos origin u) (hu : Near 0 u)
    (hf : Near 0 f) (hcmp : Comparable origin tp.highRxt u f) :
    (tcpSackSetPipe tp (Serial.pos origin f)).1.toNat =
      ∑ x ∈ Finset.Ico u f \ points sp,
        ((if lostByRule tp.smss sp x then 0 else 1) +
          (if x ∈ points rt ∧ Serial.lt (Serial.pos origin x) tp.highRxt = true then 1 else 0)) := by
  have hwalk := pipeWalk_eq h hf sp 0 u h.sackedApart h.sackedNear hu (fun _ _ => Iff.rfl) hcmp 0
  rw [tcpSackSetPipe_eq, huna, h.sacked, hwalk, zero_add, BitVec.toNat_ofNat,
    Nat.mod_eq_of_lt (sum_pipeWeight_lt _ _ hf u _ Finset.sdiff_subset)]
  rfl

/-- Thirty bytes in flight: ten of them sacked, the first five sent again. -/
def pipeBoard (highRxt : Seq) : Scoreboard :=
  { sndUna := 0, sndMss := 4, sacked := [⟨10, 20⟩], retransmitted := [⟨0, 5⟩], highRxt := highRxt }

theorem pipeBoard_standsFor (highRxt : Seq) :
    (pipeBoard highRxt).StandsFor 0 [⟨10, 20⟩] [⟨0, 5⟩] := by
  refine ⟨?_, ?_, ?_, ?_, ?_, ?_⟩
  · change [(⟨10, 20⟩ : SackRange)] = _
    decide
  · change [(⟨0, 5⟩ : SackRange)] = _
    decide
  · simp [Separated]
  · simp [Separated]
  · simp [SpansNear, Serial.Near]
  · simp [SpansNear, Serial.Near]

theorem sack_pipe_is_rfc6675_thirty :
    (tcpSackSetPipe (pipeBoard 5) (Serial.pos 0 30)).1.toNat =
      ∑ x ∈ Finset.Ico 0 30 \ points [⟨10, 20⟩],
        ((if lostByRule 4 [⟨10, 20⟩] x then 0 else 1) +
          (if x ∈ points [⟨0, 5⟩] ∧ Serial.lt (Serial.pos 0 x) (5 : Seq) = true then 1 else 0)) := by
  refine sack_pipe_is_rfc6675 0 [⟨10, 20⟩] [⟨0, 5⟩] (pipeBoard 5) 0 30 (pipeBoard_standsFor 5)
    (by decide) (by simp [Serial.Near]) (by simp [Serial.Near]) ?_
  intro y _ hlt heq
  have hnat := congrArg BitVec.toNat heq
  simp [pos, pipeBoard] at hnat
  omega

/-- With HighRxt half the sequence space away from the middle of a resent range, the bytes behind
that place precede HighRxt but are not counted. -/
theorem sack_pipe_ignores_far_highRxt :
    (pipeBoard (2 ^ 31 + 3)).StandsFor 0 [⟨10, 20⟩] [⟨0, 5⟩] ∧
    (tcpSackSetPipe (pipeBoard (2 ^ 31 + 3)) (Serial.pos 0 30)).1.toNat ≠
      ∑ x ∈ Finset.Ico 0 30 \ points [⟨10, 20⟩],
        ((if lostByRule 4 [⟨10, 20⟩] x then 0 else 1) +
          (if x ∈ points [⟨0, 5⟩] ∧ Serial.lt (Serial.pos 0 x) (2 ^ 31 + 3 : Seq) = true then 1
            else 0)) := by
  refine ⟨pipeBoard_standsFor _, ?_⟩
  decide

end SnowTG.Tcp
