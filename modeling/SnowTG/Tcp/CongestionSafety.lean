import SnowTG.Tcp.CubicWindow

/-!
# Safety of congestion control

Whatever is acknowledged or lost, the window keeps at least one segment.  The
threshold keeps two, unless conservative slow start ends in a smaller window.
No word wraps apart from two sums of times: the time CUBIC looks ahead and the delay
HyStart compares with.
-/

namespace SnowTG.Tcp.Cc

open SnowTG.Lib
open SnowTG.Lib.Checked (add sub Yields narrow_of_lt add_of_lt mul_of_lt sub_of_le div_of_pos
  mod_of_pos)

variable {clean : Prop} {smss least : Nat} {acked : Nat}

section Shared

variable {left right : Nat}

theorem uint32Max_eq : uint32Max = 2 ^ 32 - 1 := rfl

theorem addSat_eq (hleft : left < 2 ^ 32) :
    tcpCcAddSat left right = pure (min (left + right) uint32Max) := by
  have hmax := uint32Max_eq
  rw [tcpCcAddSat, sub_of_le (by omega) (by omega), pure_bind]
  split_ifs with hroom
  · rw [min_eq_right (by omega)]
  · rw [add_of_lt (by omega), min_eq_left (by omega)]

/-- A saturated sum is a word, and at least each of its parts. -/
theorem addSat_yields (hleft : left < 2 ^ 32) (hright : right < 2 ^ 32) :
    Yields clean (tcpCcAddSat left right) fun sum => left ≤ sum ∧ right ≤ sum ∧ sum < 2 ^ 32 := by
  have hmax := uint32Max_eq
  apply Yields.of_eq_pure (addSat_eq hleft)
  omega

theorem initialWindow_yields (hsmss : smss < 2 ^ 16) :
    Yields clean (tcpCcInitialWindow smss) fun w => smss ≤ w ∧ w < 2 ^ 32 := by
  have hword : smss < 2 ^ 32 := by omega
  rw [tcpCcInitialWindow]
  split_ifs
  · exact (addSat_yields hword hword).mono fun w hw => ⟨hw.1, hw.2.2⟩
  · refine (addSat_yields hword hword).bind fun two htwo => ?_
    exact (addSat_yields htwo.2.2 hword).mono fun w hw => ⟨hw.2.1, hw.2.2⟩
  · refine (addSat_yields hword hword).bind fun two htwo => ?_
    refine (addSat_yields hword hword).bind fun more hmore => ?_
    exact (addSat_yields htwo.2.2 hmore.2.2).mono fun w hw => ⟨htwo.1.trans hw.1, hw.2.2⟩

/-- A threshold keeps two segments. -/
theorem ssthresh_yields {flight numerator denominator : Nat} (hsmss : smss < 2 ^ 16)
    (hflight : flight < 2 ^ 32) (hnum : numerator ≤ denominator) (hden : 0 < denominator)
    (hsmall : denominator < 2 ^ 32) :
    Yields clean (tcpCcSsthresh flight smss numerator denominator) fun threshold =>
      2 * smss ≤ threshold ∧ threshold < 2 ^ 32 := by
  have hproduct : flight * numerator < 2 ^ 64 := by
    calc flight * numerator < 2 ^ 32 * 2 ^ 32 :=
          Nat.mul_lt_mul'' hflight (hnum.trans_lt hsmall)
      _ = 2 ^ 64 := by decide
  have hquotient : flight * numerator / denominator ≤ flight :=
    Nat.div_le_of_le_mul (by rw [mul_comm]; exact Nat.mul_le_mul_right flight hnum)
  have hmax := uint32Max_eq
  rw [tcpCcSsthresh, mul_of_lt hproduct, pure_bind, div_of_pos hden, pure_bind,
    narrow_of_lt (hquotient.trans_lt hflight), pure_bind, addSat_eq (by omega), pure_bind]
  apply Yields.pure
  split_ifs <;> omega

variable {threshold : Nat}

theorem entryWindow_yields {reason : LossReason} (hsmss : smss < 2 ^ 16)
    (hthreshold : threshold < 2 ^ 32) :
    Yields clean (entryWindow smss threshold reason) fun w => threshold ≤ w ∧ w < 2 ^ 32 := by
  have hword : smss < 2 ^ 32 := by omega
  rw [entryWindow]
  split_ifs
  · refine (addSat_yields hword hword).bind fun two htwo => ?_
    refine (addSat_yields hword htwo.2.2).bind fun three hthree => ?_
    exact (addSat_yields hthreshold hthree.2.2).mono fun w hw => ⟨hw.1, hw.2.2⟩
  · exact Yields.pure ⟨le_rfl, hthreshold⟩

/-- The windows are words; the window keeps one segment and the threshold `least`. -/
structure CcState.Fits (smss least : Nat) (cc : CcState) : Prop where
  cwnd_ge : smss ≤ cc.cwnd
  cwnd_lt : cc.cwnd < 2 ^ 32
  ssthresh_ge : least ≤ cc.ssthresh
  ssthresh_lt : cc.ssthresh < 2 ^ 32
  initial_ge : smss ≤ cc.initialWindow
  initial_lt : cc.initialWindow < 2 ^ 32
  caAcked_lt : cc.caAcked < 2 ^ 32

variable {cc : CcState} {cwnd : Nat}

theorem CcState.Fits.withCwnd (h : cc.Fits smss least) (hge : smss ≤ cwnd) (hlt : cwnd < 2 ^ 32) :
    { cc with cwnd := cwnd }.Fits smss least :=
  { h with cwnd_ge := hge, cwnd_lt := hlt }

theorem CcState.Fits.withCaAcked {caAcked : Nat} (h : cc.Fits smss least)
    (hlt : caAcked < 2 ^ 32) : { cc with caAcked := caAcked }.Fits smss least :=
  { h with caAcked_lt := hlt }

theorem CcState.Fits.withSsthresh {ssthresh : Nat} (h : cc.Fits smss least)
    (hge : least ≤ ssthresh) (hlt : ssthresh < 2 ^ 32) :
    { cc with ssthresh := ssthresh }.Fits smss least :=
  { h with ssthresh_ge := hge, ssthresh_lt := hlt }

/-- The first timeout for a sequence number sets the threshold. -/
theorem CcState.Fits.withRtoSsthresh (h : cc.Fits smss least) (first : Bool)
    (hge : least ≤ threshold) (hlt : threshold < 2 ^ 32) :
    { cc with ssthresh := if first then threshold else cc.ssthresh }.Fits smss least := by
  cases first with
  | true => exact h.withSsthresh hge hlt
  | false => exact h

theorem partialAckWindow_yields (hsmss : smss < 2 ^ 16) (hcwnd : cwnd < 2 ^ 32) :
    Yields clean (partialAckWindow smss cwnd acked) fun w => smss ≤ w ∧ w < 2 ^ 32 := by
  have hdeflated : Yields clean (if cwnd > acked then sub 32 cwnd acked else pure 0)
      fun w => w < 2 ^ 32 := by
    split_ifs with hmore
    · exact Yields.of_eq_pure (sub_of_le hmore.le hcwnd) (by omega)
    · exact Yields.pure (by decide)
  refine hdeflated.bind fun deflated hlt => ?_
  have hinflated : Yields clean
      (if acked ≥ smss then tcpCcAddSat deflated smss else pure deflated)
      fun w => w < 2 ^ 32 := by
    split_ifs
    · exact (addSat_yields hlt (by omega)).mono fun w hw => hw.2.2
    · exact Yields.pure hlt
  refine hinflated.bind fun inflated hword => ?_
  apply Yields.pure
  split_ifs <;> omega

theorem recoveryAck_yields {event : AckEvent} (hsmss : smss < 2 ^ 16) (h : cc.Fits smss least) :
    Yields clean (tcpCcNewrenoRecoveryAck smss cc event) fun r =>
      r.2.Fits smss least ∧ r.1 = event.inRecovery ∧ (event.inRecovery = false → r.2 = cc) := by
  rw [tcpCcNewrenoRecoveryAck]
  cases event.inRecovery with
  | false => exact Yields.pure ⟨h, rfl, fun _ => rfl⟩
  | true =>
    rw [if_neg nofun]
    split_ifs with hclassic hentered hpart hduplicate
    · exact Yields.pure ⟨h, rfl, nofun⟩
    · exact Yields.pure ⟨h, rfl, nofun⟩
    · refine (partialAckWindow_yields hsmss h.cwnd_lt).bind fun cwnd hcwnd => ?_
      exact Yields.pure ⟨h.withCwnd hcwnd.1 hcwnd.2, rfl, nofun⟩
    · refine (addSat_yields h.cwnd_lt (by omega)).bind fun cwnd hcwnd => ?_
      exact Yields.pure ⟨h.withCwnd hcwnd.2.1 hcwnd.2.2, rfl, nofun⟩
    · exact Yields.pure ⟨h, rfl, nofun⟩

theorem initWindows_yields (hsmss : smss < 2 ^ 16) (hleast : least ≤ 2 * smss)
    (synRetransmitted : Bool) :
    Yields clean (initWindows smss synRetransmitted) fun cc => cc.Fits smss least := by
  have hmax := uint32Max_eq
  refine (initialWindow_yields hsmss).bind fun w hw => ?_
  apply Yields.pure
  refine ⟨?_, ?_, ?_, ?_, hw.1, hw.2, Nat.two_pow_pos 32⟩
  · split_ifs
    · exact le_rfl
    · exact hw.1
  · dsimp only
    split_ifs
    · omega
    · exact hw.2
  · dsimp only
    omega
  · dsimp only
    omega

/-- Bounding the window by the threshold or the restart window keeps a segment. -/
theorem CcState.Fits.cap {limit : Nat} (h : cc.Fits smss least) (hlimit : smss ≤ limit) :
    { cc with cwnd := if cc.cwnd > limit then limit else cc.cwnd }.Fits smss least := by
  apply h.withCwnd
  · split_ifs
    · exact hlimit
    · exact h.cwnd_ge
  · have := h.cwnd_lt
    split_ifs <;> omega

end Shared

section NewReno

variable {cc : CcState} (hpos : 0 < smss) (hsmss : smss < 2 ^ 16) (h : cc.Fits smss least)
include hpos hsmss h

/-- The loop keeps the windows, and ends because a window is not acknowledged yet or cannot grow. -/
theorem newrenoGrow_yields {rounds : Nat} (hrounds : cc.caAcked ≤ rounds) :
    Yields clean (newrenoGrow smss rounds cc) fun cc' =>
      cc'.Fits smss least ∧ (cc'.cwnd = uint32Max ∨ cc'.caAcked < cc'.cwnd) := by
  induction rounds generalizing cc with
  | zero =>
    have := h.cwnd_ge
    exact Yields.pure ⟨h, .inr (by omega)⟩
  | succ rounds ih =>
    rw [newrenoGrow]
    split_ifs with hmore
    · simp only [Bool.and_eq_true, decide_eq_true_eq] at hmore
      rw [sub_of_le hmore.2 h.caAcked_lt, pure_bind]
      refine (addSat_yields h.cwnd_lt (by omega)).bind fun cwnd hcwnd => ?_
      have hge := h.cwnd_ge
      have hlt := h.caAcked_lt
      have hnext : { cc with caAcked := cc.caAcked - cc.cwnd, cwnd := cwnd }.Fits smss least :=
        ⟨hcwnd.2.1, hcwnd.2.2, h.ssthresh_ge, h.ssthresh_lt, h.initial_ge, h.initial_lt, by
          dsimp only
          omega⟩
      exact ih hnext (by dsimp only; omega)
    · simp only [Bool.and_eq_true, decide_eq_true_eq, not_and_or, not_le, not_not] at hmore
      exact Yields.pure ⟨h, hmore⟩

theorem newrenoOpen_yields (hacked : acked < 2 ^ 32) :
    Yields clean (newrenoOpen smss cc acked) fun cc' => cc'.Fits smss least := by
  have hincrease : (if acked < smss then acked else smss) < 2 ^ 32 := by
    split_ifs <;> omega
  rw [newrenoOpen]
  generalize (if acked < smss then acked else smss) = increase at hincrease ⊢
  split_ifs with hslow
  · refine (addSat_yields h.cwnd_lt hincrease).bind fun cwnd hcwnd => ?_
    exact Yields.pure (h.withCwnd (h.cwnd_ge.trans hcwnd.1) hcwnd.2.2)
  · refine (addSat_yields h.caAcked_lt hacked).bind fun caAcked hcaAcked => ?_
    have hcounted := h.withCaAcked hcaAcked.2.2
    exact (newrenoGrow_yields hpos hsmss hcounted le_rfl).mono fun cc' hcc' => hcc'.1

/-- An ACK under NewReno keeps the windows in range. -/
theorem newrenoOnAck_yields {event : AckEvent} :
    Yields clean (newrenoOnAck smss cc event) fun cc' => cc'.Fits smss least := by
  refine (recoveryAck_yields hsmss h).bind fun recovery hrecovery => ?_
  split_ifs
  · exact Yields.pure hrecovery.1
  · exact newrenoOpen_yields hpos hsmss hrecovery.1 event.ackedBytes.isLt

omit hpos hsmss h in
theorem newrenoOnLoss_yields {event : LossEvent} (hsmss : smss < 2 ^ 16)
    (hleast : least ≤ 2 * smss) (h : cc.Fits smss least) :
    Yields clean (newrenoOnLoss smss cc event) fun cc' => cc'.Fits smss least := by
  refine (ssthresh_yields hsmss event.flightSize.isLt (by decide) (by decide) (by decide)).bind
    fun threshold hthreshold => ?_
  have hlow := hleast.trans hthreshold.1
  by_cases hrto : event.reason = .rto
  · rw [if_pos hrto]
    apply Yields.pure
    have hkept := (h.withRtoSsthresh event.firstRtoForSeq hlow hthreshold.2).withCwnd
      (le_refl smss) (by omega)
    exact hkept.withCaAcked (Nat.two_pow_pos 32)
  · rw [if_neg hrto]
    refine (entryWindow_yields hsmss hthreshold.2).bind fun cwnd hcwnd => ?_
    apply Yields.pure
    have hentered := (h.withSsthresh hlow hthreshold.2).withCwnd
      ((show smss ≤ threshold by omega).trans hcwnd.1) hcwnd.2
    exact hentered.withCaAcked (Nat.two_pow_pos 32)

end NewReno

section Cubic

variable {cc : CcState} {ca : CubicState} {srttMs : BitVec 32}

/-- The words of CUBIC's own state. -/
structure CubicState.Fits (ca : CubicState) : Prop where
  credit_lt : ca.cubicCredit < 2 ^ 32
  wMax_lt : ca.wMax < 2 ^ 32
  wEst_lt : ca.wEst < 2 ^ 32
  kMs_lt : ca.kMs < 2 ^ 32
  rounds_lt : ca.phase = .css → ca.cssRounds < 5

variable (hpos : 0 < smss) (hsmss : smss < 2 ^ 16) (h : cc.Fits smss least) (hca : ca.Fits)

theorem cubicKMs_yields {wMax cwndEpoch : Nat} (hsmss : smss < 2 ^ 16) (hwMax : wMax < 2 ^ 32) :
    Yields clean (cubicKMs wMax cwndEpoch smss) fun k => k < 2 ^ 32 := by
  rw [cubicKMs]
  split_ifs with hflat
  · exact Yields.pure (by decide)
  · simp only [Bool.or_eq_true, decide_eq_true_eq, not_or, not_le] at hflat
    rw [sub_of_le hflat.1.le hwMax, pure_bind, mul_of_lt (by omega), pure_bind,
      mul_of_lt (by omega), pure_bind, mul_of_lt (by omega), pure_bind, div_of_pos (by omega),
      pure_bind]
    exact (cubicRoot_yields _).mono fun k hk => hk.1

theorem cubicWindowAt_yields {elapsedMs : Nat} (hsmss : smss < 2 ^ 16) (h : ca.Fits)
    (helapsed : elapsedMs < 2 ^ 32) :
    Yields clean (cubicWindowAt ca smss elapsedMs) fun w => w < 2 ^ 32 := by
  apply Yields.of_eq_pure (cubicWindowAt_eq (by omega) h.wMax_lt h.kMs_lt helapsed)
  exact min_lt_of_left_lt (by decide)

section Avoidance

include hsmss h hca

include hpos in
theorem cubicFriendly_yields (hacked : acked < 2 ^ 32) :
    Yields clean (cubicFriendly smss cc ca acked) fun w =>
      w ≤ ca.wEst + acked * smss / cc.cwnd ∧ w < 2 ^ 32 := by
  have hmax := uint32Max_eq
  have hge := h.cwnd_ge
  have hlt := h.cwnd_lt
  rw [cubicFriendly, if_pos (show cc.cwnd ≠ 0 by omega)]
  obtain ⟨num, den, hnum, hden, hle, hpos', hsmall⟩ : ∃ num den,
      (if ca.wEst ≥ ca.cwndPrior then 1 else 9) = num ∧
        (if ca.wEst ≥ ca.cwndPrior then 1 else 17) = den ∧ num ≤ den ∧ 0 < den ∧ den ≤ 17 := by
    refine ⟨_, _, rfl, rfl, ?_⟩
    split_ifs <;> decide
  rw [hnum, hden]
  have hweighted : num * acked < 2 ^ 37 := by
    calc num * acked ≤ 17 * acked := Nat.mul_le_mul_right acked (hle.trans hsmall)
      _ < 2 ^ 37 := by omega
  have hnumerator : num * acked * smss < 2 ^ 64 := by
    calc num * acked * smss < 2 ^ 37 * 2 ^ 16 := Nat.mul_lt_mul'' hweighted hsmss
      _ < 2 ^ 64 := by decide
  have hdenominator : den * cc.cwnd < 2 ^ 64 := by
    calc den * cc.cwnd ≤ 17 * cc.cwnd := Nat.mul_le_mul_right _ hsmall
      _ < 2 ^ 64 := by omega
  have hquotient : num * acked * smss / (den * cc.cwnd) ≤ acked := by
    apply Nat.div_le_of_le_mul
    calc num * acked * smss = num * smss * acked := Nat.mul_right_comm _ _ _
      _ ≤ den * cc.cwnd * acked := Nat.mul_le_mul_right acked (Nat.mul_le_mul hle hge)
  rw [mul_of_lt (hweighted.trans (by decide)), pure_bind, mul_of_lt hnumerator, pure_bind,
    mul_of_lt hdenominator, pure_bind, div_of_pos (Nat.mul_pos hpos' (by omega)), pure_bind,
    narrow_of_lt (hquotient.trans_lt hacked), pure_bind]
  have hshare : num * acked * smss / (den * cc.cwnd) ≤ acked * smss / cc.cwnd := by
    calc num * acked * smss / (den * cc.cwnd) ≤ den * (acked * smss) / (den * cc.cwnd) := by
          rw [Nat.mul_assoc]
          exact Nat.div_le_div_right (Nat.mul_le_mul_right _ hle)
      _ = acked * smss / cc.cwnd := Nat.mul_div_mul_left _ _ hpos'
  apply Yields.of_eq_pure (addSat_eq hca.wEst_lt)
  omega

/-- The target lies between the window and one and a half of it, also when the time it looks ahead
wraps. -/
theorem cubicTarget_yields {event : AckEvent} (hahead : clean →
      (event.nowMs - ca.epochStartMs).toNat + (cubicRtt srttMs event).toNat < 2 ^ 32) :
    Yields clean (cubicTarget smss cc ca event srttMs) fun target =>
      cc.cwnd ≤ target ∧ target ≤ cc.cwnd + cc.cwnd / 2 ∧ target < 2 ^ 32 := by
  have hmax := uint32Max_eq
  have hlt := h.cwnd_lt
  have htime : Yields clean
      (add 32 (event.nowMs - ca.epochStartMs).toNat (cubicRtt srttMs event).toNat)
      fun ahead => ahead < 2 ^ 32 := by
    constructor
    · exact Nat.mod_lt _ (Nat.two_pow_pos 32)
    · intro hclean
      rw [add_of_lt (hahead hclean)]
      rfl
  refine htime.bind fun ahead hword => ?_
  refine (cubicWindowAt_yields hsmss hca hword).bind fun target htarget => ?_
  rw [addSat_eq hlt, pure_bind]
  apply Yields.pure
  split_ifs <;> omega

include hpos in
theorem cubicApproach_yields {target : Nat} (hge : cc.cwnd ≤ target)
    (hle : target ≤ cc.cwnd + cc.cwnd / 2) (hlt : target < 2 ^ 32) :
    Yields clean (cubicApproach smss target cc ca) fun r =>
      (r.1.Fits smss least ∧ r.2.Fits ∧ r.2.wEst = ca.wEst) ∧ cc.cwnd ≤ r.1.cwnd ∧
        (ca.cubicCredit < cc.cwnd →
          r.1.cwnd ≤ cc.cwnd + (smss / 2 + 1) ∧ r.2.cubicCredit < cc.cwnd) := by
  have hmax := uint32Max_eq
  have hcwnd := h.cwnd_ge
  have hword := h.cwnd_lt
  have hcredit := hca.credit_lt
  rw [cubicApproach]
  split_ifs with hgrow
  · simp only [Bool.and_eq_true, decide_eq_true_eq] at hgrow
    have hearned : (target - cc.cwnd) * smss ≤ cc.cwnd * 2 ^ 16 :=
      Nat.mul_le_mul (by omega) hsmss.le
    have hhalf : (target - cc.cwnd) * smss ≤ cc.cwnd * (smss / 2 + 1) := by
      calc (target - cc.cwnd) * smss ≤ cc.cwnd / 2 * (2 * (smss / 2 + 1)) :=
            Nat.mul_le_mul (by omega) (by omega)
        _ = cc.cwnd / 2 * 2 * (smss / 2 + 1) := (Nat.mul_assoc ..).symm
        _ ≤ cc.cwnd * (smss / 2 + 1) := Nat.mul_le_mul_right _ (Nat.div_mul_le_self ..)
    rw [sub_of_le hge hlt, pure_bind, mul_of_lt (by omega), pure_bind]
    generalize (target - cc.cwnd) * smss = earned at hearned hhalf ⊢
    have hincrease : (ca.cubicCredit + earned) / cc.cwnd < 2 ^ 32 := by
      rw [Nat.div_lt_iff_lt_mul (by omega)]
      omega
    have hrest : (ca.cubicCredit + earned) % cc.cwnd < 2 ^ 32 :=
      (Nat.mod_lt _ (by omega)).trans hword
    rw [add_of_lt (by omega), pure_bind, div_of_pos (by omega), pure_bind, narrow_of_lt hincrease,
      pure_bind, mod_of_pos (by omega), pure_bind]
    have hopens : cc.cwnd ≤ min (cc.cwnd + (ca.cubicCredit + earned) / cc.cwnd) uint32Max :=
      le_min (Nat.le_add_right _ _) (by omega)
    rw [addSat_eq hword, pure_bind]
    refine Yields.pure ⟨⟨h.withCwnd (hcwnd.trans hopens) (min_lt_of_right_lt (by decide)),
      { hca with credit_lt := hrest }, rfl⟩, hopens, fun hless => ?_⟩
    have hstep : (ca.cubicCredit + earned) / cc.cwnd < smss / 2 + 2 := by
      rw [Nat.div_lt_iff_lt_mul (by omega), mul_comm, Nat.mul_succ]
      omega
    exact ⟨(min_le_left _ _).trans (by omega), Nat.mod_lt _ (by omega)⟩
  · exact Yields.pure ⟨⟨h, hca, rfl⟩, le_rfl, fun hless => ⟨Nat.le_add_right _ _, hless⟩⟩

omit hsmss h hca in
theorem CubicState.Fits.resetEpoch (h : ca.Fits) : (cubicResetEpoch ca).Fits :=
  ⟨Nat.two_pow_pos 32, h.wMax_lt, Nat.two_pow_pos 32, Nat.two_pow_pos 32, h.rounds_lt⟩

theorem cubicBeginEpoch_yields {nowMs : BitVec 32} :
    Yields clean (cubicBeginEpoch smss cc ca nowMs) fun ca' =>
      ca'.Fits ∧ ca'.epochStartMs = nowMs ∧ ca'.wEst = cc.cwnd ∧ ca'.cubicCredit = 0 := by
  rw [cubicBeginEpoch]
  split_ifs
  · exact Yields.pure ⟨⟨Nat.two_pow_pos 32, h.cwnd_lt, h.cwnd_lt, Nat.two_pow_pos 32,
      hca.rounds_lt⟩, rfl, rfl, rfl⟩
  · refine (cubicKMs_yields hsmss hca.wMax_lt).bind fun k hk => ?_
    exact Yields.pure
      ⟨⟨Nat.two_pow_pos 32, hca.wMax_lt, h.cwnd_lt, hk, hca.rounds_lt⟩, rfl, rfl, rfl⟩

/-- The estimate and the credit of a valid epoch are within the window. -/
def CubicState.Within (ca : CubicState) (cwnd : Nat) : Prop :=
  ca.epochValid = true → ca.wEst ≤ cwnd ∧ ca.cubicCredit < cwnd

/-- What an ACK of `acked` bytes in congestion avoidance does to the window. -/
def Approached (smss acked : Nat) (cc : CcState) (r : CcState × CubicState) : Prop :=
  cc.cwnd ≤ r.1.cwnd ∧ r.2.Within r.1.cwnd ∧
    r.1.cwnd ≤ cc.cwnd + max (smss / 2 + 1) (acked * smss / cc.cwnd)

include hpos in
/-- The window approaches the target of its epoch. -/
theorem cubicGrow_yields {event : AckEvent} (hahead : clean →
      (event.nowMs - ca.epochStartMs).toNat + (cubicRtt srttMs event).toNat < 2 ^ 32) :
    Yields clean (cubicGrow smss cc ca event srttMs) fun r => (r.1.Fits smss least ∧ r.2.Fits) ∧
      (ca.wEst ≤ cc.cwnd ∧ ca.cubicCredit < cc.cwnd →
        Approached smss event.ackedBytes.toNat cc r) := by
  have htouched : CubicState.Fits
      { ca with lastUpdateMs := event.nowMs, lastUpdateValid := true } :=
    { hca with }
  refine (cubicFriendly_yields hpos hsmss h htouched event.ackedBytes.isLt).bind
    fun wEst hwEst => ?_
  have hfriendly : CubicState.Fits
      { ca with lastUpdateMs := event.nowMs, lastUpdateValid := true, wEst := wEst } :=
    { hca with wEst_lt := hwEst.2 }
  refine (cubicTarget_yields hsmss h hfriendly hahead).bind fun target htarget => ?_
  refine (cubicApproach_yields hpos hsmss h hfriendly htarget.1 htarget.2.1 htarget.2.2).bind
    fun grown hgrown => ?_
  obtain ⟨⟨hwindow, hstate, hkept⟩, hopens, hstep⟩ := hgrown
  refine Yields.pure ⟨⟨hwindow.withCwnd ?_ ?_, hstate⟩, fun hlevel => ?_⟩
  · have := hwindow.cwnd_ge
    split_ifs <;> omega
  · have := hstate.wEst_lt
    have := hwindow.cwnd_lt
    split_ifs <;> omega
  · obtain ⟨hbound, hcredit⟩ := hstep hlevel.2
    have hfrom : wEst ≤ cc.cwnd + event.ackedBytes.toNat * smss / cc.cwnd :=
      hwEst.1.trans (Nat.add_le_add_right hlevel.1 _)
    refine ⟨?_, fun _ => ?_, ?_⟩ <;> dsimp only at hkept ⊢ <;> split_ifs <;> omega

/-- The time since the epoch of the state before an ACK began. -/
def CubicState.elapsed (ca : CubicState) (nowMs : BitVec 32) : Nat :=
  if ca.phase = .avoidance && ca.epochValid then (nowMs - ca.epochStartMs).toNat else 0

include hpos in
theorem cubicAvoidanceAck_yields {event : AckEvent}
    (hahead : clean → ca.epochValid = true → event.cwndLimited = true →
      (event.nowMs - ca.epochStartMs).toNat + (cubicRtt srttMs event).toNat < 2 ^ 32) :
    Yields clean (cubicAvoidanceAck smss cc ca event srttMs) fun r =>
      (r.1.Fits smss least ∧ r.2.Fits) ∧
        (ca.Within cc.cwnd → Approached smss event.ackedBytes.toNat cc r) := by
  have hbegun : Yields clean
      (if !ca.epochValid then cubicBeginEpoch smss cc ca event.nowMs else pure ca) fun ca' =>
        ca'.Fits ∧ (clean → event.cwndLimited = true →
          (event.nowMs - ca'.epochStartMs).toNat + (cubicRtt srttMs event).toNat < 2 ^ 32) ∧
        (ca.Within cc.cwnd → ca'.wEst ≤ cc.cwnd ∧ ca'.cubicCredit < cc.cwnd) := by
    split_ifs with hfresh
    · refine (cubicBeginEpoch_yields hsmss h hca).mono
        fun ca' ⟨hca', hstart, hwEst, hcredit⟩ => ⟨hca', fun _ _ => ?_, fun _ => ?_⟩
      · have hnow : (event.nowMs - ca'.epochStartMs).toNat = 0 := by
          rw [hstart, sub_self]
          rfl
        rw [hnow, zero_add]
        exact (cubicRtt srttMs event).isLt
      · exact ⟨hwEst.le, hcredit ▸ hpos.trans_le h.cwnd_ge⟩
    · have hvalid : ca.epochValid = true := by simpa using hfresh
      exact Yields.pure ⟨hca, fun hclean hlimited => hahead hclean hvalid hlimited, (· hvalid)⟩
  refine hbegun.bind fun ca' ⟨hca', htime, hlevel⟩ => ?_
  split_ifs with hlimited
  · exact Yields.pure ⟨⟨h, { hca' with }⟩,
      fun hwithin => ⟨le_rfl, fun _ => hlevel hwithin, Nat.le_add_right _ _⟩⟩
  · refine (cubicGrow_yields hpos hsmss h hca' fun hclean => htime hclean ?_).mono
      fun r hr => ⟨hr.1, fun hwithin => hr.2 (hlevel hwithin)⟩
    simpa using hlimited

end Avoidance

/-- The round of this ACK is the fifth in conservative slow start without a lower delay. -/
def CubicState.endsCss (ca : CubicState) (event : AckEvent) : Bool :=
  ca.phase = .css && !ca.hystartDone && event.rttSampleValid && ca.roundValid &&
    !Serial.lt event.ackSeq ca.roundEnd && ca.sampleCount ≠ 0 &&
    !(ca.currentRoundMinRtt < ca.cssBaselineMinRtt) && ca.cssRounds + 1 ≥ 5

/-- The delay of this ACK's round is compared with that of the last. -/
def CubicState.testsDelay (ca : CubicState) (event : AckEvent) : Bool :=
  !ca.hystartDone && event.rttSampleValid && ca.roundValid &&
    Serial.lt event.ackSeq ca.roundEnd && hystartTests (hystartCount ca event.rttSampleMs)

/-- The delay that ends slow start fits its word. -/
def CubicState.DelayFits (ca : CubicState) : Prop :=
  ca.lastRoundMinRtt.toNat + (hystartThreshold ca).toNat < 2 ^ 32

instance (ca : CubicState) : Decidable ca.DelayFits :=
  inferInstanceAs (Decidable (_ < _))

theorem hystartSample_yields {rttSampleMs : BitVec 32} (hca : ca.Fits)
    (hdelay : clean → hystartTests (hystartCount ca rttSampleMs) = true → ca.DelayFits) :
    Yields clean (hystartSample ca rttSampleMs) fun ca' =>
      ca'.Fits ∧ ∀ cwnd, ca.Within cwnd → ca'.Within cwnd := by
  have hcount : (hystartCount ca rttSampleMs).Fits := { hca with }
  rw [hystartSample]
  split_ifs with htests
  · refine Yields.bind (P := fun _ => True) ?_ fun limit _ => ?_
    · exact Yields.narrow (fun _ => trivial) fun hclean => hdelay hclean htests
    split_ifs
    · exact Yields.pure ⟨{ hcount with rounds_lt := fun _ => Nat.succ_pos 4 }, fun _ => id⟩
    · exact Yields.pure ⟨hcount, fun _ => id⟩
  · exact Yields.pure ⟨hcount, fun _ => id⟩

/-- The first sample of a round is not enough for a test. -/
theorem hystartBegun_yields {rttSampleMs : BitVec 32} (hca : ca.Fits) (sndNxt : Seq) :
    Yields clean (hystartSample (hystartBeginRound ca sndNxt) rttSampleMs) fun ca' =>
      ca'.Fits ∧ ∀ cwnd, ca.Within cwnd → ca'.Within cwnd := by
  have hnone : hystartTests (hystartCount (hystartBeginRound ca sndNxt) rttSampleMs) = false :=
    Bool.and_false _
  have hfits : (hystartBeginRound ca sndNxt).Fits := { hca with }
  exact hystartSample_yields hfits fun _ htests => absurd htests (by simp [hnone])

/-- What HyStart keeps: every bound, the window itself, and the epoch unless it ends it. -/
structure Paced (smss least : Nat) (cc : CcState) (ca : CubicState) (r : CcState × CubicState) :
    Prop where
  windows : r.1.Fits smss least
  state : r.2.Fits
  cwnd_eq : r.1.cwnd = cc.cwnd
  within : ∀ cwnd, ca.Within cwnd → r.2.Within cwnd

/-- Only the end of conservative slow start touches a window, and it sets the threshold. -/
theorem hystartFinishRound_yields (h : cc.Fits smss least) (hca : ca.Fits)
    (hleave : ca.sampleCount ≠ 0 → ca.phase = .css →
      ¬ca.currentRoundMinRtt < ca.cssBaselineMinRtt → ca.cssRounds + 1 ≥ 5 → least ≤ cc.cwnd) :
    Yields clean (hystartFinishRound cc ca) (Paced smss least cc ca) := by
  rw [hystartFinishRound]
  by_cases hsampled : ca.sampleCount ≠ 0
  · rw [if_pos hsampled]
    have hfinished : Yields clean
        (if ca.phase = .css then hystartFinishCss cc ca else pure (cc, ca))
        (Paced smss least cc ca) := by
      by_cases hcss : ca.phase = .css
      · have hrounds := hca.rounds_lt hcss
        rw [if_pos hcss, hystartFinishCss, add_of_lt (by omega), pure_bind]
        split_ifs with hlower hfive
        · exact Yields.pure ⟨h, { hca with rounds_lt := nofun }, rfl, fun _ => id⟩
        · exact Yields.pure ⟨h.withSsthresh (hleave hsampled hcss hlower hfive) h.cwnd_lt,
            { hca.resetEpoch with rounds_lt := nofun }, rfl, fun _ _ => nofun⟩
        · exact Yields.pure ⟨h, { hca with rounds_lt := fun _ => not_le.mp hfive }, rfl,
            fun _ => id⟩
      · rw [if_neg hcss]
        exact Yields.pure ⟨h, hca, rfl, fun _ => id⟩
    refine hfinished.bind fun r hr => ?_
    exact Yields.pure ⟨hr.windows, { hr.state with }, hr.cwnd_eq, hr.within⟩
  · rw [if_neg hsampled]
    exact Yields.pure ⟨h, hca, rfl, fun _ => id⟩

theorem hystartUpdate_yields {event : AckEvent} (h : cc.Fits smss least) (hca : ca.Fits)
    (hleave : ca.endsCss event = true → least ≤ cc.cwnd)
    (hdelay : clean → ca.testsDelay event = true → ca.DelayFits) :
    Yields clean (hystartUpdate cc ca event) (Paced smss least cc ca) := by
  rw [hystartUpdate]
  by_cases hoff : (ca.hystartDone || ca.phase = .avoidance || !event.rttSampleValid) = true
  · rw [if_pos hoff]
    exact Yields.pure ⟨h, hca, rfl, fun _ => id⟩
  rw [if_neg hoff]
  by_cases hround : (!ca.roundValid) = true
  · rw [if_pos hround]
    refine (hystartBegun_yields hca event.sndNxt).bind fun ca' hca' => ?_
    exact Yields.pure ⟨h, hca'.1, rfl, hca'.2⟩
  rw [if_neg hround]
  by_cases hdone : (!Serial.lt event.ackSeq ca.roundEnd) = true
  · rw [if_pos hdone]
    have hfinished : Yields clean (hystartFinishRound cc ca) (Paced smss least cc ca) := by
      apply hystartFinishRound_yields h hca
      intro hsampled hcss hlower hfive
      apply hleave
      simp_all [CubicState.endsCss]
    refine hfinished.bind fun r hr => ?_
    split_ifs
    · exact Yields.pure hr
    · refine (hystartBegun_yields hr.state event.sndNxt).bind fun ca' hca' => ?_
      exact Yields.pure ⟨hr.windows, hca'.1, hr.cwnd_eq, fun n hn => hca'.2 n (hr.within n hn)⟩
  · rw [if_neg hdone]
    refine (hystartSample_yields hca fun hclean htests => hdelay hclean ?_).bind
      fun ca' hca' => Yields.pure ⟨h, hca'.1, rfl, hca'.2⟩
    simp_all [CubicState.testsDelay]

theorem cubicSlowStartIncrease_yields {phase : CubicPhase} (hsmss : smss < 2 ^ 16)
    (hacked : acked < 2 ^ 32) :
    Yields clean (cubicSlowStartIncrease smss phase acked) fun n => n < 2 ^ 32 ∧
      n ≤ max 1 (min acked (8 * smss)) ∧ (phase = .css → n ≤ max 1 (min acked (8 * smss) / 4)) := by
  have hmax := uint32Max_eq
  rw [cubicSlowStartIncrease, mul_of_lt (by omega), pure_bind, if_neg (by omega)]
  apply Yields.pure
  split_ifs with hless hcss hzero <;> simp_all <;> omega

/-- The flow is in slow start, conservative or not. -/
def SlowStart (cc : CcState) (ca : CubicState) : Prop :=
  cc.cwnd < cc.ssthresh ∧ ca.phase ≠ .avoidance

/-- What an ACK of `acked` bytes outside recovery does to the window. -/
structure Grown (smss acked : Nat) (cc : CcState) (ca : CubicState) (r : CcState × CubicState) :
    Prop where
  cwnd_le : cc.cwnd ≤ r.1.cwnd
  within : r.2.Within r.1.cwnd
  slowStart : SlowStart cc ca → r.1.cwnd ≤ cc.cwnd + max 1 (min acked (8 * smss))
  css : SlowStart cc ca → r.2.phase = .css →
    r.1.cwnd ≤ cc.cwnd + max 1 (min acked (8 * smss) / 4)
  avoidance : ¬SlowStart cc ca →
    r.1.cwnd ≤ cc.cwnd + max (smss / 2 + 1) (acked * smss / cc.cwnd)

section Growth

include hsmss h hca

theorem cubicSlowStart_yields {event : AckEvent} (hslow : SlowStart cc ca)
    (hleave : ca.endsCss event = true → least ≤ cc.cwnd)
    (hdelay : clean → ca.testsDelay event = true → ca.DelayFits) :
    Yields clean (cubicSlowStart smss cc ca event) fun r => (r.1.Fits smss least ∧ r.2.Fits) ∧
      (ca.Within cc.cwnd → Grown smss event.ackedBytes.toNat cc ca r) := by
  have hmax := uint32Max_eq
  have hlt := h.cwnd_lt
  refine (hystartUpdate_yields h hca hleave hdelay).bind
    fun updated ⟨hwindows, hstate, hsame, hkeeps⟩ => ?_
  split_ifs
  · exact Yields.pure ⟨⟨hwindows, hstate⟩, fun hwithin => ⟨hsame.ge, hsame ▸ hkeeps _ hwithin,
      fun _ => by omega, fun _ _ => by omega, absurd hslow⟩⟩
  · refine (cubicSlowStartIncrease_yields hsmss event.ackedBytes.isLt).bind
      fun n ⟨hword, hcap, hcss⟩ => ?_
    rw [hsame, addSat_eq hlt, pure_bind]
    have hopens : cc.cwnd ≤ min (cc.cwnd + n) uint32Max := by omega
    refine Yields.pure ⟨⟨hwindows.withCwnd (h.cwnd_ge.trans hopens) (by omega), hstate⟩,
      fun hwithin => ⟨hopens, fun hvalid => ?_, fun _ => ?_, fun _ hphase => ?_, absurd hslow⟩⟩
    · have hlevel := hkeeps _ hwithin hvalid
      exact ⟨hlevel.1.trans hopens, hlevel.2.trans_le hopens⟩
    · exact (min_le_left _ _).trans (Nat.add_le_add_left hcap _)
    · exact (min_le_left _ _).trans (Nat.add_le_add_left (hcss hphase) _)

include hpos

theorem cubicOpen_yields {event : AckEvent}
    (hleave : cc.cwnd < cc.ssthresh → ca.endsCss event = true → least ≤ cc.cwnd)
    (hdelay : clean → cc.cwnd < cc.ssthresh → ca.testsDelay event = true → ca.DelayFits)
    (hahead : clean → event.cwndLimited = true →
      ca.elapsed event.nowMs + (cubicRtt srttMs event).toNat < 2 ^ 32) :
    Yields clean (cubicOpen smss cc ca event srttMs) fun r => (r.1.Fits smss least ∧ r.2.Fits) ∧
      (ca.Within cc.cwnd → Grown smss event.ackedBytes.toNat cc ca r) := by
  rw [cubicOpen]
  by_cases hslow : SlowStart cc ca
  · rw [if_pos (by simpa [SlowStart] using hslow)]
    exact cubicSlowStart_yields hsmss h hca hslow (hleave hslow.1)
      fun hclean => hdelay hclean hslow.1
  rw [if_neg (by simpa [SlowStart] using hslow)]
  refine Yields.mono (P := fun r => (r.1.Fits smss least ∧ r.2.Fits) ∧
    (ca.Within cc.cwnd → Approached smss event.ackedBytes.toNat cc r)) ?_ fun r hr =>
      ⟨hr.1, fun hwithin => ?_⟩
  · split_ifs with hfirst
    · refine Yields.mono (cubicAvoidanceAck_yields hpos hsmss h ?_ fun _ => nofun)
        fun r hr => ⟨hr.1, fun _ => hr.2 nofun⟩
      exact { hca.resetEpoch with rounds_lt := nofun }
    · refine cubicAvoidanceAck_yields hpos hsmss h hca fun hclean hbegun hlimited => ?_
      have hphase : ca.phase = .avoidance := by simpa using hfirst
      have htime := hahead hclean hlimited
      rwa [CubicState.elapsed, if_pos (by simp [hphase, hbegun])] at htime
  · obtain ⟨hopens, hkeeps, hbound⟩ := hr.2 hwithin
    exact ⟨hopens, hkeeps, (absurd · hslow), (absurd · hslow), fun _ => hbound⟩

/-- An ACK under CUBIC, in recovery, slow start or avoidance. -/
theorem cubicOnAck_yields {event : AckEvent}
    (hleave : event.inRecovery = false → event.ackedBytes ≠ 0 → cc.cwnd < cc.ssthresh →
      ca.endsCss event = true → least ≤ cc.cwnd)
    (hdelay : clean → event.inRecovery = false → event.ackedBytes ≠ 0 → cc.cwnd < cc.ssthresh →
      ca.testsDelay event = true → ca.DelayFits)
    (hahead : clean → event.inRecovery = false → event.ackedBytes ≠ 0 →
      event.cwndLimited = true → ca.elapsed event.nowMs + (cubicRtt srttMs event).toNat < 2 ^ 32) :
    Yields clean (cubicOnAck smss cc ca event srttMs) fun r => (r.1.Fits smss least ∧ r.2.Fits) ∧
      (event.inRecovery = true → r.2 = ca) ∧ (event.inRecovery = false → ca.Within cc.cwnd →
        Grown smss event.ackedBytes.toNat cc ca r) := by
  refine (recoveryAck_yields hsmss h).bind fun recovery hrecovery => ?_
  obtain ⟨consumed, cc'⟩ := recovery
  obtain ⟨hfits, hconsumed, hsame⟩ := hrecovery
  split_ifs with hend
  · refine Yields.pure ⟨⟨hfits, hca⟩, fun _ => rfl, fun hout hwithin => ?_⟩
    rw [hsame hout]
    exact ⟨le_rfl, hwithin, fun _ => Nat.le_add_right _ _, fun _ _ => Nat.le_add_right _ _,
      fun _ => Nat.le_add_right _ _⟩
  · simp only [Bool.or_eq_true, decide_eq_true_eq, not_or, Bool.not_eq_true] at hend
    have hout : event.inRecovery = false := hconsumed ▸ hend.1
    obtain rfl : cc' = cc := hsame hout
    refine (cubicOpen_yields hpos hsmss h hca (hleave hout hend.2)
      (fun hclean => hdelay hclean hout hend.2) fun hclean => hahead hclean hout hend.2).mono
        fun r hr => ⟨hr.1, ?_, fun _ => hr.2⟩
    exact fun hin => absurd hin (by simp [hout])

end Growth

theorem cubicPlateau_yields (h : cc.Fits smss least) :
    Yields clean (cubicPlateau cc ca) fun w => w < 2 ^ 32 := by
  have hlt := h.cwnd_lt
  rw [cubicPlateau]
  split_ifs
  · rw [mul_of_lt (by omega), pure_bind, div_of_pos (by decide), pure_bind]
    exact Yields.of_eq_pure (narrow_of_lt (by omega)) (by omega)
  · exact Yields.pure hlt

/-- A loss under CUBIC keeps the windows in range. -/
theorem cubicOnLoss_yields {event : LossEvent} (hsmss : smss < 2 ^ 16)
    (hleast : least ≤ 2 * smss) (h : cc.Fits smss least) (hca : ca.Fits) :
    Yields clean (cubicOnLoss smss cc ca event) fun r => r.1.Fits smss least ∧ r.2.Fits := by
  refine (ssthresh_yields hsmss event.flightSize.isLt (by decide) (by decide) (by decide)).bind
    fun threshold hthreshold => ?_
  have hlow := hleast.trans hthreshold.1
  by_cases hrto : event.reason = .rto
  · rw [if_pos hrto]
    refine Yields.pure ⟨?_, { hca.resetEpoch with rounds_lt := nofun }⟩
    exact (h.withRtoSsthresh event.firstRtoForSeq hlow hthreshold.2).withCwnd le_rfl (by omega)
  · rw [if_neg hrto]
    refine (cubicPlateau_yields h).bind fun wMax hwMax => ?_
    refine (entryWindow_yields hsmss hthreshold.2).bind fun cwnd hcwnd => ?_
    have hentered := (h.withSsthresh hlow hthreshold.2).withCwnd
      ((show smss ≤ threshold by omega).trans hcwnd.1) hcwnd.2
    exact Yields.pure ⟨hentered.withCaAcked (Nat.two_pow_pos 32),
      { hca.resetEpoch with wMax_lt := hwMax, rounds_lt := nofun }⟩

end Cubic

section Runs

variable {st : CcStream} {e : CcEvent}

/-- The windows of a stream keep their bounds. -/
structure CcStream.Fits (least : Nat) (st : CcStream) : Prop where
  windows : st.cc.Fits st.smss least
  state : st.ca.Fits

/-- The event is an ACK that CUBIC uses for growth. -/
def CcStream.grows (st : CcStream) (event : AckEvent) : Bool :=
  st.algorithm = .cubic && !event.inRecovery && event.ackedBytes ≠ 0

/-- Conservative slow start does not end with this event, or ends in a window of `least` bytes. -/
def CcStream.LeavesCss (least : Nat) (st : CcStream) : CcEvent → Prop
  | .ack event _ => st.grows event = true → st.cc.cwnd < st.cc.ssthresh →
      st.ca.endsCss event = true → least ≤ st.cc.cwnd
  | _ => True

/-- The delay that HyStart compares with and the time that CUBIC looks ahead fit their words. -/
def CcStream.TimesFit (st : CcStream) : CcEvent → Prop
  | .ack event srttMs => st.grows event = true →
      (st.cc.cwnd < st.cc.ssthresh → st.ca.testsDelay event = true → st.ca.DelayFits) ∧
        (event.cwndLimited = true →
          st.ca.elapsed event.nowMs + (cubicRtt srttMs event).toNat < 2 ^ 32)
  | _ => True

instance (least : Nat) (st : CcStream) : (e : CcEvent) → Decidable (st.LeavesCss least e)
  | .ack event _ => inferInstanceAs (Decidable (st.grows event = true →
      st.cc.cwnd < st.cc.ssthresh → st.ca.endsCss event = true → least ≤ st.cc.cwnd))
  | .setOps _ _ | .reset _ | .packetSent _ | .loss _ | .rto _ | .recoveryExit | .idleRestart _ _ =>
    inferInstanceAs (Decidable True)

instance (st : CcStream) : (e : CcEvent) → Decidable (st.TimesFit e)
  | .ack event srttMs => inferInstanceAs (Decidable (st.grows event = true →
      (st.cc.cwnd < st.cc.ssthresh → st.ca.testsDelay event = true → st.ca.DelayFits) ∧
        (event.cwndLimited = true →
          st.ca.elapsed event.nowMs + (cubicRtt srttMs event).toNat < 2 ^ 32)))
  | .setOps _ _ | .reset _ | .packetSent _ | .loss _ | .rto _ | .recoveryExit | .idleRestart _ _ =>
    inferInstanceAs (Decidable True)

theorem ccInit_yields (sndMss : BitVec 16) (hleast : least ≤ 2 * tcpCcSmss sndMss)
    (synRetransmitted : Bool) :
    Yields clean (ccInit (tcpCcSmss sndMss) synRetransmitted) fun r =>
      r.1.Fits (tcpCcSmss sndMss) least ∧ r.2.Fits := by
  refine (initWindows_yields (smss_bounds sndMss).2 hleast synRetransmitted).bind fun cc hcc => ?_
  exact Yields.pure ⟨hcc, Nat.two_pow_pos 32, Nat.two_pow_pos 32, Nat.two_pow_pos 32,
    Nat.two_pow_pos 32, nofun⟩

/-- What one event keeps. -/
theorem ccDispatch_yields (hone : st.smss ≤ least) (hleast : least ≤ 2 * st.smss)
    (h : st.Fits least) (hcss : st.LeavesCss least e) :
    Yields (st.TimesFit e) (ccDispatch st e) fun r =>
      r.1.Fits st.smss least ∧ r.2.Fits := by
  obtain ⟨hwindows, hstate⟩ := h
  obtain ⟨hpos, hsmss⟩ := smss_bounds st.sndMss
  have hloss : ∀ event : LossEvent, Yields (st.TimesFit e) (ccDispatch st (.loss event)) fun r =>
      r.1.Fits st.smss least ∧ r.2.Fits := by
    intro event
    rw [ccDispatch]
    cases st.algorithm with
    | newreno =>
      refine (newrenoOnLoss_yields hsmss hleast hwindows).bind fun cc hcc => ?_
      exact Yields.pure ⟨hcc, hstate⟩
    | cubic => exact cubicOnLoss_yields hsmss hleast hwindows hstate
  cases e with
  | setOps algorithm synRetransmitted | reset synRetransmitted =>
    exact ccInit_yields st.sndMss hleast synRetransmitted
  | packetSent nowMs =>
    exact Yields.pure ⟨{ hwindows with }, hstate⟩
  | loss event | rto event => exact hloss event
  | ack event srttMs =>
    rw [ccDispatch]
    cases halgorithm : st.algorithm with
    | newreno =>
      refine (newrenoOnAck_yields hpos hsmss hwindows).bind fun cc hcc => ?_
      exact Yields.pure ⟨hcc, hstate⟩
    | cubic =>
      have hgrows : event.inRecovery = false → event.ackedBytes ≠ 0 →
          st.grows event = true := by
        intro hout hacked
        rw [CcStream.grows, halgorithm, hout]
        exact decide_eq_true hacked
      refine Yields.mono (cubicOnAck_yields hpos hsmss hwindows hstate ?_ ?_ ?_) fun r hr => hr.1
      · exact fun hout hacked => hcss (hgrows hout hacked)
      · exact fun hclean hout hacked => (hclean (hgrows hout hacked)).1
      · exact fun hclean hout hacked => (hclean (hgrows hout hacked)).2
  | recoveryExit =>
    have hcapped := hwindows.cap (hone.trans hwindows.ssthresh_ge)
    rw [ccDispatch]
    cases st.algorithm with
    | newreno => exact Yields.pure ⟨hcapped.withCaAcked (Nat.two_pow_pos 32), hstate⟩
    | cubic =>
      exact Yields.pure ⟨hcapped.withCaAcked (Nat.two_pow_pos 32), hstate.resetEpoch⟩
  | idleRestart nowMs rtoMs =>
    have hcapped := hwindows.cap hwindows.initial_ge
    rw [ccDispatch]
    split_ifs
    · cases st.algorithm with
      | newreno => exact Yields.pure ⟨hcapped.withCaAcked (Nat.two_pow_pos 32), hstate⟩
      | cubic => exact Yields.pure ⟨hcapped, hstate.resetEpoch⟩
    · exact Yields.pure ⟨hwindows, hstate⟩

/-- Every event keeps the windows in range. -/
theorem ccStep_fits (hone : st.smss ≤ least) (hleast : least ≤ 2 * st.smss) (h : st.Fits least)
    (hcss : st.LeavesCss least e) : (ccStep st e).Fits least := by
  have hstep := (ccDispatch_yields hone hleast h hcss).value
  exact ⟨hstep.1, hstep.2⟩

theorem ccInit_fits (h : ccSystem.init st) (hleast : least ≤ 2 * st.smss) :
    st.Fits least ∧ st.inexact = false := by
  obtain ⟨fresh, algorithm, synRetransmitted, hexact, rfl⟩ := h
  have hinit : Yields True (ccDispatch fresh (.setOps algorithm synRetransmitted)) fun r =>
      r.1.Fits fresh.smss least ∧ r.2.Fits := ccInit_yields fresh.sndMss hleast synRetransmitted
  refine ⟨⟨hinit.value.1, hinit.value.2⟩, ?_⟩
  change (fresh.inexact || _) = false
  rw [hexact, hinit.exact_of trivial]
  rfl

/-- One segment under both windows is kept by every event. -/
theorem ccStep_fits_segment (h : st.Fits st.smss) (e : CcEvent) : (ccStep st e).Fits st.smss := by
  apply ccStep_fits le_rfl (by omega) h
  cases e with
  | ack event srttMs => exact fun _ _ _ => h.windows.cwnd_ge
  | _ => trivial

/-- Conservative slow start never ends below two segments, and neither the delay HyStart compares
with nor the time CUBIC looks ahead exceeds its word. -/
def Roomy (st : CcStream) (e : CcEvent) : Prop :=
  st.LeavesCss (2 * st.smss) e ∧ st.TimesFit e

instance (st : CcStream) (e : CcEvent) : Decidable (Roomy st e) :=
  inferInstanceAs (Decidable (_ ∧ _))

/-- In every run of either algorithm in which conservative slow start does not end below two
segments and the two sums of times fit their words, the window keeps one segment, the threshold two,
and nothing has wrapped or been divided by zero. -/
theorem congestion_control_safe (h : ccSystem.Reach Roomy st) :
    st.smss ≤ st.cc.cwnd ∧ 2 * st.smss ≤ st.cc.ssthresh ∧ st.inexact = false := by
  have hinv : st.Fits (2 * st.smss) ∧ st.inexact = false := by
    apply h.invariant (P := fun st => st.Fits (2 * st.smss) ∧ st.inexact = false)
    · intro st hinit
      exact ccInit_fits hinit le_rfl
    · rintro st e ⟨hfits, hexact⟩ _ ⟨hcss, hahead⟩
      have hnext : (ccStep st e).Fits (2 * st.smss) := ccStep_fits (by omega) le_rfl hfits hcss
      refine ⟨hnext, ?_⟩
      have hstep := (ccDispatch_yields (by omega) le_rfl hfits hcss).exact_of hahead
      change (st.inexact || (ccDispatch st e).wrapped) = false
      rw [hexact, hstep]
      rfl
  exact ⟨hinv.1.windows.cwnd_ge, hinv.1.windows.ssthresh_ge, hinv.2⟩

/-- A stream with segments of 1460 bytes whose SYN was retransmitted. -/
def cautiousStream (algorithm : Algorithm) : CcStream :=
  ccStep { sndMss := 1460, algorithm := algorithm } (.setOps algorithm true)

theorem cautiousStream_run {ok : CcStream → CcEvent → Prop} (algorithm : Algorithm)
    (events : List CcEvent) (h : ccSystem.Admissible ok (cautiousStream algorithm) events) :
    ccSystem.Reach ok (ccSystem.run (cautiousStream algorithm) events) :=
  System.Reach.run (.init ⟨_, algorithm, true, rfl, rfl⟩) h

/-- One byte of an application-limited flow is acknowledged. -/
def limitedAck (ackSeq sndNxt : Seq) (rttSampleMs : BitVec 32) : CcEvent :=
  .ack { ackSeq := ackSeq, sndNxt := sndNxt, ackedBytes := 1, rttSampleMs := rttSampleMs,
         rttSampleValid := true } 0

/-- A round with the delay `first`, then eight samples of the delay `later`. -/
def delayRises (first later : BitVec 32) : List CcEvent :=
  [limitedAck 1 10 first, limitedAck 10 20 later] ++ List.replicate 7 (limitedAck 15 20 later)

/-- The delay doubles in the second round and stays there: conservative slow start begins, and five
rounds end it. -/
def delayDoubles : List CcEvent :=
  delayRises 100 200 ++
    [limitedAck 20 30 200, limitedAck 30 40 200, limitedAck 40 50 200, limitedAck 50 60 200,
      limitedAck 60 70 200]

/-- Loss, then two ACKs of a flow limited by its window, the second after `later` milliseconds. -/
def ackedLater (later : BitVec 32) : List CcEvent :=
  [.loss ⟨.sack, 5000, false⟩, .ack { ackedBytes := 1460, cwndLimited := true } 100,
    .ack { ackedBytes := 1460, cwndLimited := true, nowMs := later } 100]

/-- Two seconds after a loss. -/
theorem congestion_control_safe_acked :
    let st := ccSystem.run (cautiousStream .cubic) (ackedLater 2000)
    st.smss = 1460 ∧ st.smss ≤ st.cc.cwnd ∧ 2 * st.smss ≤ st.cc.ssthresh ∧ st.inexact = false :=
  ⟨by decide +kernel,
    congestion_control_safe (cautiousStream_run .cubic (ackedLater 2000) (by decide +kernel))⟩

/-- CUBIC sets the threshold to a window of one segment.  49 days after a loss the time it looks
ahead wraps.  A delay close to the largest word wraps the sum it is compared with, and a delay that
stays the same then starts conservative slow start. -/
theorem cubic_threshold_and_times :
    (∃ st, ccSystem.Reach (fun _ _ => True) st ∧ st.smss = 1460 ∧ st.cc.ssthresh = 1460) ∧
      (∃ st, ccSystem.Reach (fun _ _ => True) st ∧ st.inexact = true) ∧
      let st := ccSystem.run (cautiousStream .cubic) (delayRises 4294967290 4294967290)
      ccSystem.Reach (fun st e => st.LeavesCss (2 * st.smss) e) st ∧ st.ca.phase = .css ∧
        st.inexact = true :=
  ⟨⟨_, cautiousStream_run .cubic delayDoubles (by decide +kernel), by decide +kernel⟩,
    ⟨_, cautiousStream_run .cubic (ackedLater 4294967200) (by decide +kernel),
      by decide +kernel⟩,
    cautiousStream_run .cubic _ (by decide +kernel), by decide +kernel⟩

end Runs

end SnowTG.Tcp.Cc
