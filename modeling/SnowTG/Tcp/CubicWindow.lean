import SnowTG.Tcp.Congestion

/-!
# The cubic window

`cubic_root` computes the integer cube root.  `cubic_window_at` is the cubic curve
over the integers, clamped to the word.
-/

namespace SnowTG.Tcp.Cc

open SnowTG.Lib.Checked (Yields narrow_of_lt add_of_lt mul_of_lt sub_of_le div_of_pos)

variable {clean : Prop} {smss : Nat} {ca : CubicState}

theorem smss_bounds (sndMss : BitVec 16) : 0 < tcpCcSmss sndMss ∧ tcpCcSmss sndMss < 2 ^ 16 := by
  rw [tcpCcSmss]
  split_ifs with hzero
  · refine ⟨Nat.pos_of_ne_zero fun h => hzero ?_, sndMss.isLt⟩
    exact BitVec.eq_of_toNat_eq h
  · decide

theorem cube_lt {n : Nat} (h : n < 2 ^ 32) : n * n < 2 ^ 64 ∧ n * n * n < 2 ^ 96 := by
  have hsquare : n * n < 2 ^ 32 * 2 ^ 32 := Nat.mul_lt_mul'' h h
  have hcube : n * n * n < 2 ^ 32 * 2 ^ 32 * 2 ^ 32 := Nat.mul_lt_mul'' hsquare h
  exact ⟨hsquare.trans_le (by decide), hcube.trans_le (by decide)⟩

/-- Bisection: the cube of the lower end does not exceed the value, and that of the number behind
the upper end does unless the search started there. -/
theorem cubicRootFrom_yields {value rounds low high : Nat} (hle : low ≤ high)
    (hhigh : high < 2 ^ 32) (hrounds : high - low < 2 ^ rounds) (hlow : low * low * low ≤ value)
    (hvalue : high = uint32Max ∨ value < (high + 1) * (high + 1) * (high + 1)) :
    Yields clean (cubicRootFrom value rounds low high) fun r =>
      r < 2 ^ 32 ∧ r * r * r ≤ value ∧ (r = uint32Max ∨ value < (r + 1) * (r + 1) * (r + 1)) := by
  induction rounds generalizing low high with
  | zero =>
    obtain rfl : low = high := by
      rw [Nat.pow_zero] at hrounds
      omega
    exact Yields.pure ⟨hhigh, hlow, hvalue⟩
  | succ rounds ih =>
    rw [Nat.pow_succ] at hrounds
    rw [cubicRootFrom]
    split_ifs with hlt
    · rw [sub_of_le hle (by omega), pure_bind, add_of_lt (by omega), pure_bind,
        add_of_lt (by omega), pure_bind]
      generalize hmid : low + (high - low + 1) / 2 = mid
      obtain ⟨hsquare, hcube⟩ := cube_lt (show mid < 2 ^ 32 by omega)
      rw [mul_of_lt (hsquare.trans (by decide)), pure_bind, mul_of_lt (hcube.trans (by decide)),
        pure_bind]
      split_ifs with hfits
      · exact ih (by omega) hhigh (by omega) hfits hvalue
      · rw [sub_of_le (by omega) (by omega), pure_bind]
        refine ih (by omega) (by omega) (by omega) hlow (.inr ?_)
        rw [Nat.sub_add_cancel (by omega)]
        exact not_le.mp hfits
    · obtain rfl : low = high := by omega
      exact Yields.pure ⟨hhigh, hlow, hvalue⟩

/-- `cubic_root` returns the integer cube root, bounded by the word size. -/
theorem cubicRoot_yields (value : Nat) :
    Yields clean (cubicRoot value) fun r => r < 2 ^ 32 ∧ r * r * r ≤ value ∧
      (r = uint32Max ∨ value < (r + 1) * (r + 1) * (r + 1)) := by
  refine (cubicRootFrom_yields zero_le (by decide) (by decide) zero_le
    (.inl rfl)).bind fun r hr => ?_
  exact Yields.of_eq_pure (narrow_of_lt hr.1) hr

/-- How far the curve is from its plateau at a distance in time. -/
def cubicDelta (smss distance : Nat) : Nat :=
  distance * distance * distance * (smss * 2) / (5 * 1000000000)

theorem cubicDelta_mono (smss : Nat) : Monotone (cubicDelta smss) := by
  intro near far h
  exact Nat.div_le_div_right (Nat.mul_le_mul_right _ (Nat.mul_le_mul (Nat.mul_le_mul h h) h))

/-- The cubic curve over the integers. -/
def cubicCurve (wMax kMs smss elapsedMs : Nat) : Int :=
  if elapsedMs < kMs then wMax - cubicDelta smss (kMs - elapsedMs)
  else wMax + cubicDelta smss (elapsedMs - kMs)

theorem cubicCurve_mono (wMax kMs smss : Nat) : Monotone (cubicCurve wMax kMs smss) := by
  intro early late h
  have hbefore := cubicDelta_mono smss (Nat.sub_le_sub_left h kMs)
  have hafter := cubicDelta_mono smss (Nat.sub_le_sub_right h kMs)
  rw [cubicCurve, cubicCurve]
  split_ifs <;> omega

/-- Nothing wraps for segments of up to 2 GiB. -/
theorem cubicWindowAt_eq {elapsedMs : Nat} (hsmss : smss ≤ 2 ^ 31) (hw : ca.wMax < 2 ^ 32)
    (hk : ca.kMs < 2 ^ 32) (helapsed : elapsedMs < 2 ^ 32) :
    cubicWindowAt ca smss elapsedMs =
      pure (min uint32Max (cubicCurve ca.wMax ca.kMs smss elapsedMs).toNat) := by
  have hmax : uint32Max = 2 ^ 32 - 1 := rfl
  have hdistance : ((elapsedMs : Int) - ca.kMs).natAbs =
      if elapsedMs < ca.kMs then ca.kMs - elapsedMs else elapsedMs - ca.kMs := by
    split_ifs <;> omega
  obtain ⟨hsquare, hcube⟩ :=
    cube_lt (show ((elapsedMs : Int) - ca.kMs).natAbs < 2 ^ 32 by omega)
  have hscaled : ((elapsedMs : Int) - ca.kMs).natAbs * ((elapsedMs : Int) - ca.kMs).natAbs *
      ((elapsedMs : Int) - ca.kMs).natAbs * (smss * 2) < 2 ^ 128 :=
    calc _ < 2 ^ 96 * 2 ^ 32 := Nat.mul_lt_mul_of_lt_of_le hcube (by omega) (by decide)
      _ = 2 ^ 128 := by decide
  rw [cubicWindowAt, mul_of_lt (hsquare.trans (by decide)), pure_bind,
    mul_of_lt (hcube.trans (by decide)), pure_bind, mul_of_lt (by omega), pure_bind,
    mul_of_lt hscaled, pure_bind, mul_of_lt (by decide), pure_bind, div_of_pos (by decide),
    pure_bind, ← cubicDelta, hdistance, cubicCurve]
  split_ifs with hbefore hdeep
  · rw [Int.toNat_of_nonpos (by omega), Nat.min_zero]
  · rw [narrow_of_lt (by omega), pure_bind, sub_of_le (by omega) hw]
    congr 1
    omega
  · rw [sub_of_le (by omega) (by omega), pure_bind]
    split_ifs with hhigh
    · congr 1
      omega
    · rw [narrow_of_lt (by omega), pure_bind, add_of_lt (by omega)]
      congr 1
      omega

/-- The cube root of every wide word is exact up to the largest word.  For the segment size of any
stream the window grows with the time, meets the plateau after `K`, and is the exact curve clamped
to the word; nothing wraps on the way. -/
theorem cubic_root_and_window_exact (sndMss : BitVec 16) (wMax kMs : BitVec 32)
    (ca : CubicState) :
    (∀ value : BitVec 128, (cubicRoot value.toNat).wrapped = false ∧
      let root := (cubicRoot value.toNat).value
      root ≤ uint32Max ∧ root ^ 3 ≤ value.toNat ∧
        (root = uint32Max ∨ value.toNat < (root + 1) ^ 3)) ∧
      let window := fun elapsedMs : BitVec 32 => cubicWindowAt
        { ca with wMax := wMax.toNat, kMs := kMs.toNat } (tcpCcSmss sndMss) elapsedMs.toNat
      (∀ early late, early ≤ late → (window early).value ≤ (window late).value) ∧
        (window kMs).value = wMax.toNat ∧
        ∀ elapsedMs, (window elapsedMs).wrapped = false ∧ (window elapsedMs).value =
          min uint32Max
            (cubicCurve wMax.toNat kMs.toNat (tcpCcSmss sndMss) elapsedMs.toNat).toNat := by
  constructor
  · intro value
    obtain ⟨⟨hlt, hle, hroot⟩, hexact⟩ := @cubicRoot_yields True value.toNat
    refine ⟨hexact trivial, Nat.le_of_lt_succ hlt, ?_, ?_⟩
    · simpa only [pow_three'] using hle
    · simpa only [pow_three'] using hroot
  · intro window
    have hwindow : ∀ elapsedMs, window elapsedMs = pure (min uint32Max
        (cubicCurve wMax.toNat kMs.toNat (tcpCcSmss sndMss) elapsedMs.toNat).toNat) :=
      fun elapsedMs => cubicWindowAt_eq ((smss_bounds sndMss).2.le.trans (by decide)) wMax.isLt
        kMs.isLt elapsedMs.isLt
    refine ⟨?_, ?_, fun elapsedMs => by simp [hwindow]⟩
    · intro early late h
      rw [hwindow, hwindow]
      exact min_le_min_left _ (Int.toNat_le_toNat (cubicCurve_mono _ _ _ h))
    · have hfits : wMax.toNat ≤ uint32Max := Nat.le_of_lt_succ wMax.isLt
      simp [hwindow, cubicCurve, cubicDelta, hfits]

end SnowTG.Tcp.Cc
