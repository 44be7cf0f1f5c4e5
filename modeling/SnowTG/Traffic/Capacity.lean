import Mathlib

/-!
# Capacity search

The rate is doubled from the minimum until a probe fails or the maximum passes,
and the bracket between the last pass and the first failure is then bisected.
The search records every rate it probes.
-/

namespace SnowTG.Traffic.Capacity

/-- The integer arguments that `validate_options` accepts. -/
def OptionsValid (minimum maximum precision repeats : Int) : Prop :=
  (0 < minimum ∧ 0 < maximum ∧ 0 < precision ∧ 0 < repeats) ∧ minimum ≤ maximum

instance (minimum maximum precision repeats : Int) :
    Decidable (OptionsValid minimum maximum precision repeats) :=
  inferInstanceAs (Decidable (_ ∧ _))

def optionsError : String :=
  "require 0 < minimum <= maximum, positive integer precision and repeats"

inductive Status where
  | belowMinimum
  | lowerBoundOnly
  | bracketed
  deriving DecidableEq, Repr

/-- What `search` returns. -/
structure Bounds where
  status : Status
  passedCps : Option Int
  failedCps : Option Int
  deriving DecidableEq, Repr

/-- The variables of `search`, and the rates probed so far. -/
structure Search where
  low : Int
  high : Int
  probed : List Int
  deriving DecidableEq, Repr

/-- First loop of `search`: double the rate up to the maximum. -/
def raise (probe : Int → Bool) (maximum : Int) (s : Search) (pos : 0 < s.low) : Search :=
  if below : s.low < maximum then
    let high := min maximum (s.low * 2)
    if probe high then raise probe maximum ⟨high, high, high :: s.probed⟩ (by grind)
    else ⟨s.low, high, high :: s.probed⟩
  else s
termination_by (maximum - s.low).toNat
decreasing_by grind

/-- Second loop of `search`: halve the bracket down to the precision. -/
def narrow (probe : Int → Bool) (precision : Int) (pos : 0 < precision) (s : Search) : Search :=
  if s.high - s.low > precision then
    let mid := (s.low + s.high) / 2
    if probe mid then narrow probe precision pos { s with low := mid, probed := mid :: s.probed }
    else narrow probe precision pos { s with high := mid, probed := mid :: s.probed }
  else s
termination_by (s.high - s.low).toNat
decreasing_by all_goals grind

/-- `search`, with the rates it probes, the latest first. -/
def search (probe : Int → Bool) (minimum maximum precision : Int) :
    Except String (Bounds × List Int) :=
  if valid : OptionsValid minimum maximum precision 1 then
    if probe minimum then
      let s := raise probe maximum ⟨minimum, minimum, [minimum]⟩ valid.1.1
      if s.low = maximum then .ok (⟨.lowerBoundOnly, some s.low, none⟩, s.probed)
      else
        let s := narrow probe precision valid.1.2.2.1 s
        .ok (⟨.bracketed, some s.low, some s.high⟩, s.probed)
    else .ok (⟨.belowMinimum, none, some minimum⟩, [minimum])
  else .error optionsError

/-- `valid_bounds` of `validate_result`. -/
def Bounds.valid : Bounds → Bool
  | ⟨.bracketed, some low, some high⟩ => 0 < low && 0 < high && low < high
  | ⟨.lowerBoundOnly, some low, none⟩ => 0 < low
  | ⟨.belowMinimum, none, some high⟩ => 0 < high
  | _ => false

/-- The comparison of valid bounds with the search configuration. -/
def Bounds.agrees (b : Bounds) (minimum maximum precision : Int) : Bool :=
  b.passedCps.all (fun low => minimum ≤ low && low ≤ maximum) &&
    b.failedCps.all (fun high => minimum ≤ high && high ≤ maximum) &&
    match b.status with
    | .bracketed => b.failedCps.getD 0 - b.passedCps.getD 0 ≤ precision
    | .lowerBoundOnly => b.passedCps = some maximum
    | .belowMinimum => b.failedCps = some minimum

/-- The bound checks of `validate_result`. -/
def validateBounds (status : Status) (b : Bounds) (minimum maximum precision repeats : Int) :
    Except String Unit :=
  if !b.valid || status ≠ b.status then .error "inconsistent capacity bounds/status"
  else if !OptionsValid minimum maximum precision repeats then .error optionsError
  else if !b.agrees minimum maximum precision then
    .error "capacity bounds disagree with search configuration"
  else .ok ()

variable {probe : Int → Bool} {minimum maximum precision : Int} {s : Search}

/-- No rate was probed twice, and the lower end was probed and passed. -/
structure Search.Passed (probe : Int → Bool) (minimum maximum : Int) (s : Search) : Prop where
  nodup : s.probed.Nodup
  low_mem : s.low ∈ s.probed
  low_passes : probe s.low = true
  minimum_le : minimum ≤ s.low
  low_le : s.low ≤ maximum

/-- The upper end was probed and failed, and nothing between the ends was probed. -/
structure Search.Bracket (probe : Int → Bool) (minimum maximum : Int) (s : Search) : Prop
    extends s.Passed probe minimum maximum where
  outside : ∀ rate ∈ s.probed, rate ≤ s.low ∨ s.high ≤ rate
  high_mem : s.high ∈ s.probed
  high_fails : probe s.high = false
  low_lt : s.low < s.high
  high_le : s.high ≤ maximum

theorem raise_bracket (pos : 0 < s.low) (h : s.Passed probe minimum maximum)
    (hall : ∀ rate ∈ s.probed, rate ≤ s.low) :
    (raise probe maximum s pos).Passed probe minimum maximum ∧
      ((raise probe maximum s pos).low ≠ maximum →
        (raise probe maximum s pos).Bracket probe minimum maximum) := by
  obtain ⟨hnodup, hmem, hpasses, hmin, hmax⟩ := h
  fun_induction raise with
  | case1 s pos hlt high hpass ih =>
    have hfresh : high ∉ s.probed := fun hin => by grind
    refine ih ?_ (List.nodup_cons.mpr ⟨hfresh, hnodup⟩) List.mem_cons_self hpass ?_ ?_ <;> grind
  | case2 s pos hlt high hfail =>
    have hfresh : high ∉ s.probed := fun hin => by grind
    have hpassed : Search.Passed probe minimum maximum ⟨s.low, high, high :: s.probed⟩ :=
      ⟨List.nodup_cons.mpr ⟨hfresh, hnodup⟩, List.mem_cons_of_mem _ hmem, hpasses, hmin, hmax⟩
    refine ⟨hpassed, fun _ => ⟨hpassed, ?_, ?_, ?_, ?_, ?_⟩⟩ <;> grind
  | case3 s pos hge =>
    exact ⟨⟨hnodup, hmem, hpasses, hmin, hmax⟩, fun hne => by omega⟩

theorem narrow_bracket (pos : 0 < precision) (h : s.Bracket probe minimum maximum) :
    (narrow probe precision pos s).Bracket probe minimum maximum ∧
      (narrow probe precision pos s).high - (narrow probe precision pos s).low ≤ precision := by
  fun_induction narrow with
  | case1 s hwide mid hpass ih | case2 s hwide mid hpass ih =>
    -- the middle is strictly inside, so it was not probed before
    have hfresh : mid ∉ s.probed := fun hin => by grind [h.outside mid hin]
    apply ih
    obtain ⟨⟨hnodup, _, _, hmin, hmax⟩, _, _, _, hlt, _⟩ := h
    refine ⟨⟨List.nodup_cons.mpr ⟨hfresh, hnodup⟩, ?_, ?_, ?_, ?_⟩, ?_, ?_, ?_, ?_, ?_⟩ <;> grind
  | case3 s hclose => exact ⟨h, by omega⟩

/-- What the bounds and the probed rates say about the probe. -/
structure Bounds.Sound (probe : Int → Bool) (minimum maximum precision : Int) (b : Bounds)
    (probed : List Int) : Prop where
  nodup : probed.Nodup
  bracketed : b.status = .bracketed → ∃ passed failed, b.passedCps = some passed ∧
    b.failedCps = some failed ∧ minimum ≤ passed ∧ passed < failed ∧ failed ≤ maximum ∧
    failed - passed ≤ precision ∧ (passed ∈ probed ∧ probe passed = true) ∧
    failed ∈ probed ∧ probe failed = false
  lowerBoundOnly : b.status = .lowerBoundOnly → b.passedCps = some maximum
  belowMinimum : b.status = .belowMinimum → b.failedCps = some minimum
  /-- A monotone probe passes up to the bracket and fails from its end on. -/
  threshold : Antitone probe →
    (∀ passed ∈ b.passedCps, ∀ rate ≤ passed, probe rate = true) ∧
      ∀ failed ∈ b.failedCps, ∀ rate ≥ failed, probe rate = false
  accepted : ∀ repeats > 0, validateBounds b.status b minimum maximum precision repeats = .ok ()

/-- A monotone probe answers as the ends of the bounds do. -/
theorem antitone_ends {b : Bounds} (hpassed : ∀ passed ∈ b.passedCps, probe passed = true)
    (hfailed : ∀ failed ∈ b.failedCps, probe failed = false) (hmono : Antitone probe) :
    (∀ passed ∈ b.passedCps, ∀ rate ≤ passed, probe rate = true) ∧
      ∀ failed ∈ b.failedCps, ∀ rate ≥ failed, probe rate = false := by
  constructor
  · intro passed hmem rate hle
    exact Bool.eq_true_of_true_le (hpassed passed hmem ▸ hmono hle)
  · intro failed hmem rate hge
    exact Bool.eq_false_of_le_false (hfailed failed hmem ▸ hmono hge)

theorem search_spec (probe : Int → Bool) (h : OptionsValid minimum maximum precision 1) :
    ∃ b probed, search probe minimum maximum precision = .ok (b, probed) ∧
      b.Sound probe minimum maximum precision probed := by
  have ⟨⟨hpos, hmaximum, hprecision, _⟩, hle⟩ := h
  have hvalid : ∀ repeats > 0, OptionsValid minimum maximum precision repeats :=
    fun repeats h => ⟨⟨hpos, hmaximum, hprecision, h⟩, hle⟩
  rw [search, dif_pos h]
  split_ifs with hpass
  · have hstart : Search.Passed probe minimum maximum ⟨minimum, minimum, [minimum]⟩ :=
      ⟨List.nodup_singleton _, List.mem_singleton_self _, hpass, le_rfl, hle⟩
    obtain ⟨hpassed, hbracket⟩ := raise_bracket hpos hstart (by simp)
    dsimp only
    split_ifs with hmax
    · have hlow := hpassed.low_passes
      refine ⟨_, _, rfl, ⟨hpassed.nodup, nofun, fun _ => by rw [hmax], nofun,
        antitone_ends (by simpa using hlow) nofun, ?_⟩⟩
      intro repeats h
      simp [validateBounds, Bounds.valid, Bounds.agrees, hvalid repeats h, hmax, hle, hmaximum]
    · obtain ⟨hb, hclose⟩ := narrow_bracket hprecision (hbracket hmax)
      refine ⟨_, _, rfl, ⟨hb.nodup, fun _ => ⟨_, _, rfl, rfl, hb.minimum_le, hb.low_lt,
        hb.high_le, hclose, ⟨hb.low_mem, hb.low_passes⟩, hb.high_mem, hb.high_fails⟩, nofun, nofun,
        antitone_ends (by simpa using hb.low_passes) (by simpa using hb.high_fails), ?_⟩⟩
      intro repeats h
      obtain ⟨⟨_, _, _, _, _⟩, _, _, _, _, _⟩ := hb
      simp [validateBounds, Bounds.valid, Bounds.agrees, hvalid repeats h]
      grind
  · have hfail : probe minimum = false := by simpa using hpass
    refine ⟨_, _, rfl, ⟨List.nodup_singleton _, nofun, nofun, fun _ => rfl,
      antitone_ends nofun (by simpa using hfail), ?_⟩⟩
    intro repeats h
    simp [validateBounds, Bounds.valid, Bounds.agrees, hvalid repeats h, hpos, hle]

/-- The search ends, with bounds that the probes at its two ends witness. -/
theorem search_sound (probe : Int → Bool) (hpos : 0 < minimum) (hle : minimum ≤ maximum)
    (hprecision : 0 < precision) :
    ∃ b probed, search probe minimum maximum precision = .ok (b, probed) ∧
      b.Sound probe minimum maximum precision probed :=
  search_spec probe ⟨⟨hpos, hpos.trans_le hle, hprecision, Int.one_pos⟩, hle⟩

/-- A threshold of 700 CPS between the default minimum and maximum. -/
theorem search_sound_default :
    (0 : Int) < 100 ∧ (100 : Int) ≤ 10000 ∧
      ∃ b probed, search (fun rate => rate ≤ 700) 100 10000 100 = .ok (b, probed) ∧
        b.Sound (fun rate => rate ≤ 700) 100 10000 100 probed :=
  ⟨by decide, by decide, search_sound _ (by decide) (by decide) (by decide)⟩

end SnowTG.Traffic.Capacity
