import SnowTG.Traffic.Capacity

/-!
# The capacity gate

Two capacity results are compared by their bounds.  The candidate is accepted when its passing rate
covers the failing rate of the baseline after the allowed drop, and rejected when it fails at or
below the passing rate of the baseline after that drop.  Decimals are exact.
-/

namespace SnowTG.Traffic.Capacity

/-- What `compare_capacity` reads of a result itself.  What `comparison_reasons` compares is left to
the caller. -/
structure CapacityResult where
  isCapacity : Bool := true
  valid : Bool := true
  status : Status
  bounds : Bounds
  minimum : Int
  maximum : Int
  precision : Int
  repeats : Int
  timeoutSec : Option ℚ := none
  deriving DecidableEq

inductive Recommendation where
  | inconclusive
  | acceptWithinTestedScope
  | reject
  deriving DecidableEq, Repr

structure Comparison where
  comparable : Bool
  reasons : List String
  recommendation : Recommendation
  exitCode : Nat
  deriving DecidableEq, Repr

/-- The bound checks of `validate_result`, made on results that call themselves valid. -/
def CapacityResult.check (r : CapacityResult) : Except String Unit :=
  if r.valid then validateBounds r.status r.bounds r.minimum r.maximum r.precision r.repeats
  else .ok ()

/-- The decision of `compare_capacity` on comparable results, with a reason if there is none. -/
def gate (old new : Bounds) (factor : ℚ) : Recommendation × List String :=
  match old.passedCps with
  | none => (.inconclusive, ["baseline has no passing rate"])
  | some oldLow =>
    if old.failedCps.any fun oldHigh : Int =>
        new.passedCps.any fun newLow : Int => newLow ≥ oldHigh * factor then
      (.acceptWithinTestedScope, [])
    else if new.failedCps.any fun newHigh : Int => newHigh ≤ oldLow * factor then (.reject, [])
    else (.inconclusive,
      ["capacity intervals cannot decide the gate; raise the ceiling or reduce precision"])

def Recommendation.code : Recommendation → Nat
  | .acceptWithinTestedScope => 0
  | .inconclusive => 1
  | .reject => 2

/-- Why `compare_capacity` does not compare two results.  `differences` is what
`comparison_reasons` returns. -/
def incomparable (baseline candidate : CapacityResult) (differences : List String) :
    Except String (List String) :=
  if !baseline.isCapacity || !candidate.isCapacity then
    .ok ["cannot compare capacity and single-run results"]
  else do
    baseline.check
    candidate.check
    return differences ++
      (if baseline.repeats ≠ candidate.repeats then ["repeat counts differ"] else []) ++
      if baseline.timeoutSec ≠ candidate.timeoutSec then ["measurement timeouts differ"] else []

/-- `compare_capacity`. -/
def compareCapacity (baseline candidate : CapacityResult) (differences : List String)
    (tolerance : ℚ) : Except String Comparison :=
  if 0 ≤ tolerance ∧ tolerance < 100 then
    (incomparable baseline candidate differences).map fun
      | [] =>
        let (recommendation, reasons) := gate baseline.bounds candidate.bounds (1 - tolerance / 100)
        ⟨true, reasons, recommendation, recommendation.code⟩
      | reasons => ⟨false, reasons, .inconclusive, 1⟩
  else .error "capacity drop percent must be finite and in [0,100)"

variable {probe : Int → Bool} {minimum maximum precision : Int} {b : Bounds} {probed : List Int}
  {threshold base cand : ℝ} {old new : Bounds} {factor tolerance : ℚ}

/-- A service that passes up to a threshold passes and fails at the two ends as the bounds say. -/
def Bounds.Around (b : Bounds) (threshold : ℝ) : Prop :=
  (∀ passed ∈ b.passedCps, (passed : ℝ) ≤ threshold) ∧ ∀ failed ∈ b.failedCps, threshold < failed

theorem around_of_search (hprobe : ∀ rate : Int, probe rate = true ↔ (rate : ℝ) ≤ threshold)
    (h : search probe minimum maximum precision = .ok (b, probed)) : b.Around threshold := by
  by_cases hvalid : OptionsValid minimum maximum precision 1
  · obtain ⟨b', probed', heq, hsound⟩ := search_spec probe hvalid
    rw [heq] at h
    cases h
    have hmono : Antitone probe := fun low high hle => Bool.le_iff_imp.mpr fun hhigh =>
      (hprobe low).mpr ((Int.cast_le.mpr hle).trans ((hprobe high).mp hhigh))
    obtain ⟨hpassed, hfailed⟩ := hsound.threshold hmono
    refine ⟨fun passed hmem => (hprobe passed).mp (hpassed passed hmem passed le_rfl),
      fun failed hmem => ?_⟩
    rw [← not_le, ← hprobe, hfailed failed hmem failed le_rfl]
    exact Bool.false_ne_true
  · rw [search, dif_neg hvalid] at h
    cases h

/-- The decision holds of every pair of thresholds that the bounds allow. -/
theorem gate_sound (hpos : 0 < factor) (hold : old.Around base) (hnew : new.Around cand) :
    ((gate old new factor).1 = .acceptWithinTestedScope → (factor : ℝ) * base ≤ cand) ∧
      ((gate old new factor).1 = .reject → cand < (factor : ℝ) * base) := by
  have hreal : (0 : ℝ) < factor := by exact_mod_cast hpos
  rw [gate]
  cases hlow : old.passedCps with
  | none => exact ⟨nofun, nofun⟩
  | some oldLow =>
    dsimp only
    split_ifs with haccept hreject
    · refine ⟨fun _ => ?_, nofun⟩
      simp only [Option.any_eq_true, decide_eq_true_eq] at haccept
      obtain ⟨oldHigh, hhigh, newLow, hnewLow, hcovers⟩ := haccept
      have hcovers : (oldHigh : ℝ) * factor ≤ newLow := by exact_mod_cast hcovers
      calc
        (factor : ℝ) * base ≤ factor * oldHigh := by gcongr; exact (hold.2 oldHigh hhigh).le
        _ ≤ newLow := by rwa [mul_comm]
        _ ≤ cand := hnew.1 newLow hnewLow
    · refine ⟨nofun, fun _ => ?_⟩
      simp only [Option.any_eq_true, decide_eq_true_eq] at hreject
      obtain ⟨newHigh, hhigh, hbelow⟩ := hreject
      have hbelow : (newHigh : ℝ) ≤ oldLow * factor := by exact_mod_cast hbelow
      calc
        cand < newHigh := hnew.2 newHigh hhigh
        _ ≤ factor * oldLow := by rwa [mul_comm]
        _ ≤ factor * base := by gcongr; exact hold.1 oldLow hlow
    · exact ⟨nofun, nofun⟩

/-- A side that is not known decides nothing. -/
theorem gate_unknown (old new : Bounds) (factor : ℚ) :
    (old.passedCps = none → (gate old new factor).1 = .inconclusive) ∧
      (old.failedCps = none ∨ new.passedCps = none →
        (gate old new factor).1 ≠ .acceptWithinTestedScope) ∧
      (new.failedCps = none → (gate old new factor).1 ≠ .reject) := by
  rw [gate]
  cases old.passedCps with
  | none => simp
  | some oldLow =>
    refine ⟨nofun, ?_, fun hnone => ?_⟩
    · rintro (hnone | hnone) <;> dsimp only <;> split_ifs <;> simp_all
    · dsimp only
      split_ifs <;> simp_all

/-- Comparable results are decided by the gate. -/
theorem compareCapacity_gate {baseline candidate : CapacityResult} {differences : List String}
    {result : Comparison}
    (h : compareCapacity baseline candidate differences tolerance = .ok result)
    (hcomparable : result.comparable = true) :
    (0 : ℚ) < 1 - tolerance / 100 ∧ result.recommendation =
      (gate baseline.bounds candidate.bounds (1 - tolerance / 100)).1 := by
  rw [compareCapacity] at h
  split_ifs at h with htolerance
  have hpos : (0 : ℚ) < 1 - tolerance / 100 := by linarith
  cases hreasons : incomparable baseline candidate differences with
  | error message =>
    rw [hreasons] at h
    cases h
  | ok reasons =>
    rw [hreasons] at h
    cases reasons with
    | nil =>
      cases h
      exact ⟨hpos, rfl⟩
    | cons reason rest =>
      cases h
      cases hcomparable

/-- What the gate says of the bounds of two searches holds of the thresholds. -/
theorem capacity_gate_sound {baseline candidate : CapacityResult} {differences : List String}
    {result : Comparison} {probeBase probeCand : Int → Bool} {probedBase probedCand : List Int}
    (hbase : ∀ rate : Int, probeBase rate = true ↔ (rate : ℝ) ≤ base)
    (hcand : ∀ rate : Int, probeCand rate = true ↔ (rate : ℝ) ≤ cand)
    (hsearchBase : search probeBase baseline.minimum baseline.maximum baseline.precision =
      .ok (baseline.bounds, probedBase))
    (hsearchCand : search probeCand candidate.minimum candidate.maximum candidate.precision =
      .ok (candidate.bounds, probedCand))
    (h : compareCapacity baseline candidate differences tolerance = .ok result)
    (hcomparable : result.comparable = true) :
    (result.recommendation = .acceptWithinTestedScope →
        (1 - (tolerance : ℝ) / 100) * base ≤ cand) ∧
      (result.recommendation = .reject → cand < (1 - (tolerance : ℝ) / 100) * base) ∧
      (baseline.bounds.passedCps = none → result.recommendation = .inconclusive) ∧
      (baseline.bounds.failedCps = none ∨ candidate.bounds.passedCps = none →
        result.recommendation ≠ .acceptWithinTestedScope) ∧
      (candidate.bounds.failedCps = none → result.recommendation ≠ .reject) := by
  obtain ⟨hpos, hgate⟩ := compareCapacity_gate h hcomparable
  obtain ⟨haccept, hreject⟩ := gate_sound hpos (around_of_search hbase hsearchBase)
    (around_of_search hcand hsearchCand)
  rw [hgate]
  push_cast at haccept hreject
  exact ⟨haccept, hreject, gate_unknown _ _ _⟩

/-- The result of a search with the default tolerance. -/
def searched (bounds : Bounds) : CapacityResult :=
  { status := bounds.status, bounds := bounds, minimum := 1, maximum := 2, precision := 1,
    repeats := 1 }

/-- A candidate that passes where the baseline fails. -/
theorem capacity_gate_sound_accept :
    compareCapacity (searched ⟨.bracketed, some 1, some 2⟩)
        (searched ⟨.lowerBoundOnly, some 2, none⟩) [] 5 =
      .ok ⟨true, [], .acceptWithinTestedScope, 0⟩ ∧
      (1 - ((5 : ℚ) : ℝ) / 100) * ((1 : Int) : ℝ) ≤ ((2 : Int) : ℝ) := by
  have hprobe : ∀ threshold rate : Int,
      decide (rate ≤ threshold) = true ↔ (rate : ℝ) ≤ threshold :=
    fun _ _ => decide_eq_true_iff.trans Int.cast_le.symm
  have hbase : search (fun rate => rate ≤ 1) 1 2 1 =
      .ok (⟨.bracketed, some 1, some 2⟩, [2, 1]) := by
    simp [search, OptionsValid, raise, narrow]
  have hcand : search (fun rate => rate ≤ 2) 1 2 1 =
      .ok (⟨.lowerBoundOnly, some 2, none⟩, [2, 1]) := by
    simp [search, OptionsValid, raise]
  have hcompare : compareCapacity (searched ⟨.bracketed, some 1, some 2⟩)
      (searched ⟨.lowerBoundOnly, some 2, none⟩) [] 5 =
        .ok ⟨true, [], .acceptWithinTestedScope, 0⟩ := by
    decide +kernel
  exact ⟨hcompare,
    (capacity_gate_sound (hprobe 1) (hprobe 2) hbase hcand hcompare rfl).1 rfl⟩

end SnowTG.Traffic.Capacity
