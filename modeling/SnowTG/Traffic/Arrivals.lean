import SnowTG.Lib.Deal
import SnowTG.Traffic.Plan

/-!
# Planned arrivals

The arrivals of a phase by some time are the integral of its linear rate, rounded up.
A plan's arrivals are numbered over all phases and dealt to the shards phase by phase.
Everything here depends on the plan and the time alone.
-/

namespace SnowTG.Traffic

open Lib List

theorem mul_ceilDiv_mul_right {a b c : Nat} (hb : 0 < b) (hc : 0 < c) :
    (a * c) ⌈/⌉ (b * c) = a ⌈/⌉ b := by
  apply eq_of_forall_ge_iff
  intro k
  rw [ceilDiv_le_iff_le_mul (Nat.mul_pos hb hc), ceilDiv_le_iff_le_mul hb, Nat.mul_right_comm]
  exact Nat.mul_le_mul_right_iff hc

namespace PhasePlan

/-- The length of the phase in cycles. -/
def cycles (phase : PhasePlan) (hz : Nat) : Nat := phase.durationSec * hz

/-- Twice the average rate up to `elapsed`, scaled by the length of the phase. -/
def rateTerm (phase : PhasePlan) (hz elapsed : Nat) : Nat :=
  if phase.startCps ≤ phase.targetCps then
    2 * phase.startCps * phase.cycles hz + (phase.targetCps - phase.startCps) * elapsed
  else
    2 * phase.startCps * phase.cycles hz - (phase.startCps - phase.targetCps) * elapsed

/-- Arrivals strictly before `elapsed` cycles into the phase. -/
def arrivalsBy (phase : PhasePlan) (hz elapsed : Nat) : Nat :=
  (elapsed * phase.rateTerm hz elapsed) ⌈/⌉ (2 * phase.cycles hz * hz)

/-- All arrivals of the phase. -/
def arrivals (phase : PhasePlan) : Nat :=
  (phase.durationSec * (phase.startCps + phase.targetCps)) ⌈/⌉ 2

variable {phase : PhasePlan} {hz : Nat}

theorem cycles_pos (hphase : phase.Valid) (hhz : 0 < hz) : 0 < phase.cycles hz :=
  Nat.mul_pos hphase.duration_pos hhz

@[simp] theorem arrivalsBy_zero : phase.arrivalsBy hz 0 = 0 := by
  simp [arrivalsBy]

/-- The falling part of the rate never exceeds its start. -/
theorem falling_le {elapsed : Nat} (helapsed : elapsed ≤ phase.cycles hz) :
    (phase.startCps - phase.targetCps) * elapsed ≤ 2 * phase.startCps * phase.cycles hz := by
  apply Nat.mul_le_mul _ helapsed
  omega

theorem area_mono {a b : Nat} (hab : a ≤ b) (hb : b ≤ phase.cycles hz) :
    a * phase.rateTerm hz a ≤ b * phase.rateTerm hz b := by
  unfold rateTerm
  split_ifs with hrise
  · apply Nat.mul_le_mul hab
    apply Nat.add_le_add_left
    exact Nat.mul_le_mul_left _ hab
  · have hfa := falling_le (hab.trans hb)
    have hfb := falling_le hb
    obtain ⟨d, rfl⟩ := Nat.exists_eq_add_of_le hab
    obtain ⟨drop, hdrop⟩ := Nat.exists_eq_add_of_le (Nat.le_of_not_le hrise)
    generalize phase.cycles hz = length at *
    rw [hdrop, Nat.add_sub_cancel_left] at *
    -- the integral grows by `d` times the rate in the middle of the interval
    have hmid : drop * (2 * a + d) ≤ 2 * (phase.targetCps + drop) * length := by
      calc
        drop * (2 * a + d) ≤ (phase.targetCps + drop) * (2 * length) :=
          Nat.mul_le_mul (by omega) (by omega)
        _ = 2 * (phase.targetCps + drop) * length := by ring
    have hgain := Nat.mul_le_mul_left d hmid
    zify [hfa, hfb] at *
    linarith

theorem rateTerm_cycles :
    phase.rateTerm hz (phase.cycles hz) =
      (phase.startCps + phase.targetCps) * phase.cycles hz := by
  unfold rateTerm
  split_ifs with hrise
  · obtain ⟨climb, hclimb⟩ := Nat.exists_eq_add_of_le hrise
    rw [hclimb, Nat.add_sub_cancel_left]
    ring
  · obtain ⟨drop, hdrop⟩ := Nat.exists_eq_add_of_le (Nat.le_of_not_le hrise)
    rw [hdrop, Nat.add_sub_cancel_left]
    apply Nat.sub_eq_of_eq_add
    ring

theorem arrivalsBy_mono (hphase : phase.Valid) (hhz : 0 < hz) {a b : Nat} (hab : a ≤ b)
    (hb : b ≤ phase.cycles hz) : phase.arrivalsBy hz a ≤ phase.arrivalsBy hz b := by
  have hden : 0 < 2 * phase.cycles hz * hz :=
    Nat.mul_pos (Nat.mul_pos two_pos (cycles_pos hphase hhz)) hhz
  unfold arrivalsBy
  rw [ceilDiv_le_iff_le_mul hden]
  exact (area_mono hab hb).trans (le_smul_ceilDiv hden)

/-- At the end of the phase the integral is the average rate times the duration. -/
theorem arrivalsBy_cycles (hphase : phase.Valid) (hhz : 0 < hz) :
    phase.arrivalsBy hz (phase.cycles hz) = phase.arrivals := by
  have hscale : 0 < phase.cycles hz * hz := Nat.mul_pos (cycles_pos hphase hhz) hhz
  unfold arrivalsBy arrivals
  rw [rateTerm_cycles]
  calc
    _ = (phase.durationSec * (phase.startCps + phase.targetCps) * (phase.cycles hz * hz)) ⌈/⌉
          (2 * (phase.cycles hz * hz)) := by
        congr 1
        · unfold cycles
          ring
        · ring
    _ = _ := mul_ceilDiv_mul_right two_pos hscale

theorem arrivals_le (hphase : phase.Valid) : phase.arrivals ≤ phase.durationSec * planMaxCps := by
  unfold arrivals
  rw [ceilDiv_le_iff_le_mul two_pos]
  have hstart := hphase.start_le
  have htarget := hphase.target_le
  calc
    phase.durationSec * (phase.startCps + phase.targetCps) ≤
        phase.durationSec * (2 * planMaxCps) := Nat.mul_le_mul_left _ (by omega)
    _ = 2 * (phase.durationSec * planMaxCps) := by ring

end PhasePlan

/-- The length of a list of phases in cycles. -/
def cyclesOf (phases : List PhasePlan) (hz : Nat) : Nat := durationOf phases * hz

/-- All arrivals of a list of phases. -/
def arrivalsOf (phases : List PhasePlan) : Nat := (phases.map PhasePlan.arrivals).sum

/-- All arrivals of a list of phases that fall to shard `i`. -/
def sharesOf (hands i : Nat) (phases : List PhasePlan) : Nat :=
  (phases.map fun phase => share hands i phase.arrivals).sum

/-- The arrivals of shard `i` in order, those of all phases being numbered from `start`. -/
def shardOrdinals (hands i : Nat) : Nat → List PhasePlan → List Nat
  | _, [] => []
  | start, phase :: rest =>
    dealt start hands i phase.arrivals ++ shardOrdinals hands i (start + phase.arrivals) rest

/-- The arrivals of shard `i` planned up to `elapsed` cycles after the first phase began. -/
def plannedBy (hz hands i : Nat) : List PhasePlan → Nat → Nat
  | [], _ => 0
  | phase :: rest, elapsed =>
    share hands i (phase.arrivalsBy hz (min elapsed (phase.cycles hz))) +
      plannedBy hz hands i rest (elapsed - phase.cycles hz)

section

variable {hz hands i : Nat}

@[simp] theorem cyclesOf_append (a b : List PhasePlan) :
    cyclesOf (a ++ b) hz = cyclesOf a hz + cyclesOf b hz := by
  simp [cyclesOf, durationOf, Nat.add_mul]

@[simp] theorem cyclesOf_cons (phase : PhasePlan) (rest : List PhasePlan) :
    cyclesOf (phase :: rest) hz = phase.cycles hz + cyclesOf rest hz := by
  simp [cyclesOf, durationOf, PhasePlan.cycles, Nat.add_mul]

@[simp] theorem cyclesOf_nil : cyclesOf [] hz = 0 := by
  simp [cyclesOf, durationOf]

@[simp] theorem arrivalsOf_append (a b : List PhasePlan) :
    arrivalsOf (a ++ b) = arrivalsOf a + arrivalsOf b := by
  simp [arrivalsOf]

@[simp] theorem sharesOf_append (a b : List PhasePlan) :
    sharesOf hands i (a ++ b) = sharesOf hands i a + sharesOf hands i b := by
  simp [sharesOf]

theorem shardOrdinals_append (start : Nat) (a b : List PhasePlan) :
    shardOrdinals hands i start (a ++ b) =
      shardOrdinals hands i start a ++ shardOrdinals hands i (start + arrivalsOf a) b := by
  induction a generalizing start with
  | nil => simp [shardOrdinals, arrivalsOf]
  | cons phase rest ih =>
    simp [shardOrdinals, ih, arrivalsOf, add_assoc]

/-- The arrivals of all shards are the arrivals of the phases, each once. -/
theorem flatMap_shardOrdinals_perm (h : 0 < hands) (start : Nat) (phases : List PhasePlan) :
    ((List.range hands).flatMap fun i => shardOrdinals hands i start phases).Perm
      ((List.range (arrivalsOf phases)).map (start + ·)) := by
  induction phases generalizing start with
  | nil => simp [shardOrdinals, arrivalsOf]
  | cons phase rest ih =>
    have hsplit := flatMap_append_perm (List.range hands)
      (fun i => dealt start hands i phase.arrivals)
      (fun i => shardOrdinals hands i (start + phase.arrivals) rest)
    have hrange : (List.range (arrivalsOf (phase :: rest))).map (start + ·) =
        (List.range phase.arrivals).map (start + ·) ++
          (List.range (arrivalsOf rest)).map (start + phase.arrivals + ·) := by
      simp [arrivalsOf, range_add, Function.comp_def, add_assoc]
    rw [hrange]
    exact hsplit.symm.trans ((flatMap_dealt_perm h start phase.arrivals).append (ih _))

/-- The shards' totals add up to all arrivals. -/
theorem sum_sharesOf (h : 0 < hands) (phases : List PhasePlan) :
    ((List.range hands).map fun i => sharesOf hands i phases).sum = arrivalsOf phases := by
  induction phases with
  | nil => simp [sharesOf, arrivalsOf]
  | cons phase rest ih =>
    have hsplit : ∀ i, sharesOf hands i (phase :: rest) =
        share hands i phase.arrivals + sharesOf hands i rest := by
      intro i
      simp [sharesOf]
    simp only [hsplit, sum_map_add, ih, sum_share h]
    simp [arrivalsOf]

@[simp] theorem plannedBy_zero (phases : List PhasePlan) : plannedBy hz hands i phases 0 = 0 := by
  induction phases with
  | nil => rfl
  | cons phase rest ih => simp [plannedBy, ih]

/-- Phases that are over contribute all their arrivals. -/
theorem plannedBy_append (hhz : 0 < hz) {a : List PhasePlan} (b : List PhasePlan)
    {elapsed : Nat} (hvalid : ∀ phase ∈ a, phase.Valid) (hle : cyclesOf a hz ≤ elapsed) :
    plannedBy hz hands i (a ++ b) elapsed =
      sharesOf hands i a + plannedBy hz hands i b (elapsed - cyclesOf a hz) := by
  induction a generalizing elapsed with
  | nil => simp [sharesOf]
  | cons phase rest ih =>
    simp only [cyclesOf_cons] at hle
    have hphase := hvalid phase (mem_cons_self ..)
    have hmin : min elapsed (phase.cycles hz) = phase.cycles hz := by omega
    have hsub : elapsed - phase.cycles hz - cyclesOf rest hz =
        elapsed - (phase.cycles hz + cyclesOf rest hz) := by omega
    rw [cons_append, plannedBy, hmin, PhasePlan.arrivalsBy_cycles hphase hhz,
      ih (fun q hq => hvalid q (mem_cons_of_mem _ hq)) (by omega), cyclesOf_cons, hsub]
    simp [sharesOf, add_assoc]

/-- Within the first phase only its own arrivals are planned. -/
theorem plannedBy_cons_of_le (phase : PhasePlan) (rest : List PhasePlan) {elapsed : Nat}
    (hle : elapsed ≤ phase.cycles hz) :
    plannedBy hz hands i (phase :: rest) elapsed =
      share hands i (phase.arrivalsBy hz elapsed) := by
  rw [plannedBy, Nat.min_eq_left hle, Nat.sub_eq_zero_of_le hle, plannedBy_zero, add_zero]

/-- A plan of valid phases has at most this many arrivals. -/
theorem arrivalsOf_le {phases : List PhasePlan} (hvalid : ∀ phase ∈ phases, phase.Valid) :
    arrivalsOf phases ≤ durationOf phases * planMaxCps := by
  induction phases with
  | nil => simp [arrivalsOf]
  | cons phase rest ih =>
    have hphase := PhasePlan.arrivals_le (hvalid phase (mem_cons_self ..))
    have hrest := ih fun q hq => hvalid q (mem_cons_of_mem _ hq)
    simp only [arrivalsOf, durationOf, map_cons, sum_cons, Nat.add_mul] at *
    omega

end

end SnowTG.Traffic
