import SnowTG.Traffic.Scheduler

/-!
# What the parts of a tick compute

On a plan the loader accepts, no word of the scheduler's arithmetic wraps, and each part
of a tick has a closed form over the natural numbers.
-/

namespace SnowTG.Traffic

open Lib Function List
open Lib.Checked

def maxClockHz : Nat := 10000000000

/-- A shard of a loaded plan under an accepted clock. -/
structure Shard (plan : Plan) (hz hands i : Nat) : Prop where
  valid : plan.Valid
  hz_pos : 0 < hz
  hz_le : hz ≤ maxClockHz
  shards : schedulerShards plan = hands
  index : schedulerShardIndex plan = i
  index_lt : i < hands
  hands_le : hands ≤ planMaxConcurrency
  selection_lt : plan.selectionPhase < 2 ^ 32

variable {plan : Plan}

theorem shard_of_partition {file : Scenario} {source : Plan} {hz i hands : Nat}
    (hload : planLoad file = some source) (hpart : planPartition source i hands = some plan)
    (hpos : 0 < hz) (hle : hz ≤ maxClockHz) : Shard plan hz hands i := by
  have hshard := planPartition_shard (planLoad_valid hload) hpart
  have hlt := hshard.index_lt
  have hcount := hshard.shardCount
  have hne : plan.phases.length ≠ 0 := by
    intro hzero
    exact hshard.valid.phases_ne (eq_nil_of_length_eq_zero hzero)
  have hshards : schedulerShards plan = hands := by
    unfold schedulerShards
    rw [if_pos ⟨hne, by omega⟩, hcount]
  refine ⟨hshard.valid, hpos, hle, hshards, ?_, hlt, hshard.count_le, hshard.selection_lt⟩
  unfold schedulerShardIndex
  rw [hshards]
  split_ifs with hone
  · omega
  · exact hshard.shardIndex

variable {s : Scheduler}

section

variable {plan : Plan} {hz hands i : Nat} {index elapsed : Nat}

theorem Shard.hands_pos (h : Shard plan hz hands i) : 0 < hands :=
  lt_of_le_of_lt zero_le h.index_lt

/-- The phase with this number. -/
theorem schedulerPhase_eq (hindex : index < plan.phases.length) :
    schedulerPhase plan index = plan.phases[index] := by
  unfold schedulerPhase
  rw [if_pos (by omega)]
  simp [hindex]

theorem schedulerPhase_valid (h : Shard plan hz hands i) (hindex : index < plan.phases.length) :
    (schedulerPhase plan index).Valid := by
  rw [schedulerPhase_eq hindex]
  exact h.valid.phase _ (getElem_mem hindex)

theorem durationSec_le_of_mem {phases : List PhasePlan} {phase : PhasePlan}
    (hmem : phase ∈ phases) : phase.durationSec ≤ durationOf phases := by
  apply single_le_sum (fun n _ => Nat.zero_le n)
  exact mem_map_of_mem hmem

theorem schedulerPhase_duration_le (h : Shard plan hz hands i)
    (hindex : index < plan.phases.length) :
    (schedulerPhase plan index).durationSec ≤ planMaxDurationSec := by
  rw [schedulerPhase_eq hindex]
  calc
    _ ≤ durationOf plan.phases := durationSec_le_of_mem (getElem_mem hindex)
    _ = plan.durationSec := h.valid.duration.symm
    _ ≤ planMaxDurationSec := h.valid.duration_le

/-- The longest phase under the fastest clock. -/
theorem cycles_le {phase : PhasePlan} (hduration : phase.durationSec ≤ planMaxDurationSec)
    (hhz : hz ≤ maxClockHz) : phase.cycles hz ≤ 864000000000000 :=
  Nat.mul_le_mul hduration hhz

theorem rateTerm_le {phase : PhasePlan} (hphase : phase.Valid)
    (hlength : phase.cycles hz ≤ 864000000000000) (helapsed : elapsed ≤ phase.cycles hz) :
    phase.rateTerm hz elapsed ≤ 2 * planMaxCps * 864000000000000 := by
  have hstart := hphase.start_le
  have htarget := hphase.target_le
  unfold PhasePlan.rateTerm
  split_ifs with hrise
  · calc
      _ ≤ 2 * phase.startCps * phase.cycles hz +
            (phase.targetCps - phase.startCps) * phase.cycles hz :=
          Nat.add_le_add_left (Nat.mul_le_mul_left _ helapsed) _
      _ = (2 * phase.startCps + (phase.targetCps - phase.startCps)) * phase.cycles hz := by ring
      _ ≤ 2 * planMaxCps * 864000000000000 := Nat.mul_le_mul (by omega) hlength
  · calc
      _ ≤ 2 * phase.startCps * phase.cycles hz := Nat.sub_le _ _
      _ ≤ 2 * planMaxCps * 864000000000000 := Nat.mul_le_mul (by omega) hlength

theorem dueRateTerm_eq {phase : PhasePlan} (hphase : phase.Valid)
    (hlength : phase.cycles hz ≤ 864000000000000) (helapsed : elapsed ≤ phase.cycles hz) :
    dueRateTerm phase (phase.cycles hz) elapsed = pure (phase.rateTerm hz elapsed) := by
  have hstart := hphase.start_le
  have hrate := rateTerm_le hphase hlength helapsed
  have htwice : 2 * phase.startCps < 2 ^ 128 := by
    simp only [planMaxCps] at hstart
    omega
  have hsteady : 2 * phase.startCps * phase.cycles hz ≤ 2 * planMaxCps * 864000000000000 :=
    Nat.mul_le_mul (by omega) hlength
  unfold PhasePlan.rateTerm at hrate ⊢
  simp only [planMaxCps] at hsteady hrate
  simp only [dueRateTerm, mul_of_lt htwice, pure_bind]
  rw [mul_of_lt (by omega), pure_bind]
  split_ifs at hrate ⊢ with hrise
  · rw [mul_of_lt (by omega), pure_bind, add_of_lt (by omega)]
  · have hfall := PhasePlan.falling_le helapsed
    rw [mul_of_lt (by omega), pure_bind, sub_of_le hfall (by omega)]

theorem arrivalsBy_le {phase : PhasePlan} (hphase : phase.Valid) (hhz : 0 < hz)
    (hduration : phase.durationSec ≤ planMaxDurationSec) (helapsed : elapsed ≤ phase.cycles hz) :
    phase.arrivalsBy hz elapsed ≤ 86400000000 := by
  calc
    phase.arrivalsBy hz elapsed ≤ phase.arrivalsBy hz (phase.cycles hz) :=
      PhasePlan.arrivalsBy_mono hphase hhz helapsed le_rfl
    _ = phase.arrivals := PhasePlan.arrivalsBy_cycles hphase hhz
    _ ≤ phase.durationSec * planMaxCps := PhasePlan.arrivals_le hphase
    _ ≤ 86400000000 := Nat.mul_le_mul_right _ hduration

theorem dueGlobal_eq {phase : PhasePlan} (hphase : phase.Valid) (hpos : 0 < hz)
    (hle : hz ≤ maxClockHz) (hduration : phase.durationSec ≤ planMaxDurationSec)
    (helapsed : elapsed ≤ phase.cycles hz) :
    dueGlobal phase hz elapsed = pure (phase.arrivalsBy hz elapsed) := by
  have hlength := cycles_le hduration hle
  have hrate := rateTerm_le hphase hlength helapsed
  have hcount := arrivalsBy_le hphase hpos hduration helapsed
  have hcycles := PhasePlan.cycles_pos hphase hpos
  have hnum : elapsed * phase.rateTerm hz elapsed ≤
      864000000000000 * (2 * planMaxCps * 864000000000000) :=
    Nat.mul_le_mul (helapsed.trans hlength) hrate
  have hden : 2 * phase.cycles hz * hz ≤ 2 * 864000000000000 * maxClockHz :=
    Nat.mul_le_mul (Nat.mul_le_mul_left 2 hlength) hle
  have hden_pos : 0 < 2 * phase.cycles hz * hz := Nat.mul_pos (by omega) hpos
  have hmul : mul 64 phase.durationSec hz = pure (phase.cycles hz) :=
    mul_of_lt (by change phase.cycles hz < _; omega)
  simp only [planMaxCps, maxClockHz] at hnum hden
  simp only [dueGlobal, hmul, pure_bind, dueRateTerm_eq hphase hlength helapsed]
  rw [mul_of_lt (by omega), pure_bind, mul_of_lt (by omega), pure_bind, mul_of_lt (by omega),
    pure_bind, add_of_lt (by omega), pure_bind, sub_of_le (by omega) (by omega), pure_bind]
  rw [← Nat.ceilDiv_eq_add_pred_div]
  exact narrow_of_lt (lt_of_le_of_lt hcount (by norm_num))

theorem dueShare_eq {global : Nat} (hindex : i < hands) (hhands : hands ≤ planMaxConcurrency)
    (hglobal : global ≤ 86400000000) : dueShare hands i global = pure (share hands i global) := by
  simp only [planMaxConcurrency] at hhands
  unfold dueShare
  split_ifs with hnone
  · have hzero : share hands i global = 0 := by
      apply Nat.eq_zero_of_le_zero
      rw [share_le_iff (by omega)]
      omega
    rw [hzero]
  · rw [sub_of_le (by omega) (by omega), pure_bind, add_of_lt (by omega), pure_bind,
      sub_of_le (by omega) (by omega), pure_bind]
    rfl

/-- What is due by the clock is the share of the shard, without overflow. -/
theorem dueCount_eq (h : Shard plan hz hands i) (hclock : s.cyclesPerSecond = hz)
    (hindex : s.phaseIndex < plan.phases.length)
    (helapsed : elapsed ≤ (schedulerPhase plan s.phaseIndex).cycles hz) :
    dueCount plan s elapsed =
      pure (share hands i ((schedulerPhase plan s.phaseIndex).arrivalsBy hz elapsed)) := by
  have hphase := schedulerPhase_valid h hindex
  have hduration := schedulerPhase_duration_le h hindex
  have hcount := arrivalsBy_le hphase h.hz_pos hduration helapsed
  simp only [dueCount, hclock, dueGlobal_eq hphase h.hz_pos h.hz_le hduration helapsed,
    pure_bind, h.shards, h.index]
  exact dueShare_eq h.index_lt h.hands_le hcount

end

/-! ### Skipping in bulk -/

section

variable (total cursor count : Nat) {first last : Nat}

/-- The positions of the weight circle that are skipped beyond whole turns start at `cursor`;
`clampSpan` is how far into them a position reaches. -/
def clampSpan (position : Nat) : Nat := min (max position cursor) (cursor + count % total)

/-- How often `count` selections from `cursor` on fall on the weights `[first, last)`. -/
def spanHits (first last : Nat) : Nat :=
  count / total * (last - first) + (clampSpan total cursor count last -
    clampSpan total cursor count first) + (clampSpan total cursor count (last + total) -
      clampSpan total cursor count (first + total))

theorem clampSpan_mono {a b : Nat} (h : a ≤ b) :
    clampSpan total cursor count a ≤ clampSpan total cursor count b := by
  unfold clampSpan
  omega

/-- The hits of two spans that follow each other add up. -/
theorem spanHits_add {mid : Nat} (hfirst : first ≤ mid) (hlast : mid ≤ last) :
    spanHits total cursor count first mid + spanHits total cursor count mid last =
      spanHits total cursor count first last := by
  have hwidth : count / total * (mid - first) + count / total * (last - mid) =
      count / total * (last - first) := by
    rw [← Nat.mul_add]
    congr 1
    omega
  have h1 := clampSpan_mono total cursor count hfirst
  have h2 := clampSpan_mono total cursor count hlast
  have h3 := clampSpan_mono total cursor count (Nat.add_le_add_right hfirst total)
  have h4 := clampSpan_mono total cursor count (Nat.add_le_add_right hlast total)
  unfold spanHits
  omega

variable {total cursor}

/-- Over all weights every selection is counted once. -/
theorem spanHits_all (hcursor : cursor < total) : spanHits total cursor count 0 total = count := by
  have hmod : count % total < total := Nat.mod_lt _ (by omega)
  have hdiv : count / total * total + count % total = count := Nat.div_add_mod' count total
  unfold spanHits clampSpan
  rw [Nat.sub_zero]
  omega

theorem spanHits_le (hcursor : cursor < total) (hfirst : first ≤ last) (hlast : last ≤ total) :
    spanHits total cursor count first last ≤ count := by
  have hall := spanHits_all count hcursor
  have hbefore := spanHits_add total cursor count zero_le (hfirst.trans hlast)
  have hafter := spanHits_add total cursor count hfirst hlast
  omega

variable {count}

theorem wrapHits_eq {lo hi : Nat} (hle : lo ≤ hi) (hhi : hi < 2 ^ 64)
    (hstop : cursor + count % total < 2 ^ 64) :
    wrapHits lo hi cursor (count % total) =
      pure (clampSpan total cursor count hi - clampSpan total cursor count lo) := by
  unfold wrapHits clampSpan
  rw [add_of_lt hstop, pure_bind]
  dsimp only
  split_ifs with hlt
  · rw [sub_of_le (by omega) (by omega)]
    congr 1
    omega
  · congr 1
    omega

theorem classHits_eq (hcursor : cursor < total) (htotal : total < 2 ^ 32) (hcount : count < 2 ^ 64)
    (hfirst : first ≤ last) (hlast : last ≤ total) :
    classHits total cursor count first last = pure (spanHits total cursor count first last) := by
  have hmod : count % total < total := Nat.mod_lt _ (by omega)
  have hle := spanHits_le count hcursor hfirst hlast
  unfold spanHits at hle ⊢
  unfold classHits
  rw [sub_of_le hfirst (by omega), pure_bind, mul_of_lt (by omega), pure_bind,
    wrapHits_eq hfirst (by omega) (by omega), pure_bind, add_of_lt (by omega), pure_bind,
    add_of_lt (by omega), pure_bind, add_of_lt (by omega), pure_bind,
    wrapHits_eq (by omega) (by omega) (by omega), pure_bind, add_of_lt (by omega)]

end

/-! ### The counters -/

/-- The sum of a figure over all phases and classes. -/
def tally (figure : ScheduleCount → Nat) (counts : Nat → Nat → ScheduleCount) : Nat :=
  ∑ phase ∈ Finset.range planMaxPhases, ∑ cls ∈ Finset.range planMaxClasses,
    figure (counts phase cls)

variable {n : Nat}

theorem sum_update_add {α : Type} (figure : α → Nat) (g : Nat → α) {k : Nat} (hk : k < n) (v : α) :
    ∑ x ∈ Finset.range n, figure (update g k v x) + figure (g k) =
      ∑ x ∈ Finset.range n, figure (g x) + figure v := by
  have hmem : k ∈ Finset.range n := Finset.mem_range.mpr hk
  have hrest : ∑ x ∈ (Finset.range n).erase k, figure (update g k v x) =
      ∑ x ∈ (Finset.range n).erase k, figure (g x) := by
    apply Finset.sum_congr rfl
    intro x hx
    rw [update_of_ne (Finset.ne_of_mem_erase hx)]
  rw [← Finset.sum_erase_add _ _ hmem, ← Finset.sum_erase_add _ (fun x => figure (g x)) hmem,
    hrest, update_self]
  omega

variable {cls : Nat}

theorem tally_setCount (figure : ScheduleCount → Nat) (counts : Nat → Nat → ScheduleCount)
    {phase : Nat} (hphase : phase < planMaxPhases) (hcls : cls < planMaxClasses)
    (count : ScheduleCount) :
    tally figure (setCount counts phase cls count) + figure (counts phase cls) =
      tally figure counts + figure count := by
  have houter := sum_update_add
    (fun row : Nat → ScheduleCount => ∑ cls ∈ Finset.range planMaxClasses, figure (row cls))
    counts hphase (update (counts phase) cls count)
  have hinner := sum_update_add figure (counts phase) hcls count
  unfold tally setCount
  omega

theorem setCount_attempted (counts : Nat → Nat → ScheduleCount) (phase cls : Nat)
    (count : ScheduleCount) (h : count.attempted = (counts phase cls).attempted) (p c : Nat) :
    (setCount counts phase cls count p c).attempted = (counts p c).attempted := by
  unfold setCount
  by_cases hp : p = phase
  · subst hp
    by_cases hc : c = cls
    · subst hc
      simpa using h
    · simp [hc]
  · simp [hp]

theorem le_tally (figure : ScheduleCount → Nat) (counts : Nat → Nat → ScheduleCount) {phase : Nat}
    (hphase : phase < planMaxPhases) (hcls : cls < planMaxClasses) :
    figure (counts phase cls) ≤ tally figure counts := by
  calc
    figure (counts phase cls) ≤ ∑ cls ∈ Finset.range planMaxClasses, figure (counts phase cls) :=
      Finset.single_le_sum (f := fun cls => figure (counts phase cls))
        (fun _ _ => zero_le) (Finset.mem_range.mpr hcls)
    _ ≤ tally figure counts :=
      Finset.single_le_sum
        (f := fun phase => ∑ cls ∈ Finset.range planMaxClasses, figure (counts phase cls))
        (fun _ _ => zero_le) (Finset.mem_range.mpr hphase)

/-- What skipping arrivals of a phase does to the counters. -/
structure SkippedInto (count : Nat) (before after : Nat → Nat → ScheduleCount) : Prop where
  skipped : tally ScheduleCount.skipped after = tally ScheduleCount.skipped before + count
  attempted : ∀ phase cls, (after phase cls).attempted = (before phase cls).attempted

variable {count : Nat}

theorem SkippedInto.tally_attempted {before after : Nat → Nat → ScheduleCount}
    (h : SkippedInto count before after) :
    tally ScheduleCount.attempted after = tally ScheduleCount.attempted before := by
  unfold tally
  simp only [h.attempted]

theorem skipClasses_yields {phase total cursor : Nat} (hphase : phase < planMaxPhases)
    (hcursor : cursor < total) (htotal : total < 2 ^ 32) (hcount : count < 2 ^ 63)
    (weights : List Nat) (cls first : Nat) (counts : Nat → Nat → ScheduleCount)
    (hcls : cls + weights.length ≤ planMaxClasses) (hfirst : first + weights.sum ≤ total)
    (hroom : tally ScheduleCount.skipped counts +
      spanHits total cursor count first (first + weights.sum) < 2 ^ 64) :
    Yields True (skipClasses phase total cursor count weights cls first counts)
      (SkippedInto (spanHits total cursor count first (first + weights.sum)) counts) := by
  induction weights generalizing cls first counts with
  | nil =>
    apply Yields.pure
    constructor <;> simp [spanHits]
  | cons weight rest ih =>
    simp only [sum_cons, length_cons] at *
    have hsplit := spanHits_add total cursor count (Nat.le_add_right first weight)
      (show first + weight ≤ first + (weight + rest.sum) by omega)
    have hroom_cls : cls < planMaxClasses := by omega
    have hcell := le_tally ScheduleCount.skipped counts hphase hroom_cls
    let raised : ScheduleCount := { counts phase cls with
      skipped := (counts phase cls).skipped + spanHits total cursor count first (first + weight) }
    have hskipped : tally ScheduleCount.skipped (setCount counts phase cls raised) =
        tally ScheduleCount.skipped counts +
          spanHits total cursor count first (first + weight) := by
      have hset := tally_setCount ScheduleCount.skipped counts hphase hroom_cls raised
      dsimp only [raised] at hset ⊢
      omega
    have hattempted : ∀ p c,
        (setCount counts phase cls raised p c).attempted = (counts p c).attempted :=
      setCount_attempted counts phase cls raised rfl
    have hnext := ih (cls + 1) (first + weight) (setCount counts phase cls raised) (by omega)
      (by omega) (by rw [add_assoc first weight rest.sum]; omega)
    rw [add_assoc first weight rest.sum] at hnext
    rw [skipClasses, add_of_lt (by omega), pure_bind,
      classHits_eq hcursor htotal (by omega) (by omega) (by omega), pure_bind, addSkipped,
      add_of_lt (by omega), pure_bind, pure_bind]
    apply hnext.mono
    intro after hafter
    have hsum := hafter.skipped
    constructor
    · omega
    · intro p c
      rw [hafter.attempted, hattempted]

theorem Plan.Valid.totalWeight_pos (h : plan.Valid) : 0 < plan.totalWeight := by
  obtain ⟨weight, hmem⟩ := exists_mem_of_ne_nil _ h.weights_ne
  rw [h.weight]
  exact (h.weight_pos weight hmem).trans_le (single_le_sum (fun _ _ => zero_le) _ hmem)

/-- Skipping consumes the shard's next arrivals and counts each of them once. -/
theorem schedulerSkip_yields (hvalid : plan.Valid) (hphase : s.phaseIndex < planMaxPhases)
    (hcount : count < 2 ^ 63) (hskipped : s.skippedTotal = tally ScheduleCount.skipped s.counts)
    (hroom : s.skippedTotal + count < 2 ^ 64) (hcursor : s.selectionCursor + count < 2 ^ 64)
    (hconsumed : s.phaseConsumed + count < 2 ^ 64) :
    Yields True (schedulerSkip plan s count) fun s' => ∃ counts, SkippedInto count s.counts counts ∧
      s' = { s with
        counts := counts
        selectionCursor := s.selectionCursor + count
        phaseConsumed := s.phaseConsumed + count
        skippedTotal := s.skippedTotal + count
        arrivals := s.arrivals ++
          (nextOrdinals plan s count).map fun ordinal => ⟨s.phaseIndex, ordinal, false⟩ } := by
  have hweight := hvalid.weight
  have hmod := Nat.mod_lt s.selectionCursor hvalid.totalWeight_pos
  have hall := spanHits_all count hmod
  have hclasses := skipClasses_yields hphase hmod hvalid.weight_lt hcount plan.weights 0 0 s.counts
    (by simpa using hvalid.weights_le) (by omega) (by rw [zero_add, ← hweight, hall]; omega)
  rw [zero_add, ← hweight, hall] at hclasses
  unfold schedulerSkip
  apply hclasses.bind
  intro counts hcounts
  rw [add_of_lt hcursor, pure_bind, add_of_lt hconsumed, pure_bind, add_of_lt hroom, pure_bind]
  exact Yields.pure ⟨counts, hcounts, rfl⟩

/-! ### Taking an arrival -/

theorem selectFrom_yields (selected : Nat) (hn : 0 < n) (weights : List Nat) (cls cumulative : Nat)
    (hsum : cumulative + weights.sum < 2 ^ 32) (hcls : cls + weights.length ≤ n) :
    Yields True (selectFrom selected weights cls cumulative) fun chosen => chosen < n := by
  induction weights generalizing cls cumulative with
  | nil => exact Yields.pure hn
  | cons weight rest ih =>
    simp only [sum_cons, length_cons] at hsum hcls
    rw [selectFrom, add_of_lt (by omega), pure_bind]
    split_ifs with hhit
    · exact Yields.pure (by omega)
    · exact ih (cls + 1) (cumulative + weight) (by omega) (by omega)

section

variable {plan : Plan} {hz hands i : Nat}

/-- A phase at a constant rate has its rate times its duration arrivals. -/
theorem PhasePlan.arrivals_steady {phase : PhasePlan} (hsteady : phase.startCps = phase.targetCps) :
    phase.arrivals = phase.durationSec * phase.targetCps := by
  unfold PhasePlan.arrivals
  rw [hsteady, ← two_mul, Nat.mul_left_comm, mul_comm 2]
  simpa using mul_ceilDiv_mul_right (a := phase.durationSec * phase.targetCps) one_pos two_pos

/-- The planned time does not wrap if the end of the phase does not. -/
theorem dueCycles_yields (h : Shard plan hz hands i) (ramp : RampInverse)
    (hclock : s.cyclesPerSecond = hz) (hindex : s.phaseIndex < plan.phases.length)
    (hnext : s.phaseConsumed < share hands i (schedulerPhase plan s.phaseIndex).arrivals) :
    Yields (s.phaseStartCycles + (schedulerPhase plan s.phaseIndex).cycles hz < 2 ^ 64)
      (dueCycles plan ramp s) fun _ => True := by
  have hphase := schedulerPhase_valid h hindex
  have hduration := schedulerPhase_duration_le h hindex
  have hlength := cycles_le hduration h.hz_le
  have harrivals := PhasePlan.arrivals_le hphase
  have hlt := (lt_share_iff h.hands_pos).mp hnext
  unfold dueCycles
  rw [hclock, h.shards, h.index]
  generalize schedulerPhase plan s.phaseIndex = phase at *
  have hcount : phase.durationSec * planMaxCps ≤ 86400000000 := Nat.mul_le_mul_right _ hduration
  have hhz := h.hz_le
  simp only [maxClockHz] at hhz
  rw [mul_of_lt (by omega), pure_bind, add_of_lt (by omega), pure_bind]
  split_ifs with hsteady hfirst
  · have hscaled : (s.phaseConsumed * hands + i) * hz ≤ 86400000000 * 10000000000 :=
      Nat.mul_le_mul (by omega) hhz
    have hoffset : (s.phaseConsumed * hands + i) * hz / phase.targetCps ≤ phase.cycles hz := by
      apply Nat.div_le_of_le_mul
      calc
        (s.phaseConsumed * hands + i) * hz ≤ phase.durationSec * phase.targetCps * hz :=
          Nat.mul_le_mul_right _ (PhasePlan.arrivals_steady hsteady ▸ hlt.le)
        _ = phase.targetCps * phase.cycles hz := by
          unfold PhasePlan.cycles
          ring
    rw [mul_of_lt (by omega), pure_bind, narrow_of_lt (by omega), pure_bind]
    exact Yields.narrow (fun _ => trivial) (by omega)
  · exact Yields.narrow (fun _ => trivial) (by omega)
  · have hoffset : ramp.offset phase hz (s.phaseConsumed * hands + i) ≤ phase.cycles hz :=
      ramp.offset_le phase hz _ hlt
    rw [narrow_of_lt (by omega), pure_bind]
    exact Yields.narrow (fun _ => trivial) (by omega)

end

end SnowTG.Traffic
