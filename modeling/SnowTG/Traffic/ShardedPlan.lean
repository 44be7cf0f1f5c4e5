import SnowTG.Traffic.SchedulerRun

/-!
# A plan split over its shards

Every shard runs its own scheduler, on its own clock readings and with its own answers.
Together the shards plan exactly the arrivals of the plan, and each arrival is consumed,
attempted or skipped, by exactly one of them.
-/

namespace SnowTG.Traffic

open Lib List
open Lib.Checked

/-- The row of a dataset a business with this ordinal reads. -/
def datasetRow {α : Type} (rows : List α) (ordinal : Nat) : Option α :=
  rows[ordinal % rows.length]?

/-- The plans of the shards of a compiled scenario, and the clock they run under. -/
structure Sharding (file : Scenario) (source : Plan) (hz hands : Nat) (plans : Nat → Plan) :
    Prop where
  load : planLoad file = some source
  hz_pos : 0 < hz
  hz_le : hz ≤ maxClockHz
  hands_pos : 0 < hands
  part : ∀ i < hands, planPartition source i hands = some (plans i)

/-- The states shard `i` can reach. -/
def ShardReaches (plans : Nat → Plan) (hz : Nat) (ramp : RampInverse) (i : Nat)
    (t : SchedulerState) : Prop :=
  ∃ epoch, (schedulerSystem (plans i) hz epoch ramp).Reach (fun _ _ => True) t

/-- The scheduler's current backlog. -/
def Scheduler.backlog (s : Scheduler) : Nat := s.phaseSeen - s.phaseConsumed

section

variable {file : Scenario} {source : Plan} {hz hands : Nat} {plans : Nat → Plan}
  {ramp : RampInverse} {i : Nat} {t : SchedulerState}

section

variable (h : Sharding file source hz hands plans)
include h

theorem Sharding.shard (hi : i < hands) : Shard (plans i) hz hands i :=
  shard_of_partition h.load (h.part i hi) h.hz_pos h.hz_le

theorem Sharding.phases (hi : i < hands) : (plans i).phases = source.phases :=
  (planPartition_shard (planLoad_valid h.load) (h.part i hi)).phases

theorem Sharding.inv (hi : i < hands) (hreach : ShardReaches plans hz ramp i t) :
    t.Inv (plans i) hz hands i := by
  obtain ⟨epoch, hrun⟩ := hreach
  exact SchedulerState.reach_inv (h.shard hi) hrun

/-- The ordinals consumed so far are the first ones of the shard. -/
theorem Sharding.ordinals_initial (hi : i < hands) (hreach : ShardReaches plans hz ramp i t) :
    t.sched.arrivals.map Arrival.ordinal <+: shardOrdinals hands i 0 source.phases := by
  have hshard := h.shard hi
  have hb := (h.inv hi hreach).accounted.books
  rw [hb.ordinals, ← h.phases hi]
  by_cases hindex : t.sched.phaseIndex < (plans i).phases.length
  · have htake := take_succ_phases hindex
    have hsplit : (plans i).phases.take (t.sched.phaseIndex + 1) ++
        (plans i).phases.drop (t.sched.phaseIndex + 1) = (plans i).phases :=
      take_append_drop _ _
    nth_rewrite 2 [← hsplit]
    rw [shardOrdinals_append, htake, shardOrdinals_append, append_assoc]
    apply prefix_append_right_inj _ |>.mpr
    have hle := hb.consumed_le.trans hb.seen_le
    obtain ⟨more, hmore⟩ := Nat.exists_eq_add_of_le hle
    rw [hb.offset, zero_add]
    simp only [shardOrdinals, dealt, append_nil]
    rw [hmore]
    change _ <+: firstOrdinals _ hands i (t.sched.phaseConsumed + more) ++ _
    rw [firstOrdinals_add, append_assoc]
    exact prefix_append _ _
  · have hpast : (plans i).phases.length ≤ t.sched.phaseIndex := Nat.le_of_not_lt hindex
    have hseen := hb.seen_le
    rw [schedulerPhase_past hshard hpast, share_zero] at hseen
    have hnone : t.sched.phaseConsumed = 0 := by
      have hconsumed := hb.consumed_le
      omega
    rw [take_of_length_le hpast, hnone]
    simp [firstOrdinals]

/-- Once every shard has stopped, together they have planned the arrivals of every phase. -/
theorem Sharding.sum_planned {final : Nat → SchedulerState}
    (hfinal : ∀ i < hands, ShardReaches plans hz ramp i (final i) ∧ (final i).sched.stopped = true) :
    ((List.range hands).map fun i => (final i).sched.plannedTotal).sum =
      arrivalsOf source.phases := by
  rw [← sum_sharesOf h.hands_pos source.phases]
  congr 1
  apply map_congr_left
  intro i hi
  have hlt := mem_range.mp hi
  obtain ⟨hreach, hstopped⟩ := hfinal i hlt
  rw [((h.inv hlt hreach).accounted.of_stopped (h.shard hlt) hstopped).1, h.phases hlt]

end

end

/-- In every run of every shard: what is planned is attempted, skipped or pending, the
backlog is bounded by the shard's concurrency, the planned total is a function of the time
since the epoch, due counts do not decrease, and words do not wrap while the end of the plan
and the number of events are in range.  Stopped shards have planned the rounded areas of all
phases. -/
theorem scheduler_accounts_exactly (file : Scenario) (source : Plan) (hz hands : Nat)
    (plans : Nat → Plan) (ramp : RampInverse) (h : Sharding file source hz hands plans) :
    (∀ i < hands, ∀ t, ShardReaches plans hz ramp i t →
      t.sched.plannedTotal = tally ScheduleCount.attempted t.sched.counts +
        t.sched.skippedTotal + t.sched.backlog ∧
      t.sched.skippedTotal = tally ScheduleCount.skipped t.sched.counts ∧
      t.sched.backlog ≤ (plans i).maxConcurrency ∧
      (t.sched.started = true →
        t.sched.plannedTotal = plannedBy hz hands i source.phases (t.clock - t.sched.startCycles)) ∧
      (∀ e, t.Enabled e → (t.step (plans i) ramp e).sched.phaseIndex = t.sched.phaseIndex →
        t.sched.phaseSeen ≤ (t.step (plans i) ramp e).sched.phaseSeen) ∧
      (t.sched.startCycles + source.durationSec * hz < 2 ^ 64 → t.events < 2 ^ 64 →
        t.wrapped = false)) ∧
    (∀ final : Nat → SchedulerState,
      (∀ i < hands, ShardReaches plans hz ramp i (final i) ∧ (final i).sched.stopped = true) →
      ((List.range hands).map fun i => (final i).sched.plannedTotal).sum =
        (source.phases.map fun phase =>
          (phase.durationSec * (phase.startCps + phase.targetCps)) ⌈/⌉ 2).sum) := by
  refine ⟨?_, fun final hfinal => h.sum_planned hfinal⟩
  intro i hi t hreach
  have hshard := h.shard hi
  have hinv := h.inv hi hreach
  have hacc := hinv.accounted
  have hb := hacc.books
  have hskipped := hb.skipped
  refine ⟨?_, hskipped, hacc.backlog_le, ?_, ?_, ?_⟩
  · rw [hskipped]
    exact hb.ledger.symm
  · intro hstarted
    rw [hacc.planned_eq hshard hstarted, h.phases hi]
  · intro e hen
    have hstep : Yields _ (SchedulerState.apply (plans i) ramp t.sched e) _ :=
      SchedulerState.apply_yields hshard hacc hen
    exact hstep.value.seen
  · intro hfits
    apply hinv.exact_of
    unfold cyclesOf
    rw [h.phases hi, ← (planLoad_valid h.load).duration]
    exact hfits

/-- The time of the `n`-th arrival on a ramp from `a` to `b` arrivals per second in `d` seconds. -/
noncomputable def rampTime (a b d n : ℝ) : ℝ :=
  2 * n / (a + √(a * a + 2 * ((b - a) / d) * n))

theorem rampTime_le {a b d n : ℝ} (ha : 0 ≤ a) (hd : 0 < d) (hn : 0 ≤ n)
    (hle : 2 * n ≤ d * (a + b)) : rampTime a b d n ≤ d := by
  have hroot : 2 * n / d - a ≤ √(a * a + 2 * ((b - a) / d) * n) := by
    apply Real.le_sqrt_of_sq_le
    have hgap : a * a + 2 * ((b - a) / d) * n - (2 * n / d - a) ^ 2 =
        2 * n * (d * (a + b) - 2 * n) / d ^ 2 := by
      field_simp
      ring
    have hpos : 0 ≤ 2 * n * (d * (a + b) - 2 * n) / d ^ 2 := by
      have := sub_nonneg.mpr hle
      positivity
    linarith
  apply div_le_of_le_mul₀ (by positivity) hd.le
  have hscaled := mul_le_mul_of_nonneg_left hroot hd.le
  rw [mul_sub, mul_div_cancel₀ _ hd.ne'] at hscaled
  linarith

/-- The inverse of `tg_due_cycles`, in exact arithmetic. -/
noncomputable def exactRamp : RampInverse where
  offset phase hz n :=
    ⌊rampTime phase.startCps phase.targetCps phase.durationSec n * hz⌋₊
  offset_le := by
    intro phase hz n hn
    have htwice : 2 * n ≤ phase.durationSec * (phase.startCps + phase.targetCps) ∧
        0 < phase.durationSec := by
      rw [PhasePlan.arrivals, Nat.ceilDiv_eq_add_pred_div] at hn
      refine ⟨by omega, Nat.pos_of_ne_zero fun hzero => ?_⟩
      rw [hzero, zero_mul] at hn
      omega
    apply Nat.floor_le_of_le
    rw [Nat.cast_mul]
    apply mul_le_mul_of_nonneg_right _ hz.cast_nonneg
    apply rampTime_le (Nat.cast_nonneg _) (Nat.cast_pos.mpr htwice.2) (Nat.cast_nonneg _)
    exact_mod_cast htwice.1

/-- Three arrivals on a ramp and four at a steady rate, on two shards. -/
def rampScenario : Scenario :=
  { maxConcurrency := 4, durationSec := none, targetCps := none
    phases := some [⟨"ramp", 1, some 2, 4⟩, ⟨"steady", 1, none, 4⟩], weights := [1] }

def rampSource : Plan := (planLoad rampScenario).getD Plan.empty

def rampPlans (i : Nat) : Plan := (planPartition rampSource i 2).getD Plan.empty

theorem ramp_sharding (hz : Nat) (hpos : 0 < hz) (hle : hz ≤ maxClockHz) :
    Sharding rampScenario rampSource hz 2 rampPlans := by
  refine ⟨rfl, hpos, hle, two_pos, ?_⟩
  intro i hi
  match i, hi with
  | 0, _ => rfl
  | 1, _ => rfl

/-- A shard at its start, on a clock of ten cycles per second. -/
def rampStart (i : Nat) (epoch : Option Nat) : SchedulerState :=
  ⟨(schedulerStart (rampPlans i) 10 epoch).value, 0, (schedulerStart (rampPlans i) 10 epoch).wrapped,
    0⟩

/-- A tick whose starts all succeed. -/
def busyTick (now budget : Nat) : SchedulerEvent := .tick now budget fun _ => ⟨0, true⟩

theorem ramp_run (i : Nat) (epoch : Option Nat) (events : List SchedulerEvent)
    (hrun : (schedulerSystem (rampPlans i) 10 epoch exactRamp).Admissible (fun _ _ => True)
      (rampStart i epoch) events) :
    ShardReaches rampPlans 10 exactRamp i
      ((schedulerSystem (rampPlans i) 10 epoch exactRamp).run (rampStart i epoch) events) :=
  ⟨epoch, System.Reach.run (.init rfl) hrun⟩

/-- Ticks within the ramp, within the steady phase and at the end of the plan. -/
def rampTicks : List SchedulerEvent := [busyTick 5 1, busyTick 12 2, busyTick 20 1]

noncomputable def rampEnd (i : Nat) : SchedulerState :=
  (schedulerSystem (rampPlans i) 10 (some 0) exactRamp).run (rampStart i (some 0)) rampTicks

theorem rampEnd_stopped : ∀ i < 2, ShardReaches rampPlans 10 exactRamp i (rampEnd i) ∧
    (rampEnd i).sched.stopped = true := by
  intro i hi
  refine ⟨ramp_run i (some 0) rampTicks ⟨⟨.inl zero_le, by decide, by decide⟩, trivial,
    ⟨.inl (show 5 ≤ 12 by decide), by decide, by decide⟩, trivial,
    ⟨.inl (show 12 ≤ 20 by decide), by decide, by decide⟩, trivial, trivial⟩, ?_⟩
  match i, hi with
  | 0, _ => rfl
  | 1, _ => rfl

/-- The shards attempt and skip arrivals in both phases, and plan seven together. -/
theorem scheduler_accounts_exactly_ramp :
    (rampEnd 0).sched.arrivals.map Arrival.attempted = [true, false, true, false] ∧
      ((List.range 2).map fun i => (rampEnd i).sched.plannedTotal).sum = 7 :=
  ⟨rfl, (scheduler_accounts_exactly rampScenario rampSource 10 2 rampPlans exactRamp
    (ramp_sharding 10 (by decide) (by decide))).2 rampEnd rampEnd_stopped⟩

/-- An epoch at the end of the clock's word makes the stop time wrap; and without a shared
epoch the first tick is one, so two runs with the same last tick can plan differently. -/
theorem scheduler_wraps_and_remembers_first_tick :
    Sharding rampScenario rampSource 10 2 rampPlans ∧
    (∃ t, ShardReaches rampPlans 10 exactRamp 0 t ∧ t.events = 1 ∧ t.wrapped = true) ∧
    ∃ t t', ShardReaches rampPlans 10 exactRamp 0 t ∧ ShardReaches rampPlans 10 exactRamp 0 t' ∧
      t.clock = t'.clock ∧ t.sched.plannedTotal ≠ t'.sched.plannedTotal := by
  refine ⟨ramp_sharding 10 (by decide) (by decide), ?_, ?_⟩
  · refine ⟨_, ramp_run 0 (some (2 ^ 64 - 1)) [busyTick (2 ^ 64 - 1) 0] ?_, rfl, rfl⟩
    exact ⟨⟨.inl zero_le, by decide, by decide⟩, trivial, trivial⟩
  · refine ⟨_, _, ramp_run 0 none [busyTick 0 0, busyTick 5 0] ?_,
      ramp_run 0 none [busyTick 5 0] ?_, rfl, ?_⟩
    · exact ⟨⟨.inl zero_le, by decide, by decide⟩, trivial,
        ⟨.inl zero_le, by decide, by decide⟩, trivial, trivial⟩
    · exact ⟨⟨.inl zero_le, by decide, by decide⟩, trivial, trivial⟩
    · exact Nat.one_ne_zero

/-- However the shards tick while their clocks go on, and whatever the callbacks answer, once all have
stopped the arrivals they consumed are the arrivals of the plan, each once.  An attempted arrival
belongs to its shard within its phase.  The ordinals that a shard has consumed, hence the dataset
rows read, are the first of those the plan gives to the shard. -/
theorem arrivals_partition_plan (file : Scenario) (source : Plan) (hz hands : Nat)
    (plans : Nat → Plan) (ramp : RampInverse) (h : Sharding file source hz hands plans) :
    (∀ final : Nat → SchedulerState,
      (∀ i < hands, ShardReaches plans hz ramp i (final i) ∧ (final i).sched.stopped = true) →
      ((List.range hands).flatMap fun i => (final i).sched.arrivals.map Arrival.ordinal).Perm
        (List.range ((List.range hands).map fun i => (final i).sched.plannedTotal).sum)) ∧
    (∀ i < hands, ∀ t, ShardReaches plans hz ramp i t → ∀ arrival ∈ t.sched.arrivals,
      arrivalsOf (source.phases.take arrival.phase) ≤ arrival.ordinal ∧
      (arrival.ordinal - arrivalsOf (source.phases.take arrival.phase)) % hands = i) ∧
    (∀ i < hands, ∀ t, ShardReaches plans hz ramp i t →
      t.sched.arrivals.map Arrival.ordinal <+: shardOrdinals hands i 0 source.phases ∧
      ∀ (α : Type) (rows : List α), t.sched.arrivals.map (fun a => datasetRow rows a.ordinal) <+:
        (shardOrdinals hands i 0 source.phases).map (datasetRow rows)) := by
  refine ⟨?_, ?_, ?_⟩
  · intro final hfinal
    rw [h.sum_planned hfinal]
    have hall := flatMap_shardOrdinals_perm h.hands_pos 0 source.phases
    simp only [Nat.zero_add, map_id'] at hall
    refine List.Perm.trans (List.Perm.of_eq ?_) hall
    apply flatMap_congr
    intro i hi
    have hlt := mem_range.mp hi
    obtain ⟨hreach, hstopped⟩ := hfinal i hlt
    rw [((h.inv hlt hreach).accounted.of_stopped (h.shard hlt) hstopped).2, h.phases hlt]
  · intro i hi t hreach arrival harrival
    have hplaced := (h.inv hi hreach).accounted.books.placed arrival harrival
    unfold Arrival.Placed at hplaced
    rwa [h.phases hi] at hplaced
  · intro i hi t hreach
    have hfirst := h.ordinals_initial hi hreach
    refine ⟨hfirst, fun α rows => ?_⟩
    simpa only [map_map, Function.comp_def] using hfirst.map (datasetRow rows)

theorem arrivals_partition_plan_ramp :
    (rampEnd 0).sched.arrivals.map Arrival.ordinal = [0, 2, 3, 5] ∧
      ((List.range 2).flatMap fun i => (rampEnd i).sched.arrivals.map Arrival.ordinal).Perm
        (List.range ((List.range 2).map fun i => (rampEnd i).sched.plannedTotal).sum) :=
  ⟨rfl, (arrivals_partition_plan rampScenario rampSource 10 2 rampPlans exactRamp
    (ramp_sharding 10 (by decide) (by decide))).1 rampEnd rampEnd_stopped⟩

/-- A shard whose clock reads 5 and then 3. -/
noncomputable def turnedBack (i : Nat) : SchedulerState :=
  ((rampStart i (some 0)).step (rampPlans i) exactRamp (busyTick 5 0)).step (rampPlans i) exactRamp
    (busyTick 3 0)

/-- A clock that goes back stops the shards with arrivals that are planned and never consumed. -/
theorem clock_going_back_leaves_arrivals :
    (∀ i < 2, (turnedBack i).sched.stopped = true) ∧
      ¬((List.range 2).flatMap fun i => (turnedBack i).sched.arrivals.map Arrival.ordinal).Perm
        (List.range ((List.range 2).map fun i => (turnedBack i).sched.plannedTotal).sum) := by
  refine ⟨fun i hi => ?_, fun hperm => ?_⟩
  · match i, hi with
    | 0, _ => rfl
    | 1, _ => rfl
  · exact absurd hperm.length_eq (by decide +kernel)

end SnowTG.Traffic
