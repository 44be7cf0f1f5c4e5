import SnowTG.Traffic.SchedulerDispatch

/-!
# Runs of a scheduler

A run ticks with a clock that never goes back once the epoch has passed; between ticks
flows finish and the resource pause comes and goes.  What has been planned depends on the clock alone, and the
arrivals consumed are the first ones of the shard, whatever the ticks and the callback did.
-/

namespace SnowTG.Traffic

open Lib List
open Lib.Checked

/-- What happens to a scheduler.  A tick carries the answers of its start callback. -/
inductive SchedulerEvent where
  | tick (now budget : Nat) (answers : Nat → StartOutcome)
  | flowFinished
  | resource (available : Bool)

/-- A scheduler with the time of its latest tick, whether its arithmetic has wrapped, and the
number of events so far. -/
structure SchedulerState where
  sched : Scheduler
  clock : Nat
  wrapped : Bool
  events : Nat

/-- A scheduler with a shared epoch, or one that starts at its first tick. -/
def schedulerStart (plan : Plan) (hz : Nat) : Option Nat → Checked Scheduler
  | none => pure (schedulerInit plan hz)
  | some epoch => startAt plan (schedulerInit plan hz) epoch

/-- One tick on its own, with the answers of the start callback given in order. -/
def tickWith (plan : Plan) (ramp : RampInverse) (now budget : Nat) (answers : Nat → StartOutcome)
    (s : Scheduler) : Checked Scheduler := do
  let t ← schedulerTick plan ramp (fun _ n => (answers n, n + 1)) now budget s 0
  pure t.sched

namespace SchedulerState

def apply (plan : Plan) (ramp : RampInverse) (s : Scheduler) : SchedulerEvent → Checked Scheduler
  | .tick now budget answers => tickWith plan ramp now budget answers s
  | .flowFinished => pure (onFlowFinished s)
  | .resource available => setResourceAvailable s available

def clockAfter (clock : Nat) : SchedulerEvent → Nat
  | .tick now _ _ => max clock now
  | .flowFinished => clock
  | .resource _ => clock

def step (plan : Plan) (ramp : RampInverse) (s : SchedulerState) (e : SchedulerEvent) :
    SchedulerState :=
  let after := apply plan ramp s.sched e
  { sched := after.value
    clock := clockAfter s.clock e
    wrapped := s.wrapped || after.wrapped
    events := s.events + 1 }

/-- The scheduler takes no notice of a tick at this time: it has stopped, or the epoch is to come. -/
def Ignores (s : Scheduler) (now : Nat) : Prop :=
  s.stopped = true ∨ s.started = true ∧ now < s.startCycles

/-- Times and budgets are words, and the clock does not go back; ticks without effect may come at
any time. -/
def Enabled (s : SchedulerState) : SchedulerEvent → Prop
  | .tick now budget _ => (s.clock ≤ now ∨ Ignores s.sched now) ∧ now < 2 ^ 64 ∧ budget < 2 ^ 32
  | .flowFinished => True
  | .resource _ => True

end SchedulerState

/-- The runs of a scheduler of the plan from an epoch. -/
def schedulerSystem (plan : Plan) (hz : Nat) (epoch : Option Nat) (ramp : RampInverse) :
    System SchedulerState SchedulerEvent where
  init s :=
    let first := schedulerStart plan hz epoch
    s = ⟨first.value, 0, first.wrapped, 0⟩
  enabled := SchedulerState.Enabled
  step := SchedulerState.step plan ramp

/-- Where a scheduler is in its plan. -/
inductive Stage (plan : Plan) (hz hands i clock : Nat) (s : Scheduler) : Prop where
  | waiting (started : s.started = false) (stopped : s.stopped = false)
      (index : s.phaseIndex = 0) (seen : s.phaseSeen = 0) (epoch_zero : s.startCycles = 0)
  | running (started : s.started = true) (stopped : s.stopped = false)
      (phase : Running plan hz hands i (max clock s.startCycles) s)
      (last : s.lastCycles = max clock s.startCycles)
  | finished (started : s.started = true) (ended : Over plan hz clock s)

/-- What holds between the events of a run. -/
structure Accounted (plan : Plan) (hz hands i clock : Nat) (s : Scheduler) : Prop where
  books : Books plan hz hands i s
  backlog_le : s.phaseSeen - s.phaseConsumed ≤ plan.maxConcurrency
  stage : Stage plan hz hands i clock s

section

variable {plan : Plan} {hz hands i clock : Nat} {s : Scheduler} {ramp : RampInverse}
  {s' : Scheduler} {now budget : Nat} {σ : Type} {t : SchedulerState} {e : SchedulerEvent}

theorem first_phase_cycles (h : Shard plan hz hands i) : 0 < plan.phases.length ∧
    0 < (schedulerPhase plan 0).cycles hz := by
  have hpos : 0 < plan.phases.length := length_pos_of_ne_nil h.valid.phases_ne
  exact ⟨hpos, PhasePlan.cycles_pos (schedulerPhase_valid h hpos) h.hz_pos⟩

theorem cyclesOf_phases_le (h : Shard plan hz hands i) :
    cyclesOf plan.phases hz ≤ 864000000000000 := by
  unfold cyclesOf
  rw [← h.valid.duration]
  exact Nat.mul_le_mul h.valid.duration_le h.hz_le

theorem tally_zero (figure : ScheduleCount → Nat) (hzero : figure ⟨0, 0⟩ = 0) :
    tally figure (fun _ _ => ⟨0, 0⟩) = 0 := by
  simp [tally, hzero]

theorem schedulerInit_books : Books plan hz hands i (schedulerInit plan hz) := by
  have hattempted := tally_zero ScheduleCount.attempted rfl
  have hskipped := tally_zero ScheduleCount.skipped rfl
  constructor <;> dsimp only [schedulerInit]
  · exact zero_le
  · simp
  · simp [arrivalsOf]
  · exact zero_le
  · exact le_rfl
  · simp [sharesOf]
  · rw [hattempted, hskipped]
  · exact hskipped.symm
  · simp [hattempted, hskipped]
  · simp [shardOrdinals, firstOrdinals]
  · simp
  · exact zero_le

/-- Setting the epoch of a scheduler that waits. -/
theorem startAt_yields (h : Shard plan hz hands i) (hb : Books plan hz hands i s)
    (hstopped : s.stopped = false) (hindex : s.phaseIndex = 0) (hseen : s.phaseSeen = 0)
    (epoch clock : Nat) (hclock : clock ≤ epoch) :
    Yields (epoch + cyclesOf plan.phases hz < 2 ^ 64) (startAt plan s epoch) fun s' =>
      Accounted plan hz hands i clock s' ∧ s'.startCycles = epoch ∧ s'.started = true ∧
      s'.phaseIndex = 0 ∧ s'.concurrencyBlockedTurns = s.concurrencyBlockedTurns ∧
      s'.resourcePauses = s.resourcePauses := by
  obtain ⟨hlength, hcycles⟩ := first_phase_cycles h
  have hconsumed := hb.consumed_le
  have hlong := cyclesOf_phases_le h
  have hmul : mul 64 plan.durationSec s.cyclesPerSecond = pure (cyclesOf plan.phases hz) := by
    unfold cyclesOf at hlong ⊢
    rw [hb.clock, h.valid.duration]
    exact mul_of_lt (by omega)
  have hset : ∀ stop, Accounted plan hz hands i clock { s with
      started := true, startCycles := epoch, phaseStartCycles := epoch, lastCycles := epoch
      stopCycles := stop } := by
    intro stop
    refine ⟨{ hb with begins := ?_ }, ?_, ?_⟩
    · simp [hindex]
    · dsimp only
      omega
    · refine .running rfl hstopped ⟨?_, ?_, ?_, ?_⟩ ?_
      · dsimp only
        omega
      · exact Nat.le_max_right _ _
      · dsimp only
        rw [hindex, Nat.max_eq_right hclock, Nat.sub_self]
        exact hcycles
      · dsimp only
        rw [hseen, Nat.max_eq_right hclock, Nat.sub_self, PhasePlan.arrivalsBy_zero, share_zero]
      · exact (Nat.max_eq_right hclock).symm
  unfold startAt
  rw [hmul, pure_bind]
  have hstop : Yields (epoch + cyclesOf plan.phases hz < 2 ^ 64)
      (add 64 epoch (cyclesOf plan.phases hz)) fun _ => True :=
    Yields.narrow (fun _ => trivial) (fun hlt => hlt)
  apply hstop.bind
  intro stop _
  exact Yields.pure ⟨hset stop, rfl, rfl, hindex, rfl, rfl⟩

/-- The due count of a phase never decreases with the clock. -/
theorem Running.seen_mono (h : Shard plan hz hands i) {now' : Nat}
    (hrun : Running plan hz hands i now s) (hrun' : Running plan hz hands i now' s')
    (hnow : now ≤ now') (hindex : s'.phaseIndex = s.phaseIndex)
    (hstart : s'.phaseStartCycles = s.phaseStartCycles) : s.phaseSeen ≤ s'.phaseSeen := by
  have hend := hrun'.not_ended
  rw [hindex, hstart] at hend
  rw [hrun.seen, hrun'.seen, hindex, hstart]
  apply share_mono h.hands_pos
  exact PhasePlan.arrivalsBy_mono (schedulerPhase_valid h hrun.index_lt) h.hz_pos (by omega) hend.le

/-- What one event does: the account is kept, the epoch is set once, counters move by at most
one, and the due count of a phase does not decrease. -/
structure Advanced (plan : Plan) (hz hands i clock epoch : Nat) (s s' : Scheduler) : Prop where
  accounted : Accounted plan hz hands i clock s'
  epoch : s'.startCycles = epoch
  turns : s'.concurrencyBlockedTurns ≤ s.concurrencyBlockedTurns + 1
  pauses : s'.resourcePauses ≤ s.resourcePauses + 1
  seen : s'.phaseIndex = s.phaseIndex → s.phaseSeen ≤ s'.phaseSeen

/-- The epoch of a scheduler once the clock has shown `now`. -/
def epochAt (s : Scheduler) (now : Nat) : Nat := if s.started then s.startCycles else now

/-- A tick of a running scheduler: the phase loop, then the dispatch of what is pending. -/
theorem tick_running_yields (h : Shard plan hz hands i) (start : Dispatch → σ → StartOutcome × σ)
    (host : σ) (hb : Books plan hz hands i s) (hclock : clock ≤ now) (hnow : now < 2 ^ 64)
    (hbudget : budget < 2 ^ 32) (hstarted : s.started = true) (hstopped : s.stopped = false)
    (hrun : Running plan hz hands i (max clock s.startCycles) s) (hbegun : s.startCycles ≤ now) :
    Yields (s.startCycles + cyclesOf plan.phases hz < 2 ^ 64 ∧
        s.concurrencyBlockedTurns + 1 < 2 ^ 64)
      (do
        let caught ← catchUp plan now (schedulerPhases plan) { s with lastCycles := now }
        if caught.2 then dispatchPending plan ramp start budget caught.1 host
        else pure ⟨caught.1, host, 0, 0⟩)
      fun t => Advanced plan hz hands i now s.startCycles s t.sched ∧ t.sched.started = true := by
  have hindex := hrun.index_lt
  have hphase := schedulerPhase_valid h hindex
  have hmax : max clock s.startCycles ≤ now := Nat.max_le.mpr ⟨hclock, hbegun⟩
  have hbooks : Books plan hz hands i { s with lastCycles := now } :=
    { hb with }
  have hnot := hrun.not_ended
  have hdue : s.phaseSeen ≤ share hands i ((schedulerPhase plan s.phaseIndex).arrivalsBy hz
      (min (now - s.phaseStartCycles) ((schedulerPhase plan s.phaseIndex).cycles hz))) := by
    rw [hrun.seen]
    apply share_mono h.hands_pos
    exact PhasePlan.arrivalsBy_mono hphase h.hz_pos (by omega) (Nat.min_le_right _ _)
  have hcatch := catchUp_yields h hnow (schedulerPhases plan) { s with lastCycles := now } hbooks
    hindex (by rw [schedulerPhases_eq h]; exact Nat.le_add_left _ _) (hrun.begun.trans hmax) hdue
  apply (hcatch.weaken fun _ => trivial).bind
  rintro ⟨r, running⟩ ⟨hbr, hsame, hcases⟩
  have hstart : r.startCycles = s.startCycles := hsame.startCycles
  have hlast : r.lastCycles = now := hsame.lastCycles
  have hon : r.started = true := hsame.started.trans hstarted
  have hturns : r.concurrencyBlockedTurns = s.concurrencyBlockedTurns := hsame.turns
  have hpauses : r.resourcePauses = s.resourcePauses := hsame.pauses
  obtain ⟨hflag, hstop, hrunning⟩ | ⟨hflag, hover⟩ := hcases
  · dsimp only at hflag hstop hrunning hbr
    rw [hflag]
    have hpending := dispatchPending_yields start ramp h host hbudget hbr hrunning
    rw [hstart, hturns] at hpending
    apply hpending.mono
    rintro t ⟨ht, htiming, hcount⟩
    have hmaxed : max now s.startCycles = now := Nat.max_eq_left hbegun
    have hrunning' := ht.running
    refine ⟨⟨⟨ht.books, by rw [← ht.pending]; exact ht.pending_le, ?_⟩, ?_, hcount, ?_, ?_⟩, ?_⟩
    · refine .running (htiming.started.trans hon) ((htiming.stopped.trans hstop).trans hstopped)
        ?_ ?_
      · rw [htiming.startCycles, hstart, hmaxed]
        exact hrunning'
      · rw [htiming.lastCycles, htiming.startCycles, hstart, hmaxed, hlast]
    · rw [htiming.startCycles, hstart]
    · rw [htiming.pauses, hpauses]
      exact Nat.le_succ _
    · intro hsameIndex
      refine hrun.seen_mono h hrunning' hmax hsameIndex ?_
      rw [ht.books.begins, hb.begins, hsameIndex, htiming.startCycles, hstart]
    · exact htiming.started.trans hon
  · dsimp only at hflag hbr hover
    rw [hflag]
    have hlength : r.phaseIndex = plan.phases.length := hover.index
    have hnone : r.phaseSeen = 0 := by
      have hseen := hbr.seen_le
      rw [hlength, schedulerPhase_past h le_rfl, share_zero] at hseen
      exact Nat.eq_zero_of_le_zero hseen
    refine Yields.pure ⟨⟨⟨hbr, ?_, .finished hon hover⟩, hstart, ?_, ?_, ?_⟩, hon⟩
    · dsimp only
      omega
    · dsimp only
      omega
    · dsimp only
      omega
    · dsimp only
      omega

/-- Nothing happened but the clock going on. -/
theorem Accounted.advanced_refl {epoch : Nat} (hacc : Accounted plan hz hands i now s)
    (hepoch : s.startCycles = epoch) : Advanced plan hz hands i now epoch s s :=
  ⟨hacc, hepoch, Nat.le_succ _, Nat.le_succ _, fun _ => le_rfl⟩

theorem schedulerTick_yields (h : Shard plan hz hands i) (ramp : RampInverse)
    (start : Dispatch → σ → StartOutcome × σ) (host : σ) (hacc : Accounted plan hz hands i clock s)
    (hclock : clock ≤ now ∨ SchedulerState.Ignores s now) (hnow : now < 2 ^ 64)
    (hbudget : budget < 2 ^ 32) :
    Yields (epochAt s now + cyclesOf plan.phases hz < 2 ^ 64 ∧
        s.concurrencyBlockedTurns + 1 < 2 ^ 64)
      (schedulerTick plan ramp start now budget s host)
      fun t => Advanced plan hz hands i (max clock now) (epochAt s now) s t.sched ∧
        t.sched.started = true := by
  have hb := hacc.books
  unfold schedulerTick
  cases hacc.stage with
  | waiting hstarted hstopped hindex hseen _ =>
    have hlatest : max clock now = now :=
      max_eq_right (hclock.resolve_right (by simp [SchedulerState.Ignores, hstarted, hstopped]))
    rw [if_neg (by simp [hstopped]), if_pos (by simp [hstarted])]
    have hepoch : epochAt s now = now := by simp [epochAt, hstarted]
    rw [hepoch, hlatest]
    apply ((startAt_yields h hb hstopped hindex hseen now now le_rfl).weaken And.left).bind
    rintro s' ⟨hacc', hstart, hon, hindex', hturns, hpauses⟩
    refine Yields.pure ⟨⟨hacc', hstart, ?_, ?_, ?_⟩, hon⟩
    · dsimp only
      omega
    · dsimp only
      omega
    · dsimp only
      omega
  | running hstarted hstopped hrun hlast =>
    have hepoch : epochAt s now = s.startCycles := by simp [epochAt, hstarted]
    rw [hepoch, if_neg (by simp [hstopped]), if_neg (by simp [hstarted])]
    by_cases hearly : now < s.startCycles
    · -- before the epoch nothing happens
      rw [if_pos hearly]
      refine Yields.pure ⟨Accounted.advanced_refl ⟨hb, hacc.backlog_le, ?_⟩ rfl, hstarted⟩
      have hmax : max (max clock now) s.startCycles = max clock s.startCycles := by omega
      exact .running hstarted hstopped (by rw [hmax]; exact hrun) (by rw [hmax]; exact hlast)
    · have hclock : clock ≤ now :=
        hclock.resolve_right (by simp [SchedulerState.Ignores, hstopped, hearly])
      rw [if_neg hearly, if_neg (by omega), max_eq_right hclock]
      exact tick_running_yields h start host hb hclock hnow hbudget hstarted hstopped hrun
        (Nat.le_of_not_lt hearly)
  | finished hstarted hover =>
    have hepoch : epochAt s now = s.startCycles := by simp [epochAt, hstarted]
    rw [hepoch, if_pos hover.stopped]
    refine Yields.pure ⟨Accounted.advanced_refl ⟨hb, hacc.backlog_le, ?_⟩ rfl, hstarted⟩
    exact .finished hstarted ⟨hover.stopped, hover.index, hover.ended.trans (le_max_left _ _)⟩

/-- The epoch of a scheduler after an event. -/
def epochAfter (s : Scheduler) : SchedulerEvent → Nat
  | .tick now _ _ => epochAt s now
  | .flowFinished => s.startCycles
  | .resource _ => s.startCycles

theorem Stage.congr (hstage : Stage plan hz hands i clock s) (hstarted : s'.started = s.started)
    (hstopped : s'.stopped = s.stopped) (hindex : s'.phaseIndex = s.phaseIndex)
    (hseen : s'.phaseSeen = s.phaseSeen) (hstart : s'.startCycles = s.startCycles)
    (hphase : s'.phaseStartCycles = s.phaseStartCycles) (hlast : s'.lastCycles = s.lastCycles) :
    Stage plan hz hands i clock s' := by
  cases hstage with
  | waiting h1 h2 h3 h4 h5 =>
    exact .waiting (hstarted.trans h1) (hstopped.trans h2) (hindex.trans h3) (hseen.trans h4)
      (hstart.trans h5)
  | running h1 h2 hrun h4 =>
    refine .running (hstarted.trans h1) (hstopped.trans h2) ⟨?_, ?_, ?_, ?_⟩ ?_
    · rw [hindex]
      exact hrun.index_lt
    · rw [hphase, hstart]
      exact hrun.begun
    · rw [hphase, hstart, hindex]
      exact hrun.not_ended
    · rw [hphase, hstart, hindex, hseen]
      exact hrun.seen
    · rw [hlast, hstart]
      exact h4
  | finished h1 hover =>
    exact .finished (hstarted.trans h1) ⟨hstopped.trans hover.stopped, hindex.trans hover.index,
      by rw [hstart]; exact hover.ended⟩

theorem onFlowFinished_advanced (hacc : Accounted plan hz hands i clock s) :
    Advanced plan hz hands i clock s.startCycles s (onFlowFinished s) := by
  unfold onFlowFinished
  split_ifs with hactive
  · have hle := hacc.books.active_le
    exact ⟨⟨hacc.books.setActive (by omega), hacc.backlog_le,
      hacc.stage.congr rfl rfl rfl rfl rfl rfl rfl⟩, rfl, Nat.le_succ _, Nat.le_succ _,
      fun _ => le_rfl⟩
  · exact hacc.advanced_refl rfl

theorem Books.setPause (hb : Books plan hz hands i s) (paused : Bool) (pauses : Nat) :
    Books plan hz hands i { s with resourcePaused := paused, resourcePauses := pauses } :=
  { hb with }

theorem setResourceAvailable_yields (hacc : Accounted plan hz hands i clock s) (available : Bool) :
    Yields (s.resourcePauses + 1 < 2 ^ 64) (setResourceAvailable s available)
      (Advanced plan hz hands i clock s.startCycles s) := by
  unfold setResourceAvailable
  split_ifs with hpause hresume
  · have hcount : Yields (s.resourcePauses + 1 < 2 ^ 64) (add 64 s.resourcePauses 1)
        fun pauses => pauses ≤ s.resourcePauses + 1 := by
      constructor
      · exact Nat.mod_le _ _
      · intro hroom
        rw [add_of_lt hroom]
        rfl
    apply hcount.bind
    intro pauses hle
    exact Yields.pure ⟨⟨hacc.books.setPause _ _, hacc.backlog_le,
      hacc.stage.congr rfl rfl rfl rfl rfl rfl rfl⟩, rfl, Nat.le_succ _, hle, fun _ => le_rfl⟩
  · exact Yields.pure ⟨⟨hacc.books.setPause _ _, hacc.backlog_le,
      hacc.stage.congr rfl rfl rfl rfl rfl rfl rfl⟩, rfl, Nat.le_succ _, Nat.le_succ _,
      fun _ => le_rfl⟩
  · exact Yields.pure (hacc.advanced_refl rfl)

/-- What one event of a run does. -/
theorem SchedulerState.apply_yields (h : Shard plan hz hands i)
    (hacc : Accounted plan hz hands i t.clock t.sched) (hen : t.Enabled e) :
    Yields (epochAfter t.sched e + cyclesOf plan.phases hz < 2 ^ 64 ∧
        t.sched.concurrencyBlockedTurns + 1 < 2 ^ 64 ∧ t.sched.resourcePauses + 1 < 2 ^ 64)
      (SchedulerState.apply plan ramp t.sched e)
      (Advanced plan hz hands i (SchedulerState.clockAfter t.clock e) (epochAfter t.sched e)
        t.sched) := by
  cases e with
  | tick now budget answers =>
    obtain ⟨hclock, hnow, hbudget⟩ := hen
    have htick := schedulerTick_yields h ramp (fun _ n => (answers n, n + 1)) 0 hacc
      hclock hnow hbudget
    apply (htick.weaken fun hclean => ⟨hclean.1, hclean.2.1⟩).bind
    rintro r ⟨hadvanced, -⟩
    exact Yields.pure hadvanced
  | flowFinished => exact Yields.pure (onFlowFinished_advanced hacc)
  | resource available =>
    exact (setResourceAvailable_yields hacc available).weaken fun hclean => hclean.2.2

/-- The invariant of a run. -/
structure SchedulerState.Inv (plan : Plan) (hz hands i : Nat) (t : SchedulerState) : Prop where
  accounted : Accounted plan hz hands i t.clock t.sched
  turns_le : t.sched.concurrencyBlockedTurns ≤ t.events
  pauses_le : t.sched.resourcePauses ≤ t.events
  exact_of : t.sched.startCycles + cyclesOf plan.phases hz < 2 ^ 64 → t.events < 2 ^ 64 →
    t.wrapped = false

section

variable (h : Shard plan hz hands i)
include h

theorem SchedulerState.inv_init {epoch : Option Nat}
    (hinit : (schedulerSystem plan hz epoch ramp).init t) : t.Inv plan hz hands i := by
  have hb : Books plan hz hands i _ := schedulerInit_books
  obtain rfl : t = ⟨(schedulerStart plan hz epoch).value, 0,
    (schedulerStart plan hz epoch).wrapped, 0⟩ := hinit
  cases epoch with
  | none =>
    refine ⟨⟨hb, zero_le, .waiting rfl rfl rfl rfl rfl⟩, le_rfl, le_rfl, fun _ _ => rfl⟩
  | some epoch =>
    have hstart := startAt_yields h hb rfl rfl rfl epoch 0 zero_le
    obtain ⟨hacc, hepoch, -, -, hturns, hpauses⟩ := hstart.value
    refine ⟨hacc, hturns.le, hpauses.le, ?_⟩
    intro hfits _
    apply hstart.exact_of
    rw [← hepoch]
    exact hfits

theorem SchedulerState.inv_step (hinv : t.Inv plan hz hands i) (hen : t.Enabled e) :
    (t.step plan ramp e).Inv plan hz hands i := by
  have hstep : Yields _ (SchedulerState.apply plan ramp t.sched e) _ :=
    SchedulerState.apply_yields h hinv.accounted hen
  have hadvanced := hstep.value
  have hturns := hadvanced.turns
  have hpauses := hadvanced.pauses
  have hturns_le := hinv.turns_le
  have hpauses_le := hinv.pauses_le
  refine ⟨hadvanced.accounted, ?_, ?_, ?_⟩
  · dsimp only [SchedulerState.step]
    omega
  · dsimp only [SchedulerState.step]
    omega
  · intro hfits hevents
    dsimp only [SchedulerState.step] at hfits hevents ⊢
    rw [hadvanced.epoch] at hfits
    have hbefore : t.wrapped = false := by
      apply hinv.exact_of _ (by omega)
      -- the epoch either stays or was not set before
      cases hinv.accounted.stage with
      | waiting _ _ _ _ hzero =>
        have hlong := cyclesOf_phases_le h
        omega
      | running hstarted _ _ _ | finished hstarted _ =>
        have hsame : epochAfter t.sched e = t.sched.startCycles := by
          cases e <;> simp [epochAfter, epochAt, hstarted]
        rwa [hsame] at hfits
    rw [hbefore, hstep.exact_of ⟨hfits, by omega, by omega⟩]
    rfl

theorem SchedulerState.reach_inv {epoch : Option Nat} {ok : SchedulerState → SchedulerEvent → Prop}
    (hreach : (schedulerSystem plan hz epoch ramp).Reach ok t) : t.Inv plan hz hands i := by
  apply hreach.invariant
  · intro t hinit
    exact SchedulerState.inv_init h hinit
  · intro t e hinv hen _
    exact SchedulerState.inv_step h hinv hen

/-- What is planned by the clock, and nothing else, is planned. -/
theorem Accounted.planned_eq (hacc : Accounted plan hz hands i clock s)
    (hstarted : s.started = true) :
    s.plannedTotal = plannedBy hz hands i plan.phases (clock - s.startCycles) := by
  have hb := hacc.books
  have hsplit : plan.phases.take s.phaseIndex ++ plan.phases.drop s.phaseIndex = plan.phases :=
    take_append_drop _ _
  have hvalid : ∀ phase ∈ plan.phases.take s.phaseIndex, phase.Valid := fun q hq =>
    h.valid.phase q (mem_of_mem_take hq)
  have hbegins := hb.begins
  cases hacc.stage with
  | waiting hoff => simp [hoff] at hstarted
  | running _ _ hrun _ =>
    have hindex := hrun.index_lt
    have hend := hrun.not_ended
    have hbegun := hrun.begun
    have hhead : plan.phases.drop s.phaseIndex =
        schedulerPhase plan s.phaseIndex :: plan.phases.drop (s.phaseIndex + 1) := by
      rw [schedulerPhase_eq hindex]
      exact drop_eq_getElem_cons hindex
    have helapsed : clock - s.startCycles - cyclesOf (plan.phases.take s.phaseIndex) hz =
        max clock s.startCycles - s.phaseStartCycles := by omega
    calc
      s.plannedTotal = sharesOf hands i (plan.phases.take s.phaseIndex) + s.phaseSeen :=
        hb.planned
      _ = sharesOf hands i (plan.phases.take s.phaseIndex) +
          plannedBy hz hands i (plan.phases.drop s.phaseIndex)
            (clock - s.startCycles - cyclesOf (plan.phases.take s.phaseIndex) hz) := by
        rw [helapsed, hhead, plannedBy_cons_of_le _ _ hend.le, hrun.seen]
      _ = plannedBy hz hands i plan.phases (clock - s.startCycles) := by
        rw [← plannedBy_append h.hz_pos _ hvalid (by omega), hsplit]
  | finished _ hover =>
    have hindex := hover.index
    have hended := hover.ended
    have hseen := hb.seen_le
    rw [hindex, schedulerPhase_past h le_rfl, share_zero] at hseen
    have hplanned := hb.planned
    rw [hindex, take_length] at hplanned
    have hall : plannedBy hz hands i (plan.phases ++ []) (clock - s.startCycles) = _ :=
      plannedBy_append h.hz_pos [] h.valid.phase (by omega)
    rw [append_nil] at hall
    rw [hall, hplanned]
    simp only [plannedBy]
    omega

/-- A stopped scheduler has planned all its arrivals and consumed them in order. -/
theorem Accounted.of_stopped (hacc : Accounted plan hz hands i clock s)
    (hstopped : s.stopped = true) :
    s.plannedTotal = sharesOf hands i plan.phases ∧
      s.arrivals.map Arrival.ordinal = shardOrdinals hands i 0 plan.phases := by
  have hb := hacc.books
  have hindex : s.phaseIndex = plan.phases.length := by
    cases hacc.stage with
    | waiting _ hstop | running _ hstop => simp [hstop] at hstopped
    | finished _ hover => exact hover.index
  have hseen := hb.seen_le
  rw [hindex, schedulerPhase_past h le_rfl, share_zero] at hseen
  have hconsumed := hb.consumed_le
  have hnone : s.phaseConsumed = 0 := by omega
  have hplanned := hb.planned
  have hordinals := hb.ordinals
  rw [hindex, take_length] at hplanned hordinals
  constructor
  · omega
  · rw [hordinals, hnone]
    simp [firstOrdinals]

end

end

end SnowTG.Traffic
