import SnowTG.Traffic.SchedulerBooks

/-!
# Dispatching pending arrivals

A start attempt consumes the shard's next arrival whatever the callback answers.  The
dispatch loop keeps the books, and leaves a backlog of at most the concurrency cap.
-/

namespace SnowTG.Traffic

open Lib List
open Lib.Checked

section

variable {plan : Plan} {hz hands i : Nat} {s : Scheduler}

/-- The scheduler after an attempt at the next arrival, of class `cls`. -/
def attempt (hands i : Nat) (s : Scheduler) (cls planned : Nat) : Scheduler :=
  { s with
    selectionCursor := s.selectionCursor + 1
    dispatchPlannedCycles := planned
    dispatchOrdinal := s.globalArrivalOffset + (s.phaseConsumed * hands + i)
    counts := setCount s.counts s.phaseIndex cls
      { s.counts s.phaseIndex cls with attempted := (s.counts s.phaseIndex cls).attempted + 1 }
    phaseConsumed := s.phaseConsumed + 1
    arrivals := s.arrivals ++
      [⟨s.phaseIndex, s.globalArrivalOffset + (s.phaseConsumed * hands + i), true⟩] }

theorem Books.attempt (h : Shard plan hz hands i) (hb : Books plan hz hands i s)
    (hphase : s.phaseIndex < planMaxPhases) (hnext : s.phaseConsumed < s.phaseSeen) {cls : Nat}
    (hcls : cls < plan.weights.length) (planned : Nat) :
    Books plan hz hands i (attempt hands i s cls planned) := by
  have hroom : cls < planMaxClasses := lt_of_lt_of_le hcls h.valid.weights_le
  have hledger := hb.ledger
  have hcursor := hb.cursor
  have hskipped := hb.skipped
  have hattempted : tally ScheduleCount.attempted (Traffic.attempt hands i s cls planned).counts =
      tally ScheduleCount.attempted s.counts + 1 := by
    have hset := tally_setCount ScheduleCount.attempted s.counts hphase hroom
      { s.counts s.phaseIndex cls with attempted := (s.counts s.phaseIndex cls).attempted + 1 }
    dsimp only [Traffic.attempt] at hset ⊢
    omega
  have hsame : tally ScheduleCount.skipped (Traffic.attempt hands i s cls planned).counts =
      tally ScheduleCount.skipped s.counts :=
    Nat.add_right_cancel (tally_setCount ScheduleCount.skipped s.counts hphase hroom _)
  constructor
  · exact hb.clock
  · exact hb.index_le
  · exact hb.begins
  · exact hb.offset
  · exact hb.seen_le
  · exact hnext
  · exact hb.planned
  · rw [hattempted, hsame]
    dsimp only [Traffic.attempt]
    omega
  · rw [hsame]
    exact hskipped
  · rw [hattempted, hsame]
    dsimp only [Traffic.attempt]
    omega
  · dsimp only [Traffic.attempt]
    rw [map_append, hb.ordinals, firstOrdinals_add, append_assoc]
    rfl
  · intro arrival harrival
    rcases mem_append.mp harrival with hold | hnew
    · exact hb.placed arrival hold
    · rw [mem_singleton.mp hnew, hb.offset]
      exact Arrival.placed_of_eq h.index_lt
  · exact hb.active_le

/-- Taking an arrival consumes the next one of the shard. -/
theorem takeArrival_yields (h : Shard plan hz hands i) (ramp : RampInverse)
    (hb : Books plan hz hands i s) (hindex : s.phaseIndex < plan.phases.length)
    (hnext : s.phaseConsumed < s.phaseSeen) :
    Yields (s.phaseStartCycles + (schedulerPhase plan s.phaseIndex).cycles hz < 2 ^ 64)
      (takeArrival plan ramp s) fun r => ∃ cls planned, cls < plan.weights.length ∧
        r = (attempt hands i s cls planned, ⟨s.phaseIndex, cls, planned,
          s.globalArrivalOffset + (s.phaseConsumed * hands + i)⟩) := by
  have hvalid := h.valid
  have hphases := hvalid.phases_le
  have hphase : s.phaseIndex < planMaxPhases := by omega
  have hclasses : 0 < plan.weights.length := length_pos_of_ne_nil hvalid.weights_ne
  have hselect := selectFrom_yields (s.selectionCursor % plan.totalWeight) hclasses plan.weights 0 0
    (by rw [zero_add, ← hvalid.weight]; exact hvalid.weight_lt) (by omega)
  have hplanned := hb.planned
  have hplanned_le := hb.planned_le h
  have hledger := hb.ledger
  have hcursor := hb.cursor
  have hselection := h.selection_lt
  have hseen := hb.seen_le
  have hdealt := (lt_share_iff h.hands_pos).mp (lt_of_lt_of_le hnext hseen)
  have harrivals := PhasePlan.arrivals_le (schedulerPhase_valid h hindex)
  have hcount : (schedulerPhase plan s.phaseIndex).durationSec * planMaxCps ≤ 86400000000 :=
    Nat.mul_le_mul_right _ (schedulerPhase_duration_le h hindex)
  have hoffset : s.globalArrivalOffset ≤ 86400000000 := by
    rw [hb.offset]
    exact arrivalsOf_take_le h s.phaseIndex
  unfold takeArrival
  apply (hselect.weaken fun _ => trivial).bind
  intro cls hcls
  have hroom : cls < planMaxClasses := lt_of_lt_of_le hcls hvalid.weights_le
  have hcell := le_tally ScheduleCount.attempted s.counts hphase hroom
  rw [add_of_lt (by omega), pure_bind]
  apply (dueCycles_yields h ramp hb.clock hindex (lt_of_lt_of_le hnext hseen)).bind
  intro planned _
  rw [h.shards, h.index, mul_of_lt (by omega), pure_bind, add_of_lt (by omega), pure_bind,
    add_of_lt (by omega), pure_bind, add_of_lt (by omega), pure_bind, add_of_lt (by omega),
    pure_bind, add_assoc s.globalArrivalOffset]
  exact Yields.pure ⟨cls, planned, hcls, rfl⟩

theorem onFlowFinished_iterate (n : Nat) (s : Scheduler) :
    onFlowFinished^[n] s = { s with active := s.active - n } := by
  induction n generalizing s with
  | zero => rfl
  | succ n ih =>
    rw [Function.iterate_succ_apply, ih]
    unfold onFlowFinished
    split_ifs with hactive
    · ext <;> first | rfl | (dsimp only; omega)
    · ext <;> first | rfl | (dsimp only; omega)

/-- Noting a start changes the number of active flows only. -/
theorem noteStart_eq {cap : Nat} (hactive : s.active < cap) (hcap : cap ≤ planMaxConcurrency)
    (outcome : StartOutcome) :
    noteStart s outcome = pure { s with
      active := s.active - outcome.finished + (if outcome.admitted then 1 else 0) } := by
  unfold planMaxConcurrency at hcap
  unfold noteStart
  rw [onFlowFinished_iterate]
  split_ifs with hadmitted
  · dsimp only
    rw [add_of_lt (by omega), pure_bind]
  · rfl

/-- What the dispatch loop keeps: the books, the running phase and its backlog. -/
structure Dispatching {σ : Type} (plan : Plan) (hz hands i now : Nat) (t : Turn σ) : Prop where
  books : Books plan hz hands i t.sched
  running : Running plan hz hands i now t.sched
  pending : t.pending = t.sched.phaseSeen - t.sched.phaseConsumed
  pending_le : t.pending ≤ plan.maxConcurrency

/-- What a tick leaves alone once the phase loop is done; it counts at most one turn as
blocked. -/
structure SameTiming (s s' : Scheduler) : Prop where
  startCycles : s'.startCycles = s.startCycles
  lastCycles : s'.lastCycles = s.lastCycles
  started : s'.started = s.started
  stopped : s'.stopped = s.stopped
  pauses : s'.resourcePauses = s.resourcePauses

theorem SameTiming.trans {t u : Scheduler} (h : SameTiming s t) (h' : SameTiming t u) :
    SameTiming s u :=
  ⟨h'.startCycles.trans h.startCycles, h'.lastCycles.trans h.lastCycles,
    h'.started.trans h.started, h'.stopped.trans h.stopped, h'.pauses.trans h.pauses⟩

theorem Books.setActive (hb : Books plan hz hands i s) {active : Nat}
    (hactive : active ≤ plan.maxConcurrency) : Books plan hz hands i { s with active := active } :=
  { hb with active_le := hactive }

/-- The end of the running phase comes no later than the end of the plan. -/
theorem phase_end_le (hb : Books plan hz hands i s)
    (hindex : s.phaseIndex < plan.phases.length) :
    s.phaseStartCycles + (schedulerPhase plan s.phaseIndex).cycles hz ≤
      s.startCycles + cyclesOf plan.phases hz := by
  have hsplit : plan.phases.take (s.phaseIndex + 1) ++ plan.phases.drop (s.phaseIndex + 1) =
      plan.phases := take_append_drop _ _
  calc
    s.phaseStartCycles + (schedulerPhase plan s.phaseIndex).cycles hz =
        s.startCycles + cyclesOf (plan.phases.take (s.phaseIndex + 1)) hz := by
      rw [hb.begins, take_succ_phases hindex, cyclesOf_append, cyclesOf_cons, cyclesOf_nil]
      omega
    _ ≤ s.startCycles + cyclesOf plan.phases hz := by
      nth_rewrite 2 [← hsplit]
      rw [cyclesOf_append]
      omega

section Loop

variable {σ : Type} (start : Dispatch → σ → StartOutcome × σ) (ramp : RampInverse) {now : Nat}

theorem dispatchLoop_yields (h : Shard plan hz hands i) (budget : Nat) (t : Turn σ)
    (ht : Dispatching plan hz hands i now t) (hbudget : t.attempts + budget < 2 ^ 32) :
    Yields (t.sched.startCycles + cyclesOf plan.phases hz < 2 ^ 64)
      (dispatchLoop plan ramp start budget t) fun t' => Dispatching plan hz hands i now t' ∧
        SameTiming t.sched t'.sched ∧
        t'.sched.concurrencyBlockedTurns = t.sched.concurrencyBlockedTurns := by
  induction budget generalizing t with
  | zero => exact Yields.pure ⟨ht, ⟨rfl, rfl, rfl, rfl, rfl⟩, rfl⟩
  | succ budget ih =>
    rw [dispatchLoop]
    split_ifs with hgo
    · obtain ⟨-, hpending, hactive⟩ := hgo
      have hb := ht.books
      have hrun := ht.running
      have hindex := hrun.index_lt
      have hphase : t.sched.phaseIndex < planMaxPhases :=
        lt_of_lt_of_le hindex h.valid.phases_le
      have hcount := ht.pending
      have hpending_le := ht.pending_le
      have hcap := h.valid.concurrency_le
      have hnext : t.sched.phaseConsumed < t.sched.phaseSeen := by omega
      have hend := phase_end_le hb hindex
      apply ((takeArrival_yields h ramp hb hindex hnext).weaken (by omega)).bind
      rintro _ ⟨cls, planned, hcls, rfl⟩
      have hattempt := hb.attempt h hphase hnext hcls planned
      have hsame : (attempt hands i t.sched cls planned).active < plan.maxConcurrency := hactive
      dsimp only
      generalize start ⟨t.sched.phaseIndex, cls, planned, t.sched.globalArrivalOffset +
        (t.sched.phaseConsumed * hands + i)⟩ t.host = answer
      have hbound : (attempt hands i t.sched cls planned).active - answer.1.finished +
          (if answer.1.admitted then 1 else 0) ≤ plan.maxConcurrency := by
        split_ifs <;> omega
      rw [noteStart_eq hsame hcap, pure_bind, add_of_lt (by omega), pure_bind,
        sub_of_le (by omega) (by unfold planMaxConcurrency at hcap; omega), pure_bind]
      have hleft : t.pending - 1 = t.sched.phaseSeen - (t.sched.phaseConsumed + 1) := by omega
      have hleft_le : t.pending - 1 ≤ plan.maxConcurrency := by omega
      have hstep := ih ⟨_, answer.2, t.attempts + 1, t.pending - 1⟩
        ⟨hattempt.setActive hbound, { hrun with }, hleft, hleft_le⟩ (by dsimp only; omega)
      apply hstep.mono
      rintro t' ⟨ht', hsame, hturns⟩
      exact ⟨ht', { hsame with }, hturns⟩
    · exact Yields.pure ⟨ht, ⟨rfl, rfl, rfl, rfl, rfl⟩, rfl⟩

theorem trimBacklog_yields (h : Shard plan hz hands i) (host : σ) (hb : Books plan hz hands i s)
    (hrun : Running plan hz hands i now s) :
    Yields True (trimBacklog plan s (s.phaseSeen - s.phaseConsumed)) fun s' =>
      Dispatching plan hz hands i now
        (⟨s', host, 0, min (s.phaseSeen - s.phaseConsumed) plan.maxConcurrency⟩ : Turn σ) ∧
      SameTiming s s' ∧ s'.concurrencyBlockedTurns = s.concurrencyBlockedTurns := by
  have hconsumed := hb.consumed_le
  have hphase : s.phaseIndex < planMaxPhases :=
    lt_of_lt_of_le hrun.index_lt h.valid.phases_le
  unfold trimBacklog
  split_ifs with hfull
  · apply (schedulerSkip_books h hb (Nat.sub_le _ _) hphase).mono
    rintro s' ⟨hb', hsame, hindex, hseen, hconsumed', hstopped, hstart⟩
    refine ⟨⟨hb', ⟨?_, ?_, ?_, ?_⟩, ?_, ?_⟩, { hsame with stopped := hstopped }, hsame.turns⟩
    · rw [hindex]
      exact hrun.index_lt
    · rw [hstart]
      exact hrun.begun
    · rw [hstart, hindex]
      exact hrun.not_ended
    · rw [hstart, hindex, hseen]
      exact hrun.seen
    · dsimp only
      omega
    · exact Nat.min_le_right _ _
  · refine Yields.pure ⟨⟨hb, hrun, ?_, Nat.min_le_right _ _⟩, ⟨rfl, rfl, rfl, rfl, rfl⟩, rfl⟩
    dsimp only
    omega

/-- At most one turn is counted; the counter wraps only at the end of its word. -/
theorem countBlocked_yields (t : Turn σ) :
    Yields (t.sched.concurrencyBlockedTurns + 1 < 2 ^ 64) (countBlocked plan t) fun turns =>
      turns ≤ t.sched.concurrencyBlockedTurns + 1 := by
  unfold countBlocked
  split_ifs with hblocked
  · constructor
    · exact Nat.mod_le _ _
    · intro hroom
      rw [add_of_lt hroom]
      rfl
  · exact Yields.pure (Nat.le_succ _)

/-- The parts of a tick's result no other field depends on. -/
theorem Dispatching.setGauges {t : Turn σ} (ht : Dispatching plan hz hands i now t)
    (token turns : Nat) :
    Dispatching plan hz hands i now { t with sched := { t.sched with
      tokenNumerator := token, concurrencyBlockedTurns := turns } } := by
  have hb := ht.books
  have hrun := ht.running
  exact ⟨{ hb with }, { hrun with }, ht.pending, ht.pending_le⟩

/-- After the phase loop: the excess backlog is skipped, then arrivals are dispatched. -/
theorem dispatchPending_yields (h : Shard plan hz hands i) {budget : Nat} (host : σ)
    (hbudget : budget < 2 ^ 32) (hb : Books plan hz hands i s)
    (hrun : Running plan hz hands i now s) :
    Yields (s.startCycles + cyclesOf plan.phases hz < 2 ^ 64 ∧
        s.concurrencyBlockedTurns + 1 < 2 ^ 64)
      (dispatchPending plan ramp start budget s host) fun t =>
        Dispatching plan hz hands i now t ∧ SameTiming s t.sched ∧
        t.sched.concurrencyBlockedTurns ≤ s.concurrencyBlockedTurns + 1 := by
  have hconsumed := hb.consumed_le
  have hplanned := hb.planned
  have hplanned_le := hb.planned_le h
  have hcap := h.valid.concurrency_le
  have hhz := h.hz_le
  unfold planMaxConcurrency at hcap
  unfold maxClockHz at hhz
  unfold dispatchPending
  rw [sub_of_le hconsumed (by omega), pure_bind]
  apply ((trimBacklog_yields h host hb hrun).weaken fun _ => trivial).bind
  rintro s' ⟨hdispatching, htiming, hturns⟩
  have hloop := dispatchLoop_yields start ramp h budget _ hdispatching (by dsimp only; omega)
  apply (hloop.weaken (by rw [htiming.startCycles]; exact And.left)).bind
  rintro t ⟨ht, htiming', hturns'⟩
  have hpending := ht.pending_le
  have htoken : t.pending * t.sched.cyclesPerSecond ≤ 65536 * 10000000000 :=
    Nat.mul_le_mul (by omega) (by rw [ht.books.clock]; exact hhz)
  have hafter := htiming.trans htiming'
  have hsame : t.sched.concurrencyBlockedTurns = s.concurrencyBlockedTurns := hturns'.trans hturns
  have hcount : Yields _ (countBlocked plan t) _ := countBlocked_yields t
  rw [hsame] at hcount
  rw [mul_of_lt (by omega), pure_bind]
  apply (hcount.weaken And.right).bind
  intro turns hle
  exact Yields.pure ⟨ht.setGauges _ _, { hafter with }, hle⟩

end Loop

end

end SnowTG.Traffic
