import SnowTG.Traffic.SchedulerSpec

/-!
# The scheduler's books

The books tie every counter of a scheduler to the plan: the arrivals consumed so far are
the first ones of the shard, and what has been planned is attempted, skipped or pending.
Each part of a tick keeps them.
-/

namespace SnowTG.Traffic

open Lib List
open Lib.Checked

/-- The ordinals of the first `count` arrivals of a phase that begins at `offset`. -/
def firstOrdinals (offset hands i count : Nat) : List Nat :=
  (List.range count).map fun k => offset + (k * hands + i)

/-- An arrival of shard `i` is numbered within its phase. -/
def Arrival.Placed (plan : Plan) (hands i : Nat) (arrival : Arrival) : Prop :=
  arrivalsOf (plan.phases.take arrival.phase) ≤ arrival.ordinal ∧
    (arrival.ordinal - arrivalsOf (plan.phases.take arrival.phase)) % hands = i

/-- How the counters agree with the plan. -/
structure Books (plan : Plan) (hz hands i : Nat) (s : Scheduler) : Prop where
  clock : s.cyclesPerSecond = hz
  index_le : s.phaseIndex ≤ plan.phases.length
  begins : s.phaseStartCycles = s.startCycles + cyclesOf (plan.phases.take s.phaseIndex) hz
  offset : s.globalArrivalOffset = arrivalsOf (plan.phases.take s.phaseIndex)
  seen_le : s.phaseSeen ≤ share hands i (schedulerPhase plan s.phaseIndex).arrivals
  consumed_le : s.phaseConsumed ≤ s.phaseSeen
  planned : s.plannedTotal =
    sharesOf hands i (plan.phases.take s.phaseIndex) + s.phaseSeen
  ledger : tally ScheduleCount.attempted s.counts + tally ScheduleCount.skipped s.counts +
    (s.phaseSeen - s.phaseConsumed) = s.plannedTotal
  skipped : s.skippedTotal = tally ScheduleCount.skipped s.counts
  cursor : s.selectionCursor = plan.selectionPhase +
    (tally ScheduleCount.attempted s.counts + tally ScheduleCount.skipped s.counts)
  ordinals : s.arrivals.map Arrival.ordinal =
    shardOrdinals hands i 0 (plan.phases.take s.phaseIndex) ++
      firstOrdinals s.globalArrivalOffset hands i s.phaseConsumed
  placed : ∀ arrival ∈ s.arrivals, arrival.Placed plan hands i
  active_le : s.active ≤ plan.maxConcurrency

/-- What the accounting parts of a tick leave alone. -/
structure SameControl (s s' : Scheduler) : Prop where
  startCycles : s'.startCycles = s.startCycles
  lastCycles : s'.lastCycles = s.lastCycles
  started : s'.started = s.started
  active : s'.active = s.active
  paused : s'.resourcePaused = s.resourcePaused
  turns : s'.concurrencyBlockedTurns = s.concurrencyBlockedTurns
  pauses : s'.resourcePauses = s.resourcePauses
  attempted : ∀ phase cls, (s'.counts phase cls).attempted = (s.counts phase cls).attempted

theorem SameControl.trans {s t u : Scheduler} (h : SameControl s t) (h' : SameControl t u) :
    SameControl s u where
  startCycles := h'.startCycles.trans h.startCycles
  lastCycles := h'.lastCycles.trans h.lastCycles
  started := h'.started.trans h.started
  active := h'.active.trans h.active
  paused := h'.paused.trans h.paused
  turns := h'.turns.trans h.turns
  pauses := h'.pauses.trans h.pauses
  attempted phase cls := (h'.attempted phase cls).trans (h.attempted phase cls)

section

variable {plan : Plan} {hz hands i : Nat} {s : Scheduler} {index elapsed due : Nat}

theorem sharesOf_le_arrivalsOf (h : 0 < hands) (phases : List PhasePlan) :
    sharesOf hands i phases ≤ arrivalsOf phases := by
  induction phases with
  | nil => simp [sharesOf]
  | cons phase rest ih =>
    have hshare : share hands i phase.arrivals ≤ phase.arrivals := share_le_total h
    simp only [sharesOf, arrivalsOf, map_cons, sum_cons] at ih ⊢
    omega

theorem take_succ_phases (hindex : index < plan.phases.length) :
    plan.phases.take (index + 1) = plan.phases.take index ++ [schedulerPhase plan index] := by
  rw [schedulerPhase_eq hindex, take_succ_eq_append_getElem hindex]

section

variable (h : Shard plan hz hands i)
include h

/-- Past the last phase there are no arrivals. -/
theorem schedulerPhase_past (hindex : plan.phases.length ≤ index) :
    (schedulerPhase plan index).arrivals = 0 := by
  have hne : plan.phases.length ≠ 0 := by
    intro hzero
    exact h.valid.phases_ne (eq_nil_of_length_eq_zero hzero)
  have hnone : schedulerPhase plan index = ⟨"", 0, 0, 0⟩ := by
    unfold schedulerPhase
    rw [if_pos hne]
    simp [List.getD, List.getElem?_eq_none hindex]
  rw [hnone]
  decide

/-- No shard ever plans more than the plan's arrivals, which fit in a word many times over. -/
theorem planned_bound (index : Nat) :
    sharesOf hands i (plan.phases.take index) +
      share hands i (schedulerPhase plan index).arrivals ≤ 86400000000 := by
  have hvalid := h.valid
  have hall : arrivalsOf plan.phases ≤ 86400000000 := by
    calc
      arrivalsOf plan.phases ≤ durationOf plan.phases * planMaxCps := arrivalsOf_le hvalid.phase
      _ = plan.durationSec * planMaxCps := by rw [hvalid.duration]
      _ ≤ 86400000000 := Nat.mul_le_mul_right _ hvalid.duration_le
  by_cases hindex : index < plan.phases.length
  · have hsplit : plan.phases.take (index + 1) ++ plan.phases.drop (index + 1) = plan.phases :=
      take_append_drop _ _
    have hle := sharesOf_le_arrivalsOf (i := i) h.hands_pos plan.phases
    rw [← hsplit, sharesOf_append, take_succ_phases hindex, sharesOf_append] at hle
    simp only [sharesOf, map_cons, map_nil, sum_cons, sum_nil] at hle ⊢
    rw [← take_succ_phases hindex, hsplit] at hle
    omega
  · have hle := sharesOf_le_arrivalsOf (i := i) h.hands_pos plan.phases
    rw [take_of_length_le (Nat.le_of_not_lt hindex),
      schedulerPhase_past h (Nat.le_of_not_lt hindex), share_zero]
    omega

theorem Books.planned_le (hb : Books plan hz hands i s) : s.plannedTotal ≤ 86400000000 := by
  have hbound := planned_bound h s.phaseIndex
  have hseen := hb.seen_le
  have hplanned := hb.planned
  omega

/-- Planning up to a later time of the same phase. -/
theorem seeDue_eq (hb : Books plan hz hands i s) (hindex : s.phaseIndex < plan.phases.length)
    (helapsed : elapsed ≤ (schedulerPhase plan s.phaseIndex).cycles hz)
    (hdue : due = share hands i ((schedulerPhase plan s.phaseIndex).arrivalsBy hz elapsed))
    (hseen : s.phaseSeen ≤ due)
    (hle : due ≤ share hands i (schedulerPhase plan s.phaseIndex).arrivals) :
    seeDue plan s elapsed =
      pure { s with plannedTotal := s.plannedTotal + (due - s.phaseSeen), phaseSeen := due } := by
  have hbound := planned_bound h s.phaseIndex
  have hplanned := hb.planned
  unfold seeDue
  rw [dueCount_eq h hb.clock hindex helapsed, ← hdue, pure_bind,
    sub_of_le hseen (by omega), pure_bind, add_of_lt (by omega), pure_bind]

end

theorem Books.seeDue (hb : Books plan hz hands i s) (hseen : s.phaseSeen ≤ due)
    (hle : due ≤ share hands i (schedulerPhase plan s.phaseIndex).arrivals) :
    Books plan hz hands i
      { s with plannedTotal := s.plannedTotal + (due - s.phaseSeen), phaseSeen := due } := by
  have hconsumed := hb.consumed_le
  have hplanned := hb.planned
  have hledger := hb.ledger
  constructor
  · exact hb.clock
  · exact hb.index_le
  · exact hb.begins
  · exact hb.offset
  · exact hle
  · exact hconsumed.trans hseen
  · dsimp only
    omega
  · dsimp only
    omega
  · exact hb.skipped
  · exact hb.cursor
  · exact hb.ordinals
  · exact hb.placed
  · exact hb.active_le

/-- The next arrivals of the shard continue the ones consumed. -/
theorem firstOrdinals_add (offset hands i a b : Nat) :
    firstOrdinals offset hands i (a + b) = firstOrdinals offset hands i a ++
      (List.range b).map fun k => offset + ((a + k) * hands + i) := by
  simp [firstOrdinals, range_add, Function.comp_def]

theorem Arrival.placed_of_eq (hindex : i < hands) {phase k : Nat} {attempted : Bool} :
    Arrival.Placed plan hands i
      ⟨phase, arrivalsOf (plan.phases.take phase) + (k * hands + i), attempted⟩ := by
  constructor
  · exact Nat.le_add_right _ _
  · dsimp only
    rw [Nat.add_sub_cancel_left, Nat.mul_add_mod', Nat.mod_eq_of_lt hindex]

/-- Skipping pending arrivals. -/
theorem schedulerSkip_books (h : Shard plan hz hands i) (hb : Books plan hz hands i s) {count : Nat}
    (hcount : count ≤ s.phaseSeen - s.phaseConsumed) (hphase : s.phaseIndex < planMaxPhases) :
    Yields True (schedulerSkip plan s count) fun s' => Books plan hz hands i s' ∧
      SameControl s s' ∧ s'.phaseIndex = s.phaseIndex ∧ s'.phaseSeen = s.phaseSeen ∧
      s'.phaseConsumed = s.phaseConsumed + count ∧ s'.stopped = s.stopped ∧
      s'.phaseStartCycles = s.phaseStartCycles := by
  have hplanned_le := hb.planned_le h
  have hconsumed := hb.consumed_le
  have hplanned := hb.planned
  have hledger := hb.ledger
  have hskipped := hb.skipped
  have hcursor := hb.cursor
  have hselection := h.selection_lt
  apply (schedulerSkip_yields h.valid hphase (by omega) hskipped (by omega) (by omega)
    (by omega)).mono
  rintro _ ⟨counts, hinto, rfl⟩
  have hsum := hinto.skipped
  have hsame := hinto.tally_attempted
  refine ⟨?_, ⟨rfl, rfl, rfl, rfl, rfl, rfl, rfl, hinto.attempted⟩, rfl, rfl, rfl, rfl, rfl⟩
  constructor
  · exact hb.clock
  · exact hb.index_le
  · exact hb.begins
  · exact hb.offset
  · exact hb.seen_le
  · dsimp only
    omega
  · exact hplanned
  · dsimp only
    omega
  · dsimp only
    omega
  · dsimp only
    omega
  · dsimp only
    rw [map_append, hb.ordinals, map_map, append_assoc, firstOrdinals_add]
    simp [nextOrdinals, Function.comp_def, h.shards, h.index]
  · intro arrival harrival
    rcases mem_append.mp harrival with hold | hnew
    · exact hb.placed arrival hold
    · simp only [nextOrdinals, h.shards, h.index, hb.offset, mem_map] at hnew
      obtain ⟨_, ⟨k, -, rfl⟩, rfl⟩ := hnew
      exact Arrival.placed_of_eq h.index_lt
  · exact hb.active_le

/-- Moving to the next phase once the current one is all planned and consumed. -/
theorem Books.nextPhase (hb : Books plan hz hands i s)
    (hindex : s.phaseIndex < plan.phases.length)
    (hseen : s.phaseSeen = share hands i (schedulerPhase plan s.phaseIndex).arrivals)
    (hconsumed : s.phaseConsumed = s.phaseSeen) :
    Books plan hz hands i { s with
      globalArrivalOffset := s.globalArrivalOffset + (schedulerPhase plan s.phaseIndex).arrivals
      phaseStartCycles := s.phaseStartCycles + (schedulerPhase plan s.phaseIndex).cycles hz
      phaseIndex := s.phaseIndex + 1
      phaseConsumed := 0
      phaseSeen := 0
      tokenNumerator := 0 } := by
  have htake := take_succ_phases hindex
  have hledger := hb.ledger
  constructor
  · exact hb.clock
  · exact hindex
  · dsimp only
    rw [htake, cyclesOf_append, cyclesOf_cons, cyclesOf_nil, hb.begins]
    omega
  · dsimp only
    rw [htake, arrivalsOf_append, hb.offset]
    simp [arrivalsOf]
  · exact zero_le
  · exact le_rfl
  · dsimp only
    rw [htake, sharesOf_append, hb.planned, hseen]
    simp [sharesOf]
  · dsimp only
    omega
  · exact hb.skipped
  · exact hb.cursor
  · dsimp only
    rw [htake, shardOrdinals_append, hb.ordinals, hconsumed, hseen, hb.offset]
    simp [shardOrdinals, firstOrdinals, dealt]
  · exact hb.placed
  · exact hb.active_le

theorem durationOf_take_le (phases : List PhasePlan) (n : Nat) :
    durationOf (phases.take n) ≤ durationOf phases := by
  calc
    durationOf (phases.take n) ≤ durationOf (phases.take n) + durationOf (phases.drop n) :=
      Nat.le_add_right _ _
    _ = durationOf (phases.take n ++ phases.drop n) := by
      unfold durationOf
      rw [map_append, sum_append]
    _ = durationOf phases := by rw [take_append_drop]

theorem arrivalsOf_take_le (h : Shard plan hz hands i) (n : Nat) :
    arrivalsOf (plan.phases.take n) ≤ 86400000000 := by
  calc
    arrivalsOf (plan.phases.take n) ≤ durationOf (plan.phases.take n) * planMaxCps :=
      arrivalsOf_le fun q hq => h.valid.phase q (mem_of_mem_take hq)
    _ ≤ durationOf plan.phases * planMaxCps :=
      Nat.mul_le_mul_right _ (durationOf_take_le _ _)
    _ = plan.durationSec * planMaxCps := by rw [h.valid.duration]
    _ ≤ 86400000000 := Nat.mul_le_mul_right _ h.valid.duration_le

/-- The offset of the next phase as the source rounds it. -/
theorem phaseOffset_eq (phase : PhasePlan) :
    (phase.durationSec * (phase.startCps + phase.targetCps) + 1) / 2 = phase.arrivals := rfl

/-- Leaving a phase whose arrivals are all planned. -/
theorem leavePhase_books (h : Shard plan hz hands i) (hb : Books plan hz hands i s)
    (hindex : s.phaseIndex < plan.phases.length)
    (hseen : s.phaseSeen = share hands i (schedulerPhase plan s.phaseIndex).arrivals)
    (hend : s.phaseStartCycles + (schedulerPhase plan s.phaseIndex).cycles hz < 2 ^ 64) :
    Yields True (leavePhase plan s ((schedulerPhase plan s.phaseIndex).cycles hz)) fun s' =>
      Books plan hz hands i s' ∧ SameControl s s' ∧ s'.phaseIndex = s.phaseIndex + 1 ∧
      s'.phaseSeen = 0 ∧ s'.stopped = s.stopped ∧
      s'.phaseStartCycles = s.phaseStartCycles + (schedulerPhase plan s.phaseIndex).cycles hz := by
  have hphase := schedulerPhase_valid h hindex
  have hduration := schedulerPhase_duration_le h hindex
  have hstart := hphase.start_le
  have htarget := hphase.target_le
  have hconsumed := hb.consumed_le
  have hplanned := hb.planned
  have hplanned_le := hb.planned_le h
  have hmax := h.valid.phases_le
  have hroom : s.phaseIndex < planMaxPhases := by omega
  have htwice : (schedulerPhase plan s.phaseIndex).durationSec *
      ((schedulerPhase plan s.phaseIndex).startCps +
        (schedulerPhase plan s.phaseIndex).targetCps) ≤ 86400 * 2000000 :=
    Nat.mul_le_mul hduration (Nat.add_le_add hstart htarget)
  have hoffset := arrivalsOf_take_le h s.phaseIndex
  simp only [planMaxCps, planMaxPhases] at hstart htarget hmax
  unfold leavePhase
  rw [sub_of_le hconsumed (by omega), pure_bind]
  apply (schedulerSkip_books h hb le_rfl hroom).bind
  rintro t ⟨hbt, hsame, hti, hts, htc, htstop, htstart⟩
  have hnext := hbt.nextPhase (by omega) (by rw [hts, hti]; exact hseen) (by omega)
  rw [hti] at hnext
  rw [add_of_lt (by omega), pure_bind, mul_of_lt (by omega), pure_bind, add_of_lt (by omega),
    pure_bind, phaseOffset_eq, hbt.offset, hti]
  rw [hbt.offset, hti] at hnext
  have hsmall : (schedulerPhase plan s.phaseIndex).arrivals ≤ 86400 * 2000000 := by
    rw [← phaseOffset_eq]
    omega
  rw [add_of_lt (by omega), pure_bind, htstart, add_of_lt (by omega), pure_bind,
    add_of_lt (by omega), pure_bind]
  rw [htstart] at hnext
  exact Yields.pure ⟨hnext, { hsame with }, rfl, rfl, htstop, rfl⟩

/-- The current phase has not ended, and its arrivals are planned up to `now`. -/
structure Running (plan : Plan) (hz hands i now : Nat) (s : Scheduler) : Prop where
  index_lt : s.phaseIndex < plan.phases.length
  begun : s.phaseStartCycles ≤ now
  not_ended : now - s.phaseStartCycles < (schedulerPhase plan s.phaseIndex).cycles hz
  seen : s.phaseSeen =
    share hands i ((schedulerPhase plan s.phaseIndex).arrivalsBy hz (now - s.phaseStartCycles))

/-- Every phase is over. -/
structure Over (plan : Plan) (hz now : Nat) (s : Scheduler) : Prop where
  stopped : s.stopped = true
  index : s.phaseIndex = plan.phases.length
  ended : s.startCycles + cyclesOf plan.phases hz ≤ now

/-- The phase loop ends in the running phase, or stops the scheduler. -/
def CaughtUp (plan : Plan) (hz hands i now : Nat) (s : Scheduler) (r : Scheduler × Bool) : Prop :=
  Books plan hz hands i r.1 ∧ SameControl s r.1 ∧
    (r.2 = true ∧ r.1.stopped = s.stopped ∧ Running plan hz hands i now r.1 ∨
      r.2 = false ∧ Over plan hz now r.1)

theorem schedulerPhases_eq (h : Shard plan hz hands i) :
    schedulerPhases plan = plan.phases.length := by
  unfold schedulerPhases
  rw [if_pos]
  intro hzero
  exact h.valid.phases_ne (eq_nil_of_length_eq_zero hzero)

theorem share_arrivalsBy_le (h : Shard plan hz hands i) (hindex : s.phaseIndex < plan.phases.length)
    (helapsed : elapsed ≤ (schedulerPhase plan s.phaseIndex).cycles hz) :
    share hands i ((schedulerPhase plan s.phaseIndex).arrivalsBy hz elapsed) ≤
      share hands i (schedulerPhase plan s.phaseIndex).arrivals := by
  have hphase := schedulerPhase_valid h hindex
  apply share_mono h.hands_pos
  rw [← PhasePlan.arrivalsBy_cycles hphase h.hz_pos]
  exact PhasePlan.arrivalsBy_mono hphase h.hz_pos helapsed le_rfl

theorem catchUp_yields (h : Shard plan hz hands i) {now : Nat} (hnow : now < 2 ^ 64) (rounds : Nat)
    (s : Scheduler) (hb : Books plan hz hands i s) (hindex : s.phaseIndex < plan.phases.length)
    (hrounds : plan.phases.length ≤ s.phaseIndex + rounds) (hbegun : s.phaseStartCycles ≤ now)
    (hseen : s.phaseSeen ≤ share hands i ((schedulerPhase plan s.phaseIndex).arrivalsBy hz
      (min (now - s.phaseStartCycles) ((schedulerPhase plan s.phaseIndex).cycles hz)))) :
    Yields True (catchUp plan now rounds s) (CaughtUp plan hz hands i now s) := by
  induction rounds generalizing s with
  | zero => omega
  | succ rounds ih =>
    have hphase := schedulerPhase_valid h hindex
    have hlength := cycles_le (schedulerPhase_duration_le h hindex) h.hz_le
    have hmul : mul 64 (schedulerPhase plan s.phaseIndex).durationSec hz =
        pure ((schedulerPhase plan s.phaseIndex).cycles hz) :=
      mul_of_lt (by change PhasePlan.cycles _ hz < _; omega)
    rw [catchUp, hb.clock, hmul, pure_bind, sub_of_le hbegun hnow, pure_bind]
    by_cases hend : now - s.phaseStartCycles < (schedulerPhase plan s.phaseIndex).cycles hz
    · -- the phase goes on
      rw [if_pos hend]
      rw [Nat.min_eq_left hend.le] at hseen
      have hle := share_arrivalsBy_le h hindex hend.le
      rw [seeDue_eq h hb hindex hend.le rfl hseen hle, pure_bind]
      refine Yields.pure ⟨hb.seeDue hseen hle, ⟨rfl, rfl, rfl, rfl, rfl, rfl, rfl,
        fun _ _ => rfl⟩, .inl ⟨rfl, rfl, ⟨hindex, hbegun, hend, rfl⟩⟩⟩
    · -- the phase is over: everything it planned is consumed
      rw [if_neg hend]
      rw [Nat.min_eq_right (Nat.le_of_not_lt hend)] at hseen
      have hle := share_arrivalsBy_le h hindex le_rfl
      rw [seeDue_eq h hb hindex le_rfl rfl hseen hle, pure_bind]
      have hbooks := hb.seeDue hseen hle
      have hall := PhasePlan.arrivalsBy_cycles hphase h.hz_pos
      apply (leavePhase_books h hbooks hindex (by dsimp only; rw [hall])
        (by dsimp only; omega)).bind
      rintro t ⟨hbt, hsame, hti, hts, htstop, htstart⟩
      have hsame' : SameControl s t := { hsame with }
      dsimp only at hti htstart htstop
      rw [schedulerPhases_eq h]
      split_ifs with hlast
      · have hbegins := hbt.begins
        rw [hlast, take_length, hsame.startCycles] at hbegins
        refine Yields.pure ⟨{ hbt with }, { hsame' with }, .inr ⟨rfl, ⟨rfl, hlast, ?_⟩⟩⟩
        dsimp only at hbegins ⊢
        rw [hsame'.startCycles]
        omega
      · have hnext := hbt.index_le
        apply (ih t hbt (by omega) (by omega) (by omega) (by rw [hts]; exact zero_le)).mono
        rintro r ⟨hbr, hcontrol, hrest⟩
        exact ⟨hbr, hsame'.trans hcontrol, by rw [← htstop]; exact hrest⟩

end

end SnowTG.Traffic
