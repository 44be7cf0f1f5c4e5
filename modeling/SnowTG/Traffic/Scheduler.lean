import SnowTG.Lib.Checked
import SnowTG.Lib.System
import SnowTG.Traffic.Arrivals

/-!
# The arrival scheduler

A scheduler owns one shard of a plan.  Each tick accounts for the arrivals due by the
clock, skips what a finished phase or a full backlog leaves behind, and starts as many
pending arrivals as the budget, the resource pause and the concurrency cap allow.
Word arithmetic is kept as the source computes it, with a record of wrapping.
-/

namespace SnowTG.Traffic

open Lib
open Lib.Checked (narrow add mul sub)

/-- Attempted and skipped arrivals of one class in one phase. -/
@[ext] structure ScheduleCount where
  attempted : Nat
  skipped : Nat
deriving DecidableEq, Repr

/-- An arrival the scheduler has consumed, for the history of a run. -/
structure Arrival where
  phase : Nat
  ordinal : Nat
  attempted : Bool
deriving DecidableEq, Repr

/-- `struct tg_scheduler`, with the arrivals consumed so far as history. -/
@[ext] structure Scheduler where
  cyclesPerSecond : Nat
  startCycles : Nat
  lastCycles : Nat
  tokenNumerator : Nat
  selectionCursor : Nat
  phaseStartCycles : Nat
  globalArrivalOffset : Nat
  dispatchOrdinal : Nat
  phaseConsumed : Nat
  phaseSeen : Nat
  plannedTotal : Nat
  skippedTotal : Nat
  concurrencyBlockedTurns : Nat
  dispatchPlannedCycles : Nat
  stopCycles : Nat
  phaseIndex : Nat
  counts : Nat → Nat → ScheduleCount
  active : Nat
  resourcePauses : Nat
  resourcePaused : Bool
  started : Bool
  stopped : Bool
  arrivals : List Arrival

/-- The inverse of the rate integral of a ramp, which the source computes in extended
precision: the cycle offset of the `n`-th arrival lies within the phase. -/
structure RampInverse where
  offset : PhasePlan → Nat → Nat → Nat
  offset_le : ∀ phase hz n, n < phase.arrivals → offset phase hz n ≤ phase.durationSec * hz

/-- What the start callback is told about the selected arrival. -/
structure Dispatch where
  phase : Nat
  cls : Nat
  plannedCycles : Nat
  ordinal : Nat
deriving DecidableEq, Repr

/-- What happened during a start: flows that finished meanwhile, and whether a new one
was admitted. -/
structure StartOutcome where
  finished : Nat
  admitted : Bool
deriving DecidableEq, Repr

variable (plan : Plan)

/-- The current phase; a plan without phases has one at its target rate. -/
def schedulerPhase (index : Nat) : PhasePlan :=
  if plan.phases.length ≠ 0 then
    plan.phases.getD index ⟨"", 0, 0, 0⟩
  else
    ⟨"", plan.durationSec, plan.targetCps, plan.targetCps⟩

def schedulerShards : Nat :=
  if plan.phases.length ≠ 0 ∧ plan.scheduleShardCount ≠ 0 then plan.scheduleShardCount else 1

def schedulerShardIndex : Nat :=
  if schedulerShards plan = 1 then 0 else plan.scheduleShardIndex

/-- The rate term of `tg_due_count`. -/
def dueRateTerm (phase : PhasePlan) (duration elapsed : Nat) : Checked Nat := do
  let twiceStart ← mul 128 2 phase.startCps
  let steady ← mul 128 twiceStart duration
  if phase.startCps ≤ phase.targetCps then do
    let climb ← mul 128 (phase.targetCps - phase.startCps) elapsed
    add 128 steady climb
  else do
    let fall ← mul 128 (phase.startCps - phase.targetCps) elapsed
    sub 128 steady fall

/-- Arrivals of all shards before `elapsed` cycles into the phase. -/
def dueGlobal (phase : PhasePlan) (hz elapsed : Nat) : Checked Nat := do
  let duration ← mul 64 phase.durationSec hz
  let rateTerm ← dueRateTerm phase duration elapsed
  let numerator ← mul 128 elapsed rateTerm
  let twiceDuration ← mul 128 2 duration
  let denominator ← mul 128 twiceDuration hz
  let raised ← add 128 numerator denominator
  let raised ← sub 128 raised 1
  narrow 64 (raised / denominator)

/-- This shard's part of them. -/
def dueShare (shards index global : Nat) : Checked Nat :=
  if global ≤ index then pure 0
  else do
    let rest ← sub 64 global index
    let rest ← add 64 rest shards
    let rest ← sub 64 rest 1
    pure (rest / shards)

/-- `tg_due_count` -/
def dueCount (s : Scheduler) (elapsed : Nat) : Checked Nat := do
  let global ← dueGlobal (schedulerPhase plan s.phaseIndex) s.cyclesPerSecond elapsed
  dueShare (schedulerShards plan) (schedulerShardIndex plan) global

/-- The planned time of this shard's next arrival. -/
def dueCycles (ramp : RampInverse) (s : Scheduler) : Checked Nat := do
  let phase := schedulerPhase plan s.phaseIndex
  let dealt ← mul 64 s.phaseConsumed (schedulerShards plan)
  let n ← add 64 dealt (schedulerShardIndex plan)
  if phase.startCps = phase.targetCps then do
    let scaled ← mul 128 n s.cyclesPerSecond
    let offset ← narrow 64 (scaled / phase.targetCps)
    add 64 s.phaseStartCycles offset
  else if n = 0 then add 64 s.phaseStartCycles 0
  else do
    let offset ← narrow 64 (ramp.offset phase s.cyclesPerSecond n)
    add 64 s.phaseStartCycles offset

/-- Selections that fall into one turn of the weight circle: `[lo, hi)` cut to the
`remainder` positions from `cursor` on. -/
def wrapHits (lo hi cursor remainder : Nat) : Checked Nat := do
  let stop ← add 64 cursor remainder
  let lo := max lo cursor
  let hi := min hi stop
  if lo < hi then sub 64 hi lo else pure 0

/-- Skipped arrivals of the class that owns the weights `[first, last)`. -/
def classHits (total cursor count first last : Nat) : Checked Nat := do
  let width ← sub 64 last first
  let hits ← mul 64 (count / total) width
  let here ← wrapHits first last cursor (count % total)
  let hits ← add 64 hits here
  let lo ← add 64 first total
  let hi ← add 64 last total
  let there ← wrapHits lo hi cursor (count % total)
  add 64 hits there

/-- Replace the counters of one class in one phase. -/
def setCount (counts : Nat → Nat → ScheduleCount) (phase cls : Nat) (count : ScheduleCount) :
    Nat → Nat → ScheduleCount :=
  Function.update counts phase (Function.update (counts phase) cls count)

def addSkipped (counts : Nat → Nat → ScheduleCount) (phase cls hits : Nat) :
    Checked (Nat → Nat → ScheduleCount) := do
  let skipped ← add 64 (counts phase cls).skipped hits
  pure (setCount counts phase cls { counts phase cls with skipped := skipped })

/-- The loop of `tg_skip` over the classes from number `cls` on. -/
def skipClasses (phase total cursor count : Nat) :
    List Nat → Nat → Nat → (Nat → Nat → ScheduleCount) →
      Checked (Nat → Nat → ScheduleCount)
  | [], _, _, counts => pure counts
  | weight :: rest, cls, first, counts => do
      let last ← add 64 first weight
      let hits ← classHits total cursor count first last
      let counts ← addSkipped counts phase cls hits
      skipClasses phase total cursor count rest (cls + 1) last counts

/-- The ordinals of the shard's next `count` arrivals. -/
def nextOrdinals (s : Scheduler) (count : Nat) : List Nat :=
  (List.range count).map fun k =>
    s.globalArrivalOffset +
      ((s.phaseConsumed + k) * schedulerShards plan + schedulerShardIndex plan)

def schedulerSkip (s : Scheduler) (count : Nat) : Checked Scheduler := do
  let cursor := s.selectionCursor % plan.totalWeight
  let counts ← skipClasses s.phaseIndex plan.totalWeight cursor count plan.weights 0 0 s.counts
  let selectionCursor ← add 64 s.selectionCursor count
  let phaseConsumed ← add 64 s.phaseConsumed count
  let skippedTotal ← add 64 s.skippedTotal count
  pure { s with
    counts := counts
    selectionCursor := selectionCursor
    phaseConsumed := phaseConsumed
    skippedTotal := skippedTotal
    arrivals := s.arrivals ++
      (nextOrdinals plan s count).map fun ordinal => ⟨s.phaseIndex, ordinal, false⟩ }

/-- The loop of `tg_select` over the classes from number `cls` on. -/
def selectFrom (selected : Nat) : List Nat → Nat → Nat → Checked Nat
  | [], _, _ => pure 0
  | weight :: rest, cls, cumulative => do
      let cumulative ← add 32 cumulative weight
      if selected < cumulative then pure cls else selectFrom selected rest (cls + 1) cumulative

/-- `tg_scheduler_init` on an accepted plan and frequency. -/
def schedulerInit (hz : Nat) : Scheduler :=
  { cyclesPerSecond := hz, startCycles := 0, lastCycles := 0, tokenNumerator := 0
    selectionCursor := plan.selectionPhase, phaseStartCycles := 0, globalArrivalOffset := 0
    dispatchOrdinal := 0, phaseConsumed := 0, phaseSeen := 0, plannedTotal := 0
    skippedTotal := 0, concurrencyBlockedTurns := 0, dispatchPlannedCycles := 0
    stopCycles := 0, phaseIndex := 0, counts := fun _ _ => ⟨0, 0⟩, active := 0
    resourcePauses := 0, resourcePaused := false, started := false, stopped := false
    arrivals := [] }

def startAt (s : Scheduler) (epoch : Nat) : Checked Scheduler := do
  let length ← mul 64 plan.durationSec s.cyclesPerSecond
  let stop ← add 64 epoch length
  pure { s with
    started := true, startCycles := epoch, phaseStartCycles := epoch, lastCycles := epoch
    stopCycles := stop }

/-- The arrivals due by `elapsed` become planned. -/
def seeDue (s : Scheduler) (elapsed : Nat) : Checked Scheduler := do
  let due ← dueCount plan s elapsed
  let fresh ← sub 64 due s.phaseSeen
  let planned ← add 64 s.plannedTotal fresh
  pure { s with plannedTotal := planned, phaseSeen := due }

/-- Leave a phase that has ended: skip its backlog and move to the next phase. -/
def leavePhase (s : Scheduler) (duration : Nat) : Checked Scheduler := do
  let phase := schedulerPhase plan s.phaseIndex
  let left ← sub 64 s.phaseSeen s.phaseConsumed
  let s ← schedulerSkip plan s left
  let rates ← add 32 phase.startCps phase.targetCps
  let twice ← mul 64 phase.durationSec rates
  let twice ← add 64 twice 1
  let offset ← add 64 s.globalArrivalOffset (twice / 2)
  let start ← add 64 s.phaseStartCycles duration
  let index ← add 32 s.phaseIndex 1
  pure { s with
    globalArrivalOffset := offset
    phaseStartCycles := start
    phaseIndex := index
    phaseConsumed := 0
    phaseSeen := 0
    tokenNumerator := 0 }

def schedulerPhases : Nat := if plan.phases.length ≠ 0 then plan.phases.length else 1

/-- The phase loop of a tick; it leaves at most the given number of phases.  The flag
says whether the loop found a phase that has not ended. -/
def catchUp (now : Nat) : Nat → Scheduler → Checked (Scheduler × Bool)
  | 0, s => pure (s, false)
  | rounds + 1, s => do
      let phase := schedulerPhase plan s.phaseIndex
      let duration ← mul 64 phase.durationSec s.cyclesPerSecond
      let elapsed ← sub 64 now s.phaseStartCycles
      if elapsed < duration then do
        let s ← seeDue plan s elapsed
        pure (s, true)
      else do
        let s ← seeDue plan s duration
        let s ← leavePhase plan s duration
        if s.phaseIndex = schedulerPhases plan then pure ({ s with stopped := true }, false)
        else catchUp now rounds s

/-- `tg_scheduler_on_flow_finished` -/
def onFlowFinished (s : Scheduler) : Scheduler :=
  if s.active ≠ 0 then { s with active := s.active - 1 } else s

section Start

variable {σ : Type} (ramp : RampInverse) (start : Dispatch → σ → StartOutcome × σ)

/-- Select the next arrival and consume it. -/
def takeArrival (s : Scheduler) : Checked (Scheduler × Dispatch) := do
  let cls ← selectFrom (s.selectionCursor % plan.totalWeight) plan.weights 0 0
  let cursor ← add 64 s.selectionCursor 1
  let planned ← dueCycles plan ramp s
  let dealt ← mul 64 s.phaseConsumed (schedulerShards plan)
  let ordinal ← add 64 s.globalArrivalOffset dealt
  let ordinal ← add 64 ordinal (schedulerShardIndex plan)
  let attempted ← add 64 (s.counts s.phaseIndex cls).attempted 1
  let consumed ← add 64 s.phaseConsumed 1
  pure
    ({ s with
        selectionCursor := cursor
        dispatchPlannedCycles := planned
        dispatchOrdinal := ordinal
        counts := setCount s.counts s.phaseIndex cls
          { s.counts s.phaseIndex cls with attempted := attempted }
        phaseConsumed := consumed
        arrivals := s.arrivals ++ [⟨s.phaseIndex, ordinal, true⟩] },
      ⟨s.phaseIndex, cls, planned, ordinal⟩)

/-- Account for a start; flows may have finished before it returned. -/
def noteStart (s : Scheduler) (outcome : StartOutcome) : Checked Scheduler := do
  let s := onFlowFinished^[outcome.finished] s
  if outcome.admitted then do
    let active ← add 32 s.active 1
    pure { s with active := active }
  else pure s

/-- What the dispatch loop hands on: the scheduler, the callback's state, the attempts made
and the arrivals still pending. -/
structure Turn (σ : Type) where
  sched : Scheduler
  host : σ
  attempts : Nat
  pending : Nat

/-- The dispatch loop, with `budget` attempts left. -/
def dispatchLoop : Nat → Turn σ → Checked (Turn σ)
  | 0, t => pure t
  | budget + 1, t =>
    if ¬ t.sched.resourcePaused ∧ t.pending ≠ 0 ∧ t.sched.active < plan.maxConcurrency then do
      let taken ← takeArrival plan ramp t.sched
      let answer := start taken.2 t.host
      let s ← noteStart taken.1 answer.1
      let attempts ← add 32 t.attempts 1
      let pending ← sub 64 t.pending 1
      dispatchLoop budget ⟨s, answer.2, attempts, pending⟩
    else pure t

/-- A backlog over the concurrency cap loses its oldest arrivals. -/
def trimBacklog (s : Scheduler) (pending : Nat) : Checked Scheduler :=
  if plan.maxConcurrency < pending then
    schedulerSkip plan s (pending - plan.maxConcurrency)
  else pure s

/-- A turn with pending arrivals that the cap keeps back is counted. -/
def countBlocked (t : Turn σ) : Checked Nat :=
  if t.pending ≠ 0 ∧ plan.maxConcurrency ≤ t.sched.active then
    add 64 t.sched.concurrencyBlockedTurns 1
  else pure t.sched.concurrencyBlockedTurns

/-- The part of a tick after the phase loop. -/
def dispatchPending (budget : Nat) (s : Scheduler) (host : σ) : Checked (Turn σ) := do
  let pending ← sub 64 s.phaseSeen s.phaseConsumed
  let s ← trimBacklog plan s pending
  let t ← dispatchLoop plan ramp start budget
    ⟨s, host, 0, min pending plan.maxConcurrency⟩
  let token ← mul 64 t.pending t.sched.cyclesPerSecond
  let turns ← countBlocked plan t
  pure { t with
    sched := { t.sched with tokenNumerator := token, concurrencyBlockedTurns := turns } }

/-- `tg_scheduler_tick` -/
def schedulerTick (now budget : Nat) (s : Scheduler) (host : σ) : Checked (Turn σ) := do
  if s.stopped then pure ⟨s, host, 0, 0⟩
  else if ¬ s.started then do
    let s ← startAt plan s now
    pure ⟨s, host, 0, 0⟩
  else if now < s.startCycles then pure ⟨s, host, 0, 0⟩
  else if now < s.lastCycles then pure ⟨{ s with stopped := true }, host, 0, 0⟩
  else do
    let caught ← catchUp plan now (schedulerPhases plan) { s with lastCycles := now }
    if caught.2 then dispatchPending plan ramp start budget caught.1 host
    else pure ⟨caught.1, host, 0, 0⟩

end Start

/-- `tg_scheduler_set_resource_available` -/
def setResourceAvailable (s : Scheduler) (available : Bool) : Checked Scheduler :=
  if ¬ available ∧ ¬ s.resourcePaused then do
    let pauses ← add 64 s.resourcePauses 1
    pure { s with resourcePaused := true, resourcePauses := pauses }
  else if available then pure { s with resourcePaused := false }
  else pure s

end SnowTG.Traffic
