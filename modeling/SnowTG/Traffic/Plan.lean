import SnowTG.Lib.Loop

/-!
# Compiled plans and their shards

A scenario file compiles into a plan: open-arrival phases with a linear rate, a
concurrency cap and weighted classes.  A plan is split over the scheduling shards;
the phases keep their global rates and shard `i` owns every `shards`-th arrival.
-/

namespace SnowTG.Traffic

open Lib List Option

def planMaxClasses : Nat := 16
def planMaxPhases : Nat := 16
def planMaxConcurrency : Nat := 65536
def planMaxCps : Nat := 1000000
def planMaxDurationSec : Nat := 86400

/-- One phase: the rate moves linearly from `startCps` to `targetCps`. -/
structure PhasePlan where
  name : String
  durationSec : Nat
  startCps : Nat
  targetCps : Nat
deriving DecidableEq, Repr

/-- A plan of one scheduler.  The phase and class counts are the lengths of the lists. -/
structure Plan where
  durationSec : Nat
  maxConcurrency : Nat
  targetCps : Nat
  totalWeight : Nat
  scheduleShardIndex : Nat
  scheduleShardCount : Nat
  phases : List PhasePlan
  selectionPhase : Nat
  weights : List Nat
deriving DecidableEq, Repr

/-- A phase object of the scenario file. -/
structure PhaseEntry where
  name : String
  durationSec : Nat
  startCps : Option Nat
  targetCps : Nat
deriving DecidableEq, Repr

/-- The members of a scenario file the scheduler depends on. -/
structure Scenario where
  maxConcurrency : Nat
  durationSec : Option Nat
  targetCps : Option Nat
  phases : Option (List PhaseEntry)
  weights : List Nat
deriving DecidableEq, Repr

/-- A number of the file, within its bounds. -/
def parseU32 (lo hi value : Nat) : Option Nat :=
  if lo ≤ value ∧ value ≤ hi then some value else none

/-- A phase without a start rate is steady. -/
def parseStart (target : Nat) : Option Nat → Option Nat
  | none => some target
  | some value => parseU32 0 planMaxCps value

/-- One turn of the loop over the phase objects. -/
def parsePhase (plan : Plan) (entry : PhaseEntry) : Option Plan := do
  let duration ← parseU32 1 planMaxDurationSec entry.durationSec
  let target ← parseU32 0 planMaxCps entry.targetCps
  let start ← parseStart target entry.startCps
  if plan.phases.any (fun earlier => earlier.name == entry.name) then none
  else if planMaxDurationSec < plan.durationSec + duration then none
  else
    some { plan with
      durationSec := plan.durationSec + duration
      targetCps := max (max plan.targetCps target) start
      phases := plan.phases ++ [⟨entry.name, duration, start, target⟩] }

def parsePhases (entries : List PhaseEntry) (plan : Plan) : Option Plan := do
  if entries.length < 1 ∨ planMaxPhases < entries.length then none
  else
    let plan ← entries.foldlM parsePhase plan
    if plan.targetCps ≠ 0 then some plan else none

/-- The old form of a scenario compiles into one steady phase. -/
def parseSteady (duration cps : Nat) (plan : Plan) : Option Plan := do
  let duration ← parseU32 1 planMaxDurationSec duration
  let cps ← parseU32 1 planMaxCps cps
  some { plan with
    durationSec := duration, targetCps := cps, phases := [⟨"steady", duration, cps, cps⟩] }

/-- One turn of the loop over the class objects. -/
def parseClass (plan : Plan) (weight : Nat) : Option Plan := do
  if planMaxClasses ≤ plan.weights.length then none
  else
    let weight ← parseU32 1 (2 ^ 32 - 1) weight
    if 2 ^ 32 - 1 < plan.totalWeight + weight then none
    else
      some { plan with
        totalWeight := plan.totalWeight + weight, weights := plan.weights ++ [weight] }

def parseClasses (weights : List Nat) (plan : Plan) : Option Plan := do
  if weights.length = 0 ∨ planMaxClasses < weights.length then none
  else weights.foldlM parseClass plan

def Plan.empty : Plan :=
  { durationSec := 0, maxConcurrency := 0, targetCps := 0, totalWeight := 0
    scheduleShardIndex := 0, scheduleShardCount := 0, phases := [], selectionPhase := 0
    weights := [] }

/-- Phases exclude the members of the old form; without phases both are required. -/
def parseLoad (file : Scenario) (plan : Plan) : Option Plan :=
  match file.phases, file.durationSec, file.targetCps with
  | some entries, none, none => parsePhases entries plan
  | none, some duration, some cps => parseSteady duration cps plan
  | _, _, _ => none

/-- `tg_plan_load_file`, from the parsed members on. -/
def planLoad (file : Scenario) : Option Plan := do
  let concurrency ← parseU32 1 planMaxConcurrency file.maxConcurrency
  let plan ← parseLoad file { Plan.empty with maxConcurrency := concurrency }
  parseClasses file.weights plan

/-- `tg_plan_partition`: the plan of shard `index` out of `count`. -/
def planPartition (source : Plan) (index count : Nat) : Option Plan :=
  if count = 0 ∨ count ≤ index ∨ source.targetCps = 0 ∨ source.maxConcurrency = 0 ∨
      source.weights.length = 0 ∨ source.totalWeight = 0 ∨
      planMaxClasses < source.weights.length ∨ source.targetCps < count ∨
      source.maxConcurrency < count then
    none
  else
    some { source with
      scheduleShardIndex := index
      scheduleShardCount := count
      targetCps := source.targetCps / count +
        (if index < source.targetCps % count then 1 else 0)
      maxConcurrency := source.maxConcurrency / count +
        (if index < source.maxConcurrency % count then 1 else 0)
      selectionPhase := index * source.totalWeight / count }

/-- Total length of a list of phases in seconds. -/
def durationOf (phases : List PhasePlan) : Nat :=
  (phases.map PhasePlan.durationSec).sum

/-- What the loader checks of one phase. -/
structure PhasePlan.Valid (phase : PhasePlan) : Prop where
  duration_pos : 0 < phase.durationSec
  start_le : phase.startCps ≤ planMaxCps
  target_le : phase.targetCps ≤ planMaxCps

/-- What the loader guarantees of a plan. -/
structure Plan.Valid (plan : Plan) : Prop where
  phases_ne : plan.phases ≠ []
  phase : ∀ phase ∈ plan.phases, phase.Valid
  duration : plan.durationSec = durationOf plan.phases
  duration_le : plan.durationSec ≤ planMaxDurationSec
  phases_le : plan.phases.length ≤ planMaxPhases
  weights_ne : plan.weights ≠ []
  weights_le : plan.weights.length ≤ planMaxClasses
  weight : plan.totalWeight = plan.weights.sum
  weight_pos : ∀ weight ∈ plan.weights, 0 < weight
  weight_lt : plan.totalWeight < 2 ^ 32
  concurrency_pos : 0 < plan.maxConcurrency
  concurrency_le : plan.maxConcurrency ≤ planMaxConcurrency

variable {n : Nat}

theorem parseU32_eq_some {lo hi value : Nat} :
    parseU32 lo hi value = some n ↔ n = value ∧ lo ≤ value ∧ value ≤ hi := by
  unfold parseU32
  split_ifs with h
  · simp [h, eq_comm]
  · simp [h]

/-- What the phase loop has established after `n` objects. -/
structure PhasesParsed (concurrency n : Nat) (plan : Plan) : Prop where
  length : plan.phases.length = n
  phase : ∀ phase ∈ plan.phases, phase.Valid
  duration : plan.durationSec = durationOf plan.phases
  duration_le : plan.durationSec ≤ planMaxDurationSec
  classes : plan.weights = [] ∧ plan.totalWeight = 0
  concurrency : plan.maxConcurrency = concurrency

variable {concurrency : Nat} {plan : Plan}

theorem PhasesParsed.add {phase : PhasePlan} {cps : Nat} (h : PhasesParsed concurrency n plan)
    (hphase : phase.Valid) (hle : plan.durationSec + phase.durationSec ≤ planMaxDurationSec) :
    PhasesParsed concurrency (n + 1)
      { plan with
        durationSec := plan.durationSec + phase.durationSec
        targetCps := cps
        phases := plan.phases ++ [phase] } := by
  constructor
  · simp [h.length]
  · intro q hq
    rcases mem_append.mp hq with hq | hq
    · exact h.phase q hq
    · rw [mem_singleton.mp hq]
      exact hphase
  · simp [durationOf, h.duration]
  · exact hle
  · exact h.classes
  · exact h.concurrency

theorem parseStart_le {target start : Nat} {given : Option Nat} (htarget : target ≤ planMaxCps)
    (h : parseStart target given = some start) : start ≤ planMaxCps := by
  cases given with
  | none =>
    cases h
    exact htarget
  | some value =>
    obtain ⟨rfl, -, hle⟩ := parseU32_eq_some.mp h
    exact hle

variable {q : Plan}

theorem parsePhase_parsed {entry : PhaseEntry} (h : PhasesParsed concurrency n plan)
    (hq : parsePhase plan entry = some q) : PhasesParsed concurrency (n + 1) q := by
  simp only [parsePhase, bind_eq_bind, bind_eq_some_iff] at hq
  obtain ⟨duration, hduration, target, htarget, start, hstart, hq⟩ := hq
  obtain ⟨rfl, hpos, -⟩ := parseU32_eq_some.mp hduration
  obtain ⟨rfl, -, htarget_le⟩ := parseU32_eq_some.mp htarget
  have hphase : PhasePlan.Valid ⟨entry.name, entry.durationSec, start, entry.targetCps⟩ :=
    ⟨hpos, parseStart_le htarget_le hstart, htarget_le⟩
  split at hq
  · cases hq
  · split at hq
    · cases hq
    · rename_i hfit
      cases hq
      exact h.add hphase (Nat.le_of_not_lt hfit)

variable {file : Scenario}

theorem parseLoad_parsed (h : PhasesParsed concurrency 0 plan) (hq : parseLoad file plan = some q) :
    ∃ n, 0 < n ∧ n ≤ planMaxPhases ∧ PhasesParsed concurrency n q := by
  unfold parseLoad at hq
  split at hq
  · rename_i entries _ _ _
    unfold parsePhases at hq
    split at hq
    · cases hq
    · simp only [bind_eq_bind, bind_eq_some_iff] at hq
      obtain ⟨r, hr, hq⟩ := hq
      split at hq
      · cases hq
        have hparsed := foldlM_invariant (fun _ _ _ _ => parsePhase_parsed) h hr
        exact ⟨0 + entries.length, by omega, by omega, hparsed⟩
      · cases hq
  · simp only [parseSteady, bind_eq_bind, bind_eq_some_iff] at hq
    obtain ⟨duration, hd, cps, hc, hq⟩ := hq
    obtain ⟨hdeq, hdpos, hdle⟩ := parseU32_eq_some.mp hd
    obtain ⟨hceq, -, hcle⟩ := parseU32_eq_some.mp hc
    rw [← hdeq] at hdpos hdle
    rw [← hceq] at hcle
    have hnil : plan.phases = [] := eq_nil_of_length_eq_zero h.length
    have hzero : plan.durationSec = 0 := by
      rw [h.duration, hnil]
      rfl
    have hphase : PhasePlan.Valid ⟨"steady", duration, cps, cps⟩ := ⟨hdpos, hcle, hcle⟩
    have hadd : PhasesParsed concurrency (0 + 1) { plan with
        durationSec := plan.durationSec + duration, targetCps := cps
        phases := plan.phases ++ [⟨"steady", duration, cps, cps⟩] } :=
      h.add hphase (by simpa [hzero] using hdle)
    refine ⟨1, by decide, by decide, ?_⟩
    cases hq
    simpa [hnil, hzero] using hadd
  · cases hq

/-- What the class loop has established. -/
structure ClassesParsed (before plan : Plan) : Prop where
  phases : plan.phases = before.phases
  duration : plan.durationSec = before.durationSec
  concurrency : plan.maxConcurrency = before.maxConcurrency
  weights_le : plan.weights.length ≤ planMaxClasses
  weight : plan.totalWeight = plan.weights.sum
  weight_pos : ∀ weight ∈ plan.weights, 0 < weight
  weight_lt : plan.totalWeight < 2 ^ 32

variable {weight : Nat}

theorem parseClass_length (hq : parseClass plan weight = some q) :
    q.weights.length = plan.weights.length + 1 := by
  unfold parseClass at hq
  split at hq
  · cases hq
  · simp only [bind_eq_bind, bind_eq_some_iff] at hq
    obtain ⟨w, -, hq⟩ := hq
    split at hq
    · cases hq
    · cases hq
      simp

theorem parseClass_parsed {before : Plan} (h : ClassesParsed before plan)
    (hq : parseClass plan weight = some q) : ClassesParsed before q := by
  unfold parseClass at hq
  split at hq
  · cases hq
  · rename_i hroom
    simp only [bind_eq_bind, bind_eq_some_iff] at hq
    obtain ⟨w, hw, hq⟩ := hq
    obtain ⟨rfl, hpos, -⟩ := parseU32_eq_some.mp hw
    split at hq
    · cases hq
    · rename_i hfit
      cases hq
      constructor
      · exact h.phases
      · exact h.duration
      · exact h.concurrency
      · simp only [length_append, length_singleton]
        omega
      · simp [h.weight]
      · intro v hv
        rcases mem_append.mp hv with hv | hv
        · exact h.weight_pos v hv
        · rw [mem_singleton.mp hv]
          exact hpos
      · change plan.totalWeight + w < 2 ^ 32
        omega

theorem parseClasses_parsed {weights : List Nat} (h : plan.weights = [] ∧ plan.totalWeight = 0)
    (hq : parseClasses weights plan = some q) : ClassesParsed plan q ∧ q.weights ≠ [] := by
  unfold parseClasses at hq
  split at hq
  · cases hq
  · have hstart : ClassesParsed plan plan :=
      ⟨rfl, rfl, rfl, by simp [h.1], by simp [h.1, h.2], by simp [h.1], by simp [h.2]⟩
    have hparsed : ClassesParsed plan q ∧ q.weights.length = 0 + weights.length := by
      refine foldlM_invariant (P := fun n q => ClassesParsed plan q ∧ q.weights.length = n)
        ?_ ⟨hstart, by simp [h.1]⟩ hq
      intro n s weight s' hs hstep
      exact ⟨parseClass_parsed hs.1 hstep, hs.2 ▸ parseClass_length hstep⟩
    refine ⟨hparsed.1, ?_⟩
    apply ne_nil_of_length_pos
    omega

/-- What is loaded passes every check. -/
theorem planLoad_valid (h : planLoad file = some plan) : plan.Valid := by
  simp only [planLoad, bind_eq_bind, bind_eq_some_iff] at h
  obtain ⟨concurrency, hc, before, hload, hclasses⟩ := h
  obtain ⟨rfl, hcpos, hcle⟩ := parseU32_eq_some.mp hc
  have hempty : PhasesParsed file.maxConcurrency 0
      { Plan.empty with maxConcurrency := file.maxConcurrency } :=
    ⟨rfl, by simp [Plan.empty], rfl, zero_le, ⟨rfl, rfl⟩, rfl⟩
  obtain ⟨n, hn, hn_le, hphases⟩ := parseLoad_parsed hempty hload
  obtain ⟨hparsed, hne⟩ := parseClasses_parsed hphases.classes hclasses
  have hsame := hparsed.phases
  have hduration := hparsed.duration
  have hcap := hparsed.concurrency
  have hlength := hphases.length
  constructor
  · rw [hsame]
    apply ne_nil_of_length_pos
    omega
  · rw [hsame]
    exact hphases.phase
  · rw [hsame, hduration]
    exact hphases.duration
  · rw [hduration]
    exact hphases.duration_le
  · rw [hsame]
    omega
  · exact hne
  · exact hparsed.weights_le
  · exact hparsed.weight
  · exact hparsed.weight_pos
  · exact hparsed.weight_lt
  · rw [hcap, hphases.concurrency]
    exact hcpos
  · rw [hcap, hphases.concurrency]
    exact hcle

/-- The shards of a valid plan share its phases and classes. -/
structure ShardOf (source : Plan) (index count : Nat) (shard : Plan) : Prop where
  index_lt : index < count
  valid : shard.Valid
  shardIndex : shard.scheduleShardIndex = index
  shardCount : shard.scheduleShardCount = count
  phases : shard.phases = source.phases
  weights : shard.weights = source.weights
  count_le : count ≤ planMaxConcurrency
  selection_lt : shard.selectionPhase < 2 ^ 32

theorem planPartition_shard {source shard : Plan} {index count : Nat} (hvalid : source.Valid)
    (h : planPartition source index count = some shard) : ShardOf source index count shard := by
  unfold planPartition at h
  split at h
  · cases h
  · rename_i hguard
    simp only [not_or, not_le, not_lt] at hguard
    obtain ⟨hcount, hindex, -, -, -, -, -, -, hcap⟩ := hguard
    have hshare : source.maxConcurrency / count + source.maxConcurrency % count ≤
        source.maxConcurrency := by
      calc
        _ ≤ count * (source.maxConcurrency / count) + source.maxConcurrency % count :=
          Nat.add_le_add_right (Nat.le_mul_of_pos_left _ (Nat.pos_of_ne_zero hcount)) _
        _ = source.maxConcurrency := Nat.div_add_mod _ _
    have hpos : 0 < source.maxConcurrency / count :=
      Nat.div_pos hcap (Nat.pos_of_ne_zero hcount)
    have hselection : index * source.totalWeight / count ≤ source.totalWeight := by
      apply Nat.div_le_of_le_mul
      exact Nat.mul_le_mul_right _ hindex.le
    have hweight := hvalid.weight_lt
    have hconc := hvalid.concurrency_le
    cases h
    refine ⟨hindex, { hvalid with concurrency_pos := ?_, concurrency_le := ?_ },
      rfl, rfl, rfl, rfl, by omega, ?_⟩
    · exact Nat.add_pos_left hpos _
    · change source.maxConcurrency / count + _ ≤ _
      split_ifs with hextra <;> omega
    · exact lt_of_le_of_lt hselection hweight

end SnowTG.Traffic
