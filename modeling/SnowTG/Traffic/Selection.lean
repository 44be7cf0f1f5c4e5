import SnowTG.Traffic.ShardedPlan

/-!
# Weighted selection

The positions of the weight circle belong to the classes in turn, and the arrivals of a shard
walk around the circle.  Skipping in bulk counts what selecting one by one counts, and every
turn of the circle gives each class its weight.
-/

namespace SnowTG.Traffic

open Lib Function List
open Lib.Checked

/-- The class selected at a position of the cursor. -/
def classAt (plan : Plan) (cursor : Nat) : Nat :=
  (selectFrom (cursor % plan.totalWeight) plan.weights 0 0).value

/-- The class of a shard's arrival, numbered over all phases. -/
def arrivalClass (plan : Plan) (k : Nat) : Nat := classAt plan (plan.selectionPhase + k)

/-- One arrival is selected on its own and counted as skipped. -/
def skipOne (plan : Plan) (s : Scheduler) : Checked Scheduler := do
  let cls ← selectFrom (s.selectionCursor % plan.totalWeight) plan.weights 0 0
  let cursor ← add 64 s.selectionCursor 1
  let counts ← addSkipped s.counts s.phaseIndex cls 1
  pure { s with selectionCursor := cursor, counts := counts }

/-- The counters of a phase with `hits` more skipped arrivals of each class. -/
def credited (counts : Nat → Nat → ScheduleCount) (phase : Nat) (hits : Nat → Nat) :
    Nat → Nat → ScheduleCount := fun p c =>
  if p = phase then { counts p c with skipped := ((counts p c).skipped + hits c) % 2 ^ 64 }
  else counts p c

/-- The selected class owns the position. -/
theorem selectFrom_owner {selected : Nat} (weights : List Nat) (cls cumulative : Nat)
    (hfits : cumulative + weights.sum < 2 ^ 32) (hlow : cumulative ≤ selected)
    (hhigh : selected < cumulative + weights.sum) :
    ∃ k < weights.length, selectFrom selected weights cls cumulative = pure (cls + k) ∧
      cumulative + (weights.take k).sum ≤ selected ∧
      selected < cumulative + (weights.take (k + 1)).sum := by
  induction weights generalizing cls cumulative with
  | nil =>
    rw [sum_nil] at hhigh
    omega
  | cons weight rest ih =>
    rw [sum_cons] at hfits hhigh
    rw [selectFrom, add_of_lt (by omega), pure_bind]
    split_ifs with hhit
    · exact ⟨0, by simp, rfl, by simpa using hlow, by simpa using hhit⟩
    · obtain ⟨k, hk, hselect, hfrom, hto⟩ :=
        ih (cls + 1) (cumulative + weight) (by omega) (by omega) (by omega)
      refine ⟨k + 1, by simpa using hk, ?_, ?_, ?_⟩
      · rw [hselect, Nat.add_assoc, add_comm 1 k]
      · rw [take_succ_cons, sum_cons, ← Nat.add_assoc]
        exact hfrom
      · rw [take_succ_cons, sum_cons, ← Nat.add_assoc]
        exact hto

section

variable {plan : Plan}

theorem classAt_spec (h : plan.Valid) (cursor : Nat) :
    selectFrom (cursor % plan.totalWeight) plan.weights 0 0 = pure (classAt plan cursor) ∧
      classAt plan cursor < plan.weights.length ∧
      (plan.weights.take (classAt plan cursor)).sum ≤ cursor % plan.totalWeight ∧
      cursor % plan.totalWeight < (plan.weights.take (classAt plan cursor + 1)).sum := by
  have hlt := Nat.mod_lt cursor h.totalWeight_pos
  have hfits := h.weight_lt
  rw [h.weight] at hlt hfits
  obtain ⟨k, hk, hselect, hfrom, hto⟩ := selectFrom_owner plan.weights 0 0 (by omega)
    (Nat.zero_le (cursor % plan.weights.sum)) (by omega)
  rw [← h.weight, zero_add] at hselect
  have hclass : classAt plan cursor = k := by rw [classAt, hselect, pure_value]
  rw [hclass, h.weight]
  exact ⟨h.weight ▸ hselect, hk, by omega, by omega⟩

/-- A class is selected at the positions of its span of the circle. -/
theorem classAt_eq_iff (h : plan.Valid) (cursor : Nat) {cls : Nat} :
    classAt plan cursor = cls ↔ (plan.weights.take cls).sum ≤ cursor % plan.totalWeight ∧
      cursor % plan.totalWeight < (plan.weights.take (cls + 1)).sum := by
  obtain ⟨-, -, hfrom, hto⟩ := classAt_spec h cursor
  have hmono : Monotone fun k => (plan.weights.take k).sum := monotone_sum_take plan.weights
  constructor
  · rintro rfl
    exact ⟨hfrom, hto⟩
  · rintro ⟨hfrom', hto'⟩
    rcases Nat.lt_trichotomy (classAt plan cursor) cls with hless | heq | hmore
    · exact absurd (hto.trans_le (hmono (Nat.succ_le_of_lt hless))) hfrom'.not_gt
    · exact heq
    · exact absurd (hto'.trans_le (hmono (Nat.succ_le_of_lt hmore))) hfrom.not_gt

end

/-- How far `[lo, hi)` overlaps the `width` positions from `cursor` on. -/
def overlap (lo hi cursor width : Nat) : Nat :=
  min (max hi cursor) (cursor + width) - min (max lo cursor) (cursor + width)

@[simp] theorem overlap_zero (lo hi cursor : Nat) : overlap lo hi cursor 0 = 0 := by
  unfold overlap
  omega

theorem overlap_succ {lo hi : Nat} (h : lo ≤ hi) (cursor width : Nat) :
    overlap lo hi cursor (width + 1) = overlap lo hi cursor width +
      if lo ≤ cursor + width ∧ cursor + width < hi then 1 else 0 := by
  unfold overlap
  split_ifs <;> omega

theorem spanHits_eq (total cursor count first last : Nat) :
    spanHits total cursor count first last = count / total * (last - first) +
      overlap first last cursor (count % total) +
      overlap (first + total) (last + total) cursor (count % total) := rfl

/-- A whole turn meets every position once. -/
theorem overlap_turn {total cursor first last : Nat} (hcursor : cursor < total)
    (hfirst : first ≤ last) (hlast : last ≤ total) :
    overlap first last cursor total + overlap (first + total) (last + total) cursor total =
      last - first := by
  unfold overlap
  omega

/-- One more position beyond `count`. -/
theorem spanHits_succ {total cursor first last : Nat} (hcursor : cursor < total)
    (hfirst : first ≤ last) (hlast : last ≤ total) (count : Nat) :
    spanHits total cursor (count + 1) first last = spanHits total cursor count first last +
      if first ≤ (cursor + count) % total ∧ (cursor + count) % total < last then 1 else 0 := by
  have hpos : 0 < total := by omega
  have hmod := Nat.mod_lt count hpos
  have hdivmod := Nat.mod_add_div count total
  have hplace : (cursor + count) % total = if cursor + count % total < total then
      cursor + count % total else cursor + count % total - total := by
    rw [Nat.add_mod, Nat.mod_eq_of_lt hcursor]
    split_ifs with hin
    · exact Nat.mod_eq_of_lt hin
    · rw [Nat.mod_eq_sub_mod (by omega), Nat.mod_eq_of_lt (by omega)]
  have hhere := overlap_succ hfirst cursor (count % total)
  have hthere := overlap_succ (Nat.add_le_add_right hfirst total) cursor (count % total)
  have hstep : overlap first last cursor (count % total + 1) +
      overlap (first + total) (last + total) cursor (count % total + 1) =
      overlap first last cursor (count % total) +
        overlap (first + total) (last + total) cursor (count % total) +
        if first ≤ (cursor + count) % total ∧ (cursor + count) % total < last then 1 else 0 := by
    rw [hhere, hthere, hplace]
    split_ifs <;> omega
  rw [spanHits_eq, spanHits_eq]
  by_cases hturn : count % total + 1 < total
  · obtain ⟨hdiv, hrem⟩ : (count + 1) / total = count / total ∧
        (count + 1) % total = count % total + 1 :=
      (Nat.div_mod_unique hpos).mpr ⟨by omega, hturn⟩
    rw [hdiv, hrem, Nat.add_assoc, hstep]
    omega
  · -- the last position of a turn: the remainder starts over
    have hlastPlace : count % total + 1 = total := by omega
    obtain ⟨hdiv, hrem⟩ : (count + 1) / total = count / total + 1 ∧ (count + 1) % total = 0 :=
      (Nat.div_mod_unique hpos).mpr ⟨by rw [Nat.mul_add]; omega, hpos⟩
    rw [hlastPlace, overlap_turn hcursor hfirst hlast] at hstep
    rw [hdiv, hrem, Nat.add_mul, Nat.one_mul, overlap_zero, overlap_zero]
    omega

/-- The closed form of the bulk path counts the positions it stands for. -/
theorem count_span {total cursor first last : Nat} (hcursor : cursor < total)
    (hfirst : first ≤ last) (hlast : last ≤ total) (count : Nat) :
    Nat.count (fun k => first ≤ (cursor + k) % total ∧ (cursor + k) % total < last) count =
      spanHits total cursor count first last := by
  induction count with
  | zero => simp [spanHits_eq]
  | succ count ih => rw [Nat.count_succ, ih, spanHits_succ hcursor hfirst hlast]

section

variable {plan : Plan}

/-- How often a class is selected from a position of the cursor on. -/
theorem count_classAt (h : plan.Valid) (cursor count cls : Nat) :
    Nat.count (fun k => classAt plan (cursor + k) = cls) count =
      spanHits plan.totalWeight (cursor % plan.totalWeight) count (plan.weights.take cls).sum
        (plan.weights.take (cls + 1)).sum := by
  have hmono : Monotone fun k => (plan.weights.take k).sum := monotone_sum_take plan.weights
  have hlast : (plan.weights.take (cls + 1)).sum ≤ plan.totalWeight := by
    rw [h.weight]
    exact (take_sublist _ _).sum_le_sum fun _ _ => zero_le
  rw [← count_span (Nat.mod_lt _ h.totalWeight_pos) (hmono (Nat.le_succ cls)) hlast]
  simp only [classAt_eq_iff h, Nat.mod_add_mod]

/-- Every turn of the weight circle, wherever it begins, has each class by its weight. -/
theorem count_classAt_turn (h : plan.Valid) (cursor : Nat) {cls : Nat}
    (hcls : cls < plan.weights.length) :
    Nat.count (fun k => classAt plan (cursor + k) = cls) plan.totalWeight = plan.weights[cls] := by
  rw [count_classAt h, spanHits_eq, Nat.mod_self, Nat.div_self h.totalWeight_pos, overlap_zero,
    overlap_zero, sum_take_succ _ _ hcls]
  omega

/-- The loop over the classes credits each class with its hits. -/
theorem skipClasses_value {phase total cursor count : Nat} (hcursor : cursor < total)
    (htotal : total < 2 ^ 32) (hcount : count < 2 ^ 64) (weights : List Nat) (cls first : Nat)
    (counts : Nat → Nat → ScheduleCount) (hfirst : first + weights.sum ≤ total) :
    (skipClasses phase total cursor count weights cls first counts).value = fun p c =>
      if p = phase ∧ cls ≤ c ∧ c < cls + weights.length then
        { counts p c with skipped := ((counts p c).skipped +
          spanHits total cursor count (first + (weights.take (c - cls)).sum)
            (first + (weights.take (c - cls + 1)).sum)) % 2 ^ 64 }
      else counts p c := by
  induction weights generalizing cls first counts with
  | nil =>
    funext p c
    rw [if_neg (by simp)]
    rfl
  | cons weight rest ih =>
    rw [sum_cons] at hfirst
    rw [skipClasses, add_of_lt (by omega), pure_bind,
      classHits_eq hcursor htotal hcount (by omega) (by omega), pure_bind, bind_value, ih _ _ _
        (by omega)]
    funext p c
    simp only [addSkipped, bind_value, pure_value, setCount, Checked.add, narrow, length_cons]
    by_cases hphase : p = phase
    · subst hphase
      rcases Nat.lt_trichotomy c cls with hless | rfl | hmore
      · rw [if_neg (by omega), if_neg (by omega), update_self, update_of_ne hless.ne]
      · rw [if_neg (by omega), if_pos (by omega), update_self, update_self]
        simp
      · obtain ⟨d, rfl⟩ := Nat.exists_eq_add_of_lt hmore
        have hsub : cls + d + 1 - (cls + 1) = d := by omega
        have hsub' : cls + d + 1 - cls = d + 1 := by omega
        rw [update_self, update_of_ne hmore.ne', hsub, hsub']
        simp only [take_succ_cons, sum_cons, Nat.add_assoc]
        by_cases hin : d < rest.length
        · rw [if_pos ⟨trivial, by omega, by omega⟩, if_pos ⟨trivial, by omega, by omega⟩]
        · rw [if_neg (by omega), if_neg (by omega)]
    · rw [if_neg (by tauto), if_neg (by tauto), update_of_ne hphase]

/-- What skipping in bulk leaves behind. -/
theorem schedulerSkip_value (h : plan.Valid) {s : Scheduler} {count : Nat}
    (hcursor : s.selectionCursor + count < 2 ^ 64)
    (hwords : ∀ p c, (s.counts p c).skipped < 2 ^ 64) :
    (schedulerSkip plan s count).value.selectionCursor = s.selectionCursor + count ∧
      (schedulerSkip plan s count).value.counts = credited s.counts s.phaseIndex fun c =>
        Nat.count (fun k => classAt plan (s.selectionCursor + k) = c) count := by
  have hcounts := @skipClasses_value s.phaseIndex _ _ count
    (Nat.mod_lt s.selectionCursor h.totalWeight_pos) h.weight_lt (by omega) plan.weights 0 0
    s.counts (by rw [h.weight, zero_add])
  constructor
  · simp only [schedulerSkip, bind_value, pure_value]
    rw [add_of_lt hcursor, pure_value]
  · simp only [schedulerSkip, bind_value, pure_value]
    rw [hcounts]
    funext p c
    simp only [credited, count_classAt h, zero_add, Nat.sub_zero, Nat.zero_le, true_and]
    by_cases hphase : p = s.phaseIndex
    · rw [if_pos hphase]
      split_ifs with hclass
      · rfl
      · -- beyond the last class the credit is nothing
        have hlength : plan.weights.length ≤ c :=
          Nat.le_of_not_lt fun hlt => hclass ⟨hphase, hlt⟩
        have hsame : spanHits plan.totalWeight (s.selectionCursor % plan.totalWeight) count
            (plan.weights.take c).sum (plan.weights.take (c + 1)).sum = 0 := by
          rw [take_of_length_le hlength, take_of_length_le (by omega)]
          simp [spanHits]
        rw [hsame, add_zero, Nat.mod_eq_of_lt (hwords p c)]
    · rw [if_neg hphase, if_neg fun hclass => hphase hclass.1]

theorem credited_succ (counts : Nat → Nat → ScheduleCount) (phase cls : Nat) (hits : Nat → Nat) :
    (addSkipped (credited counts phase hits) phase cls 1).value =
      credited counts phase fun c => hits c + if cls = c then 1 else 0 := by
  funext p c
  simp only [addSkipped, bind_value, pure_value, setCount, Checked.add, narrow]
  by_cases hphase : p = phase
  · subst hphase
    rw [update_self]
    by_cases hclass : c = cls
    · subst hclass
      simp only [update_self, credited, if_true]
      congr 1
      omega
    · simp [credited, hclass, Ne.symm hclass]
  · simp [credited, hphase]

/-- What selecting one by one leaves behind. -/
theorem skipOne_iterate (h : plan.Valid) {s : Scheduler} {count : Nat}
    (hcursor : s.selectionCursor + count < 2 ^ 64)
    (hwords : ∀ p c, (s.counts p c).skipped < 2 ^ 64) :
    (fun s => (skipOne plan s).value)^[count] s = { s with
      selectionCursor := s.selectionCursor + count
      counts := credited s.counts s.phaseIndex fun c =>
        Nat.count (fun k => classAt plan (s.selectionCursor + k) = c) count } := by
  induction count with
  | zero =>
    ext <;> try rfl
    all_goals
      simp only [iterate_zero, id, credited, Nat.count_zero, add_zero]
      rw [Nat.mod_eq_of_lt (hwords _ _), ite_self]
  | succ count ih =>
    rw [iterate_succ_apply', ih (by omega)]
    simp only [skipOne, bind_value, pure_value, credited_succ, (classAt_spec h _).1, Nat.count_succ]
    rw [add_of_lt (by omega), pure_value, Nat.add_assoc]

end

/-! ### Runs -/

/-- How a scheduler consumes `count` arrivals: in bulk, one by one, or not at all. -/
inductive Consumes (plan : Plan) (ramp : RampInverse) : Nat → Scheduler → Scheduler → Prop
  | none {s s' : Scheduler} (counts : s'.counts = s.counts)
      (cursor : s'.selectionCursor = s.selectionCursor) (arrivals : s'.arrivals = s.arrivals) :
      Consumes plan ramp 0 s s'
  | skip (s : Scheduler) (count : Nat) :
      Consumes plan ramp count s (schedulerSkip plan s count).value
  | take (s : Scheduler) : Consumes plan ramp 1 s (takeArrival plan ramp s).value.1
  | trans {s t u : Scheduler} {a b : Nat} :
      Consumes plan ramp a s t → Consumes plan ramp b t u → Consumes plan ramp (a + b) s u

section

variable {plan : Plan} {ramp : RampInverse} {s : Scheduler}

theorem seeDue_consumes (s : Scheduler) (elapsed : Nat) :
    Consumes plan ramp 0 s (seeDue plan s elapsed).value := by
  apply Consumes.none <;> simp -implicitDefEqProofs only [seeDue, bind_value, pure_value]

theorem leavePhase_consumes (s : Scheduler) (duration : Nat) :
    ∃ count, Consumes plan ramp count s (leavePhase plan s duration).value := by
  refine ⟨_, (Consumes.skip s (sub 64 s.phaseSeen s.phaseConsumed).value).trans (.none ?_ ?_ ?_)⟩
  all_goals simp -implicitDefEqProofs only [leavePhase, bind_value, pure_value]

theorem catchUp_consumes (now rounds : Nat) (s : Scheduler) :
    ∃ count, Consumes plan ramp count s (catchUp plan now rounds s).value.1 := by
  induction rounds generalizing s with
  | zero => exact ⟨0, .none rfl rfl rfl⟩
  | succ rounds ih =>
    simp -implicitDefEqProofs only [catchUp, bind_value]
    generalize (mul 64 (schedulerPhase plan s.phaseIndex).durationSec s.cyclesPerSecond).value =
      duration
    split_ifs with hgoing
    · exact ⟨0, seeDue_consumes s _⟩
    · simp -implicitDefEqProofs only [bind_value]
      have hsee := @seeDue_consumes plan ramp s duration
      generalize (seeDue plan s duration).value = t at hsee ⊢
      obtain ⟨left, hleave⟩ := @leavePhase_consumes plan ramp t duration
      generalize (leavePhase plan t duration).value = u at hleave ⊢
      split_ifs with hlast
      · exact ⟨_, (hsee.trans hleave).trans (.none rfl rfl rfl)⟩
      · obtain ⟨rest, hrest⟩ := ih u
        exact ⟨_, (hsee.trans hleave).trans hrest⟩

theorem noteStart_consumes (s : Scheduler) (outcome : StartOutcome) :
    Consumes plan ramp 0 s (noteStart s outcome).value := by
  unfold noteStart
  rw [onFlowFinished_iterate]
  split_ifs
  · apply Consumes.none <;> simp -implicitDefEqProofs only [bind_value, pure_value]
  · exact .none rfl rfl rfl

variable {σ : Type} (start : Dispatch → σ → StartOutcome × σ)

theorem dispatchLoop_consumes (budget : Nat) (t : Turn σ) :
    ∃ count, Consumes plan ramp count t.sched
      (dispatchLoop plan ramp start budget t).value.sched := by
  induction budget generalizing t with
  | zero => exact ⟨0, .none rfl rfl rfl⟩
  | succ budget ih =>
    rw [dispatchLoop]
    split_ifs with hgo
    · simp -implicitDefEqProofs only [bind_value]
      have htake := @Consumes.take plan ramp t.sched
      generalize (takeArrival plan ramp t.sched).value = taken at htake ⊢
      have hnote := @noteStart_consumes plan ramp taken.1 (start taken.2 t.host).1
      generalize (noteStart taken.1 (start taken.2 t.host).1).value = u at hnote ⊢
      obtain ⟨rest, hrest⟩ := ih ⟨u, _, _, _⟩
      exact ⟨_, (htake.trans hnote).trans hrest⟩
    · exact ⟨0, .none rfl rfl rfl⟩

theorem dispatchPending_consumes (budget : Nat) (s : Scheduler) (host : σ) :
    ∃ count, Consumes plan ramp count s
      (dispatchPending plan ramp start budget s host).value.sched := by
  simp -implicitDefEqProofs only [dispatchPending, bind_value, pure_value]
  have htrim (pending : Nat) :
      ∃ count, Consumes plan ramp count s (trimBacklog plan s pending).value := by
    unfold trimBacklog
    split_ifs with hfull
    · exact ⟨_, .skip s _⟩
    · exact ⟨0, .none rfl rfl rfl⟩
  generalize (sub 64 s.phaseSeen s.phaseConsumed).value = pending
  obtain ⟨skipped, hskip⟩ := htrim pending
  generalize (trimBacklog plan s pending).value = t at hskip ⊢
  obtain ⟨taken, htake⟩ := @dispatchLoop_consumes plan ramp _ start budget
    ⟨t, host, 0, min pending plan.maxConcurrency⟩
  exact ⟨_, (hskip.trans htake).trans (.none rfl rfl rfl)⟩

theorem schedulerTick_consumes (now budget : Nat) (s : Scheduler) (host : σ) :
    ∃ count, Consumes plan ramp count s
      (schedulerTick plan ramp start now budget s host).value.sched := by
  unfold schedulerTick
  split_ifs with hstopped hstarted hearly hback
  · exact ⟨0, .none rfl rfl rfl⟩
  · exact ⟨0, .none rfl rfl rfl⟩
  · exact ⟨0, .none rfl rfl rfl⟩
  · simp -implicitDefEqProofs only [bind_value]
    obtain ⟨caught, hcaught⟩ := @catchUp_consumes plan ramp now (schedulerPhases plan)
      { s with lastCycles := now }
    have hbegin : Consumes plan ramp 0 s { s with lastCycles := now } := .none rfl rfl rfl
    generalize (catchUp plan now (schedulerPhases plan) { s with lastCycles := now }).value = r
      at hcaught ⊢
    split_ifs with hrunning
    · obtain ⟨taken, htake⟩ := @dispatchPending_consumes plan ramp _ start budget r.1 host
      exact ⟨_, (hbegin.trans hcaught).trans htake⟩
    · exact ⟨_, hbegin.trans hcaught⟩
  · refine ⟨0, .none ?_ ?_ ?_⟩ <;> simp -implicitDefEqProofs only [startAt, bind_value, pure_value]

theorem apply_consumes (s : Scheduler) (e : SchedulerEvent) :
    ∃ count, Consumes plan ramp count s (SchedulerState.apply plan ramp s e).value := by
  cases e with
  | tick now budget answers =>
    simp -implicitDefEqProofs only [SchedulerState.apply, tickWith, bind_value, pure_value]
    exact schedulerTick_consumes _ now budget s 0
  | flowFinished =>
    have hfinished := onFlowFinished_iterate 1 s
    rw [iterate_one] at hfinished
    refine ⟨0, .none ?_ ?_ ?_⟩ <;>
      simp -implicitDefEqProofs only [SchedulerState.apply, pure_value, hfinished]
  | resource available =>
    refine ⟨0, ?_⟩
    simp -implicitDefEqProofs only [SchedulerState.apply, setResourceAvailable]
    split_ifs
    · apply Consumes.none <;> simp -implicitDefEqProofs only [bind_value, pure_value]
    · exact .none rfl rfl rfl
    · exact .none rfl rfl rfl

end

/-- The arrivals attributed to a class in a phase, by whether they were attempted. -/
def attributed (plan : Plan) (arrivals : List Arrival) (phase cls : Nat) (tried : Bool) : Nat :=
  arrivals.zipIdx.countP fun (arrival, k) =>
    arrival.phase = phase ∧ arrival.attempted = tried ∧ arrivalClass plan k = cls

/-- The counters of a scheduler attribute each arrival consumed to its class. -/
structure Attributed (plan : Plan) (s : Scheduler) : Prop where
  cursor : s.selectionCursor = plan.selectionPhase + s.arrivals.length
  counts : ∀ phase cls, s.counts phase cls =
    ⟨attributed plan s.arrivals phase cls true, attributed plan s.arrivals phase cls false⟩

section

variable {plan : Plan} {ramp : RampInverse} {s s' : Scheduler}

theorem attributed_le (arrivals : List Arrival) (phase cls : Nat) (tried : Bool) :
    attributed plan arrivals phase cls tried ≤ arrivals.length := by
  calc
    attributed plan arrivals phase cls tried ≤ arrivals.zipIdx.length := countP_le_length
    _ = arrivals.length := length_zipIdx

/-- Arrivals consumed together count for the classes that follow in turn. -/
theorem attributed_append (arrivals : List Arrival) (now : Nat) (attempted : Bool)
    (ordinals : List Nat) (phase cls : Nat) (tried : Bool) :
    attributed plan (arrivals ++ ordinals.map (⟨now, ·, attempted⟩)) phase cls tried =
      attributed plan arrivals phase cls tried +
        if now = phase ∧ attempted = tried then
          Nat.count (fun k => arrivalClass plan (arrivals.length + k) = cls) ordinals.length
        else 0 := by
  induction ordinals using List.reverseRecOn with
  | nil => simp
  | append_singleton ordinals last ih =>
    rw [map_append, ← append_assoc]
    unfold attributed at ih ⊢
    rw [zipIdx_append, countP_append, ih, length_append, length_map,
      length_append, length_singleton, Nat.count_succ]
    simp only [map_cons, map_nil, zipIdx_cons, zipIdx_nil,
      countP_singleton, decide_eq_true_eq, zero_add]
    split_ifs <;> first | rfl | omega | tauto

theorem schedulerSkip_arrivals (s : Scheduler) (count : Nat) :
    (schedulerSkip plan s count).value.arrivals = s.arrivals ++
      (nextOrdinals plan s count).map (⟨s.phaseIndex, ·, false⟩) := by
  simp -implicitDefEqProofs only [schedulerSkip, bind_value, pure_value]

theorem takeArrival_arrivals (s : Scheduler) : ∃ ordinal : Nat,
    (takeArrival plan ramp s).value.1.arrivals = s.arrivals ++
      [ordinal].map (⟨s.phaseIndex, ·, true⟩) :=
  ⟨_, by simp -implicitDefEqProofs only [takeArrival, bind_value, pure_value]; rfl⟩

theorem Consumes.length {count : Nat} (h : Consumes plan ramp count s s') :
    s'.arrivals.length = s.arrivals.length + count := by
  induction h with
  | none counts cursor arrivals => rw [arrivals, add_zero]
  | skip s count => simp [schedulerSkip_arrivals, nextOrdinals]
  | take s =>
    obtain ⟨ordinal, harrivals⟩ := @takeArrival_arrivals plan ramp s
    simp [harrivals]
  | trans hfirst hsecond ih ih' => rw [ih', ih, Nat.add_assoc]

/-- Skipped arrivals are counted for the classes of their positions. -/
theorem Attributed.skip (h : plan.Valid) (hs : Attributed plan s) {count : Nat}
    (hfits : plan.selectionPhase + s.arrivals.length + count < 2 ^ 64) :
    Attributed plan (schedulerSkip plan s count).value := by
  have hwords : ∀ p c, (s.counts p c).skipped < 2 ^ 64 := by
    intro p c
    have hle := @attributed_le plan s.arrivals p c false
    rw [hs.counts]
    dsimp only
    omega
  obtain ⟨hcursor, hcounts⟩ := schedulerSkip_value h (by rw [hs.cursor]; exact hfits) hwords
  have hlength : (nextOrdinals plan s count).length = count := by simp [nextOrdinals]
  constructor
  · rw [hcursor, schedulerSkip_arrivals, length_append, length_map, hlength, hs.cursor,
      Nat.add_assoc]
  · intro phase cls
    have hle := @attributed_le plan s.arrivals phase cls false
    have hcount : Nat.count (fun k => arrivalClass plan (s.arrivals.length + k) = cls) count ≤
        count := Nat.count_le _
    rw [hcounts, schedulerSkip_arrivals, attributed_append, attributed_append, hlength, hs.cursor]
    simp only [credited, hs.counts, ← Nat.add_assoc, arrivalClass] at hcount ⊢
    by_cases hphase : phase = s.phaseIndex
    · rw [if_pos hphase, if_neg (by simp), if_pos ⟨hphase.symm, trivial⟩, add_zero,
        Nat.mod_eq_of_lt (by omega)]
    · rw [if_neg hphase, if_neg fun hsame => hphase hsame.1.symm,
        if_neg fun hsame => hphase hsame.1.symm, add_zero, add_zero]

theorem Attributed.take (hs : Attributed plan s)
    (hfits : plan.selectionPhase + s.arrivals.length + 1 < 2 ^ 64) :
    Attributed plan (takeArrival plan ramp s).value.1 := by
  obtain ⟨ordinal, harrivals⟩ := @takeArrival_arrivals plan ramp s
  have hclass : (selectFrom (s.selectionCursor % plan.totalWeight) plan.weights 0 0).value =
      arrivalClass plan s.arrivals.length := by rw [hs.cursor]; rfl
  constructor
  · rw [harrivals]
    simp -implicitDefEqProofs only [takeArrival, bind_value, pure_value]
    rw [hs.cursor, add_of_lt hfits]
    simp [Nat.add_assoc]
  · intro phase cls
    have hle := @attributed_le plan s.arrivals phase cls true
    rw [harrivals, attributed_append, attributed_append]
    simp -implicitDefEqProofs only [takeArrival, bind_value, pure_value, hclass, setCount,
      Checked.add, narrow, length_singleton, Nat.count_succ, Nat.count_zero, add_zero]
    by_cases hphase : phase = s.phaseIndex
    · subst hphase
      rw [update_self]
      by_cases hcls : cls = arrivalClass plan s.arrivals.length
      · rw [← hcls, update_self, hs.counts]
        dsimp only
        rw [Nat.mod_eq_of_lt (by omega)]
        simp
      · rw [update_of_ne hcls, hs.counts]
        simp [Ne.symm hcls]
    · rw [update_of_ne hphase, hs.counts]
      simp [Ne.symm hphase]

/-- However the arrivals are consumed, each is attributed to its class. -/
theorem Consumes.attributed {count : Nat} (hplan : plan.Valid) (h : Consumes plan ramp count s s')
    (hfits : plan.selectionPhase + s.arrivals.length + count < 2 ^ 64) (hs : Attributed plan s) :
    Attributed plan s' := by
  induction h with
  | none counts cursor arrivals =>
    constructor
    · rw [cursor, arrivals, hs.cursor]
    · rw [counts, arrivals]
      exact hs.counts
  | skip s count => exact hs.skip hplan hfits
  | take s => exact hs.take hfits
  | trans hfirst hsecond ih ih' =>
    have hlength := hfirst.length
    exact ih' (by omega) (ih (by omega) hs)

end

section

variable {plan : Plan} {hz hands i : Nat} {ramp : RampInverse}

theorem length_shardOrdinals (start : Nat) (phases : List PhasePlan) :
    (shardOrdinals hands i start phases).length = sharesOf hands i phases := by
  induction phases generalizing start with
  | nil => rfl
  | cons phase rest ih => simp [shardOrdinals, sharesOf, ih]

theorem Books.arrivals_le (h : Shard plan hz hands i) {s : Scheduler}
    (hb : Books plan hz hands i s) : s.arrivals.length ≤ 86400000000 := by
  have hordinals := congrArg List.length hb.ordinals
  rw [length_map, length_append, length_shardOrdinals] at hordinals
  simp only [firstOrdinals, length_map, length_range] at hordinals
  have hplanned := hb.planned
  have hplanned_le := hb.planned_le h
  have hconsumed := hb.consumed_le
  omega

theorem SchedulerState.reach_attributed (h : Shard plan hz hands i) {epoch : Option Nat}
    {ok : SchedulerState → SchedulerEvent → Prop} {t : SchedulerState}
    (hreach : (schedulerSystem plan hz epoch ramp).Reach ok t) :
    t.Inv plan hz hands i ∧ Attributed plan t.sched := by
  apply hreach.invariant
  · intro t hinit
    refine ⟨SchedulerState.inv_init h hinit, ?_⟩
    have hnone : Attributed plan (schedulerInit plan hz) := ⟨rfl, fun _ _ => rfl⟩
    obtain rfl : t = ⟨(schedulerStart plan hz epoch).value, 0,
      (schedulerStart plan hz epoch).wrapped, 0⟩ := hinit
    cases epoch with
    | none => exact hnone
    | some epoch =>
      constructor
      · exact hnone.cursor
      · exact hnone.counts
  · rintro t e ⟨hinv, hattributed⟩ hen _
    have hnext : (t.step plan ramp e).Inv plan hz hands i := SchedulerState.inv_step h hinv hen
    obtain ⟨count, hconsumes⟩ := @apply_consumes plan ramp t.sched e
    have hlength := hconsumes.length
    have hbound : (SchedulerState.apply plan ramp t.sched e).value.arrivals.length ≤ 86400000000 :=
      hnext.accounted.books.arrivals_le h
    have hselection := h.selection_lt
    exact ⟨hnext, hconsumes.attributed h.valid (by omega) hattributed⟩

end

/-- Skipping in bulk leaves the cursor and the counters that selecting one by one leaves, as long
as the cursor does not wrap.  In every run the counters attribute the arrivals of the shard,
attempted or skipped, to their classes in turn, and any turn of the weight circle has each class
by its weight. -/
theorem bulk_skip_selects_one_by_one {plan : Plan} (h : plan.Valid) :
    (∀ (s : Scheduler) (count : Nat), s.selectionCursor + count < 2 ^ 64 →
      (∀ phase cls, (s.counts phase cls).skipped < 2 ^ 64) →
      (schedulerSkip plan s count).value.selectionCursor =
          ((fun s => (skipOne plan s).value)^[count] s).selectionCursor ∧
        (schedulerSkip plan s count).value.counts =
          ((fun s => (skipOne plan s).value)^[count] s).counts) ∧
    (∀ hz hands i, Shard plan hz hands i → ∀ epoch ramp t,
      (schedulerSystem plan hz epoch ramp).Reach (fun _ _ => True) t → ∀ phase cls,
      t.sched.counts phase cls = ⟨attributed plan t.sched.arrivals phase cls true,
        attributed plan t.sched.arrivals phase cls false⟩) ∧
    ∀ (first cls : Nat) (hcls : cls < plan.weights.length),
      Nat.count (fun k => arrivalClass plan (first + k) = cls) plan.totalWeight =
        plan.weights[cls] := by
  refine ⟨fun s count hcursor hwords => ?_, fun hz hands i hshard epoch ramp t hreach => ?_,
    fun first cls hcls => ?_⟩
  · rw [skipOne_iterate h hcursor hwords]
    exact schedulerSkip_value h hcursor hwords
  · exact (SchedulerState.reach_attributed hshard hreach).2.counts
  · have hturn := count_classAt_turn h (plan.selectionPhase + first) hcls
    simp only [arrivalClass, ← Nat.add_assoc]
    exact hturn

/-- Two classes, one of them twice as heavy. -/
def twoClassPlan : Plan :=
  { durationSec := 1, maxConcurrency := 2, targetCps := 2, totalWeight := 3, scheduleShardIndex := 0
    scheduleShardCount := 0, phases := [⟨"steady", 1, 2, 2⟩], selectionPhase := 0
    weights := [1, 2] }

theorem twoClassPlan_valid : twoClassPlan.Valid :=
  @planLoad_valid _ ⟨2, some 1, some 2, none, [1, 2]⟩ rfl

/-- A scheduler whose cursor is at the end of its word. -/
def lateScheduler : Scheduler :=
  { schedulerInit twoClassPlan 10 with selectionCursor := 2 ^ 64 - 1 }

theorem bulk_skip_selects_one_by_one_two_classes :
    (schedulerSkip twoClassPlan (schedulerInit twoClassPlan 10) 7).value.counts =
      ((fun s => (skipOne twoClassPlan s).value)^[7] (schedulerInit twoClassPlan 10)).counts :=
  ((bulk_skip_selects_one_by_one twoClassPlan_valid).1 (schedulerInit twoClassPlan 10) 7 (by decide)
    fun _ _ => Nat.two_pow_pos 64).2

/-- When the cursor wraps, the bulk path goes on around the weight circle, and single
selections start it again. -/
theorem bulk_skip_differs_when_cursor_wraps :
    twoClassPlan.Valid ∧
      ((schedulerSkip twoClassPlan lateScheduler 2).value.counts 0 0).skipped = 1 ∧
      (((fun s => (skipOne twoClassPlan s).value)^[2] lateScheduler).counts 0 0).skipped = 2 := by
  refine ⟨twoClassPlan_valid, ?_, ?_⟩ <;> decide +kernel

end SnowTG.Traffic
