import SnowTG.Lib.Rank

/-!
# Latency histograms

Samples of 64 bits are counted in 976 buckets: one for each value below 32, then
sixteen for each power of two.  A histogram is that of the multiset of its
samples, however they got there, and a quantile is the upper end of the bucket of
the exact one.
-/

namespace SnowTG.Traffic

open SnowTG.Lib Function List

/-- `TG_HIST_BUCKETS`. -/
def histBuckets : Nat := 976

/-- `tg_hist_index`. -/
def histIndex (us : Nat) : Nat :=
  if us < 32 then us
  else
    let exponent := Nat.log2 us
    32 + (exponent - 5) * 16 + us >>> (exponent - 4) - 16

/-- `tg_hist_upper`. -/
def histUpper (index : Nat) : Nat :=
  if index < 32 then index
  else
    let exponent := (index - 32) / 16 + 5
    let slot := (index - 32) % 16
    if exponent = 63 ∧ slot = 15 then 2 ^ 64 - 1
    else ((17 + slot) <<< (exponent - 4) + (2 ^ 64 - 1)) % 2 ^ 64

/-- `struct tg_histogram`. -/
@[ext] structure Histogram where
  buckets : Nat → Nat := fun _ => 0
  count : Nat := 0
  maxUs : Nat := 0

namespace Histogram

variable (hist : Histogram)

/-- `tg_histogram_record`. -/
def record (us : Nat) : Histogram where
  buckets i := if i = histIndex us then (hist.buckets i + 1) % 2 ^ 64 else hist.buckets i
  count := (hist.count + 1) % 2 ^ 64
  maxUs := if us > hist.maxUs then us else hist.maxUs

/-- `tg_histogram_merge`. -/
def merge (src : Histogram) : Histogram where
  buckets i := (hist.buckets i + src.buckets i) % 2 ^ 64
  count := (hist.count + src.count) % 2 ^ 64
  maxUs := if src.maxUs > hist.maxUs then src.maxUs else hist.maxUs

/-- The loop of `tg_histogram_quantile` over the buckets. -/
def quantileFrom (rank : Nat) : List Nat → Nat → Nat
  | [], _ => hist.maxUs
  | i :: rest, sum =>
    let sum := (sum + hist.buckets i) % 2 ^ 64
    if rank ≤ sum then if histUpper i < hist.maxUs then histUpper i else hist.maxUs
    else quantileFrom rank rest sum

/-- `tg_histogram_quantile`. -/
def quantile (permille : Nat) : Nat :=
  if hist.count = 0 ∨ 1000 < permille ∨ permille = 0 then 0
  else hist.quantileFrom ((hist.count * permille + 999) / 1000) (List.range histBuckets) 0

end Histogram

section Buckets

variable {v i : Nat}

theorem five_le_log2 (h : 32 ≤ v) : 5 ≤ Nat.log2 v := (Nat.le_log2 (by omega)).mpr h

theorem sixteen_mul_pow {e : Nat} (h : 4 ≤ e) : 16 * 2 ^ (e - 4) = 2 ^ e := by
  calc 16 * 2 ^ (e - 4) = 2 ^ (4 + (e - 4)) := (Nat.pow_add 2 4 _).symm
    _ = 2 ^ e := by rw [Nat.add_sub_cancel' h]

/-- The leading five bits of a sample. -/
theorem slot_bounds (h : 32 ≤ v) :
    16 ≤ v / 2 ^ (Nat.log2 v - 4) ∧ v / 2 ^ (Nat.log2 v - 4) < 32 := by
  have hpow := sixteen_mul_pow ((Nat.le_succ 4).trans (five_le_log2 h))
  have hpos := Nat.two_pow_pos (Nat.log2 v - 4)
  constructor
  · apply (Nat.le_div_iff_mul_le hpos).mpr
    rw [hpow]
    exact Nat.log2_self_le (by omega)
  · apply (Nat.div_lt_iff_lt_mul hpos).mpr
    have hlt : v < 2 ^ (Nat.log2 v + 1) := Nat.lt_log2_self
    omega

theorem histIndex_of_le (h : 32 ≤ v) :
    histIndex v + 16 = 32 + (Nat.log2 v - 5) * 16 + v / 2 ^ (Nat.log2 v - 4) := by
  have hslot := (slot_bounds h).1
  rw [histIndex, if_neg (by omega)]
  simp only [Nat.shiftRight_eq_div_pow]
  omega

theorem histUpper_of_le (h : 32 ≤ i) (hi : i < histBuckets) :
    histUpper i + 1 = (17 + (i - 32) % 16) * 2 ^ ((i - 32) / 16 + 5 - 4) := by
  rw [histBuckets] at hi
  rw [histUpper, if_neg (by omega)]
  simp only [Nat.shiftLeft_eq]
  have he : (i - 32) / 16 + 5 ≤ 63 := by omega
  have hs : (i - 32) % 16 ≤ 15 := by omega
  generalize (i - 32) / 16 + 5 = e at he
  generalize (i - 32) % 16 = s at hs
  split_ifs with htop
  · rw [htop.1, htop.2]
    rfl
  · have hpos := Nat.two_pow_pos (e - 4)
    have hlt : (17 + s) * 2 ^ (e - 4) < 2 ^ 64 := by
      rcases lt_or_ge e 63 with hlow | htop'
      · have hpow : 2 ^ (e - 4) ≤ 2 ^ 58 := Nat.pow_le_pow_right (by decide) (by omega)
        calc (17 + s) * 2 ^ (e - 4) ≤ 32 * 2 ^ 58 := Nat.mul_le_mul (by omega) hpow
          _ < 2 ^ 64 := by decide
      · rw [show e = 63 by omega]
        omega
    have hge : 1 ≤ (17 + s) * 2 ^ (e - 4) := Nat.mul_pos (by omega) hpos
    omega

/-- A bucket holds the samples up to its upper end that no earlier bucket holds. -/
theorem histIndex_le_iff_le_histUpper (v i : Nat) (hi : i < histBuckets) :
    histIndex v ≤ i ↔ v ≤ histUpper i := by
  rcases lt_or_ge v 32 with hv | hv
  · rw [histIndex, if_pos hv]
    rcases lt_or_ge i 32 with hlow | hhigh
    · rw [histUpper, if_pos hlow]
    · have hup := histUpper_of_le hhigh hi
      have hpow := Nat.pow_le_pow_right Nat.two_pos
        (show 1 ≤ (i - 32) / 16 + 5 - 4 by omega)
      have hmul := Nat.mul_le_mul (show 17 ≤ 17 + (i - 32) % 16 by omega) hpow
      omega
  · have hindex := histIndex_of_le hv
    obtain ⟨hslot, hslot'⟩ := slot_bounds hv
    have hlog := five_le_log2 hv
    rcases lt_or_ge i 32 with hlow | hhigh
    · rw [histUpper, if_pos hlow]
      omega
    · have hup := histUpper_of_le hhigh hi
      have hself : 2 ^ Nat.log2 v ≤ v := Nat.log2_self_le (by omega)
      have hnext : v < 2 ^ (Nat.log2 v + 1) := Nat.lt_log2_self
      have he : 4 ≤ (i - 32) / 16 + 5 := by omega
      have hpow := sixteen_mul_pow he
      have hpos := Nat.two_pow_pos ((i - 32) / 16 + 5 - 4)
      have hlower := Nat.mul_le_mul_right (2 ^ ((i - 32) / 16 + 5 - 4))
        (show 17 ≤ 17 + (i - 32) % 16 by omega)
      have hupper := Nat.mul_le_mul_right (2 ^ ((i - 32) / 16 + 5 - 4))
        (show 17 + (i - 32) % 16 ≤ 32 by omega)
      -- the exponents decide, and the slots where these agree
      rcases Nat.lt_trichotomy (Nat.log2 v) ((i - 32) / 16 + 5) with hlt | heq | hgt
      · have hle : 2 ^ (Nat.log2 v + 1) ≤ 2 ^ ((i - 32) / 16 + 5) :=
          Nat.pow_le_pow_right Nat.two_pos hlt
        exact iff_of_true (by omega) (by omega)
      · have hdiv := @Nat.div_lt_iff_lt_mul _ v (17 + (i - 32) % 16) hpos
        rw [← hup, ← heq] at hdiv
        omega
      · have hle : 2 ^ ((i - 32) / 16 + 5 + 1) ≤ 2 ^ Nat.log2 v :=
          Nat.pow_le_pow_right Nat.two_pos hgt
        exact iff_of_false (by omega) (by omega)

theorem histIndex_lt (h : v < 2 ^ 64) : histIndex v < histBuckets := by
  rw [histBuckets]
  rcases lt_or_ge v 32 with hv | hv
  · rw [histIndex, if_pos hv]
    omega
  · have hindex := histIndex_of_le hv
    have hslot := (slot_bounds hv).2
    have hlog : Nat.log2 v < 64 := (Nat.log2_lt (by omega)).mpr h
    omega

/-- The upper end of a sample's bucket is at most a sixteenth away. -/
theorem histUpper_histIndex_le (h : v < 2 ^ 64) :
    histUpper (histIndex v) ≤ v + v / 16 ∧ (v < 32 → histUpper (histIndex v) = v) := by
  rcases lt_or_ge v 32 with hv | hv
  · have hindex : histIndex v = v := by rw [histIndex, if_pos hv]
    have hupper : histUpper v = v := by rw [histUpper, if_pos hv]
    rw [hindex, hupper]
    exact ⟨Nat.le_add_right _ _, fun _ => rfl⟩
  · have hindex := histIndex_of_le hv
    obtain ⟨hslot, hslot'⟩ := slot_bounds hv
    have hlog := five_le_log2 hv
    have hup := histUpper_of_le (i := histIndex v) (by omega) (histIndex_lt h)
    have he : (histIndex v - 32) / 16 + 5 = Nat.log2 v := by omega
    have hs : 17 + (histIndex v - 32) % 16 = v / 2 ^ (Nat.log2 v - 4) + 1 := by omega
    have hpow : 2 ^ (Nat.log2 v - 4) ≤ v / 16 := by
      apply (Nat.le_div_iff_mul_le (by decide)).mpr
      rw [mul_comm, sixteen_mul_pow (by omega)]
      exact Nat.log2_self_le (by omega)
    have hdiv := Nat.div_mul_le_self v (2 ^ (Nat.log2 v - 4))
    rw [he, hs, Nat.add_mul] at hup
    exact ⟨by omega, fun hlt => absurd hlt (by omega)⟩

end Buckets

section Tally

variable {s t : Multiset Nat} {us : Nat}

/-- The histogram of a multiset of samples. -/
def histogramOf (s : Multiset Nat) : Histogram where
  buckets i := s.countP (histIndex · = i) % 2 ^ 64
  count := s.card % 2 ^ 64
  maxUs := s.sup

theorem histogramOf_zero : histogramOf 0 = {} := rfl

theorem histogramOf_record : (histogramOf s).record us = histogramOf (us ::ₘ s) := by
  apply Histogram.ext
  · funext i
    show (if i = histIndex us then _ else _) = Multiset.countP _ _ % 2 ^ 64
    rw [Multiset.countP_cons]
    simp only [eq_comm (a := i)]
    split_ifs
    · exact Nat.mod_add_mod _ _ _
    · rfl
  · show (s.card % 2 ^ 64 + 1) % 2 ^ 64 = _ % 2 ^ 64
    rw [Multiset.card_cons, Nat.mod_add_mod]
  · show (if us > s.sup then us else s.sup) = (us ::ₘ s).sup
    rw [Multiset.sup_cons]
    show _ = max us s.sup
    split_ifs <;> omega

theorem histogramOf_merge : (histogramOf s).merge (histogramOf t) = histogramOf (s + t) := by
  apply Histogram.ext
  · funext i
    show (_ % 2 ^ 64 + _ % 2 ^ 64) % 2 ^ 64 = Multiset.countP _ _ % 2 ^ 64
    rw [Multiset.countP_add, ← Nat.add_mod]
  · show (_ % 2 ^ 64 + _ % 2 ^ 64) % 2 ^ 64 = Multiset.card _ % 2 ^ 64
    rw [Multiset.card_add, ← Nat.add_mod]
  · show (if t.sup > s.sup then t.sup else s.sup) = (s + t).sup
    rw [Multiset.sup_add]
    show _ = max s.sup t.sup
    split_ifs <;> omega

/-- Recording samples one after the other, in any order, tallies them. -/
theorem foldl_record (l : List Nat) (s : Multiset Nat) :
    l.foldl Histogram.record (histogramOf s) = histogramOf (s + l) := by
  induction l generalizing s with
  | nil => exact congrArg histogramOf (add_zero s).symm
  | cons us rest ih =>
    rw [foldl_cons, histogramOf_record, ih, ← Multiset.cons_coe, Multiset.cons_add,
      Multiset.add_cons]

theorem countP_histIndex_lt_succ (s : Multiset Nat) (i : Nat) :
    s.countP (histIndex · < i + 1) = s.countP (histIndex · < i) + s.countP (histIndex · = i) := by
  induction s using Multiset.induction_on with
  | empty => rfl
  | cons us s ih =>
    rw [Multiset.countP_cons, Multiset.countP_cons, Multiset.countP_cons, ih]
    split_ifs <;> omega

variable {rank v : Nat}

/-- The loop ends at the bucket of the sample at the rank. -/
theorem quantileFrom_histogramOf (hcard : s.card < 2 ^ 64)
    (hrank : ∀ a, v ≤ a ↔ rank ≤ s.countP (· ≤ a)) (n i : Nat) (hn : i + n = histBuckets)
    (hlow : i ≤ histIndex v) (hhigh : histIndex v < histBuckets) :
    (histogramOf s).quantileFrom rank (List.range' i n) (s.countP (histIndex · < i)) =
      min (histUpper (histIndex v)) s.sup := by
  induction n generalizing i with
  | zero => omega
  | succ n ih =>
    have hsum : (s.countP (histIndex · < i) + (histogramOf s).buckets i) % 2 ^ 64 =
        s.countP (histIndex · < i + 1) := by
      show (_ + _ % 2 ^ 64) % 2 ^ 64 = _
      rw [Nat.add_mod_mod, ← countP_histIndex_lt_succ]
      exact Nat.mod_eq_of_lt ((Multiset.countP_le_card _ s).trans_lt hcard)
    -- by the order of the buckets, the loop counts the samples up to the bucket's upper end
    have hfound : rank ≤ s.countP (histIndex · < i + 1) ↔ histIndex v ≤ i := by
      rw [histIndex_le_iff_le_histUpper v i (by omega), hrank]
      refine iff_of_eq (congrArg _ (Multiset.countP_congr rfl fun us _ => propext ?_))
      rw [Nat.lt_succ_iff]
      exact histIndex_le_iff_le_histUpper us i (by omega)
    rw [List.range'_succ, Histogram.quantileFrom]
    simp only [hsum, hfound]
    split_ifs with hle hupper
    · rw [Nat.le_antisymm hle hlow]
      exact (Nat.min_eq_left (le_of_lt hupper)).symm
    · rw [Nat.le_antisymm hle hlow]
      exact (Nat.min_eq_right (Nat.le_of_not_lt hupper)).symm
    · exact ih (i + 1) (by omega) (by omega)

/-- The exact nearest-rank quantile. -/
def nearestRank (s : Multiset Nat) (permille : Nat) : Nat :=
  atRank s ((s.card * permille + 999) / 1000)

variable {p q : Nat}

theorem rank_bounds (hs : s ≠ 0) (hp : 1 ≤ p) (hp' : p ≤ 1000) :
    0 < (s.card * p + 999) / 1000 ∧ (s.card * p + 999) / 1000 ≤ s.card := by
  have hpos : 0 < s.card := Multiset.card_pos.mpr hs
  have hlower := Nat.mul_le_mul_left s.card hp
  have hupper := Nat.mul_le_mul_left s.card hp'
  omega

theorem quantile_histogramOf (hcard : s.card < 2 ^ 64) (hall : ∀ us ∈ s, us < 2 ^ 64) (hs : s ≠ 0)
    (hp : 1 ≤ p) (hp' : p ≤ 1000) :
    (histogramOf s).quantile p = min (histUpper (histIndex (nearestRank s p))) s.sup := by
  obtain ⟨hpos, hle⟩ := rank_bounds hs hp hp'
  have hcount : (histogramOf s).count = s.card := Nat.mod_eq_of_lt hcard
  have hloop := quantileFrom_histogramOf hcard (atRank_le_iff hpos hle) histBuckets 0
    (zero_add _) (Nat.zero_le _) (histIndex_lt (hall _ (atRank_mem hpos hle)))
  have hzero : s.countP (histIndex · < 0) = 0 :=
    Multiset.countP_eq_zero.mpr fun _ _ => Nat.not_lt_zero _
  rw [hzero] at hloop
  rw [Histogram.quantile, hcount, if_neg, range_eq_range']
  · exact hloop
  · have hcard_pos : 0 < s.card := Multiset.card_pos.mpr hs
    omega

theorem quantile_histogramOf_zero (p : Nat) : (histogramOf 0).quantile p = 0 := if_pos (.inl rfl)

/-- A quantile is between the exact one and a sixteenth more. -/
theorem nearestRank_le_quantile (hcard : s.card < 2 ^ 64) (hall : ∀ us ∈ s, us < 2 ^ 64)
    (hs : s ≠ 0) (hp : 1 ≤ p) (hp' : p ≤ 1000) :
    nearestRank s p ≤ (histogramOf s).quantile p ∧
      (histogramOf s).quantile p ≤ nearestRank s p + nearestRank s p / 16 ∧
      (nearestRank s p < 32 → (histogramOf s).quantile p = nearestRank s p) := by
  obtain ⟨hpos, hle⟩ := rank_bounds hs hp hp'
  have hmem : nearestRank s p ∈ s := atRank_mem hpos hle
  obtain ⟨hnear, hexact⟩ := histUpper_histIndex_le (hall _ hmem)
  have hupper := (histIndex_le_iff_le_histUpper (nearestRank s p) _
    (histIndex_lt (hall _ hmem))).mp le_rfl
  have hsup : nearestRank s p ≤ s.sup := Multiset.le_sup hmem
  rw [quantile_histogramOf hcard hall hs hp hp']
  refine ⟨Nat.le_min.mpr ⟨hupper, hsup⟩, (Nat.min_le_left _ _).trans hnear, fun hlow => ?_⟩
  rw [hexact hlow]
  exact Nat.min_eq_left hsup

/-- Larger samples are in buckets with larger ends. -/
theorem histUpper_histIndex_mono {v v' : Nat} (h : v ≤ v') (hv' : v' < 2 ^ 64) :
    histUpper (histIndex v) ≤ histUpper (histIndex v') := by
  have hlt := histIndex_lt hv'
  have hindex : histIndex v ≤ histIndex v' := by
    apply (histIndex_le_iff_le_histUpper v _ hlt).mpr
    exact h.trans ((histIndex_le_iff_le_histUpper v' _ hlt).mp le_rfl)
  apply (histIndex_le_iff_le_histUpper _ _ hlt).mp
  exact ((histIndex_le_iff_le_histUpper _ _ (hindex.trans_lt hlt)).mpr le_rfl).trans hindex

theorem quantile_mono (hcard : s.card < 2 ^ 64) (hall : ∀ us ∈ s, us < 2 ^ 64) (hs : s ≠ 0)
    (hp : 1 ≤ p) (hle : p ≤ q) (hq : q ≤ 1000) :
    (histogramOf s).quantile p ≤ (histogramOf s).quantile q := by
  obtain ⟨hpos, _⟩ := rank_bounds hs hp (hle.trans hq)
  obtain ⟨hpos', hle'⟩ := rank_bounds hs (hp.trans hle) hq
  have hmul := Nat.mul_le_mul_left s.card hle
  have hrank : nearestRank s p ≤ nearestRank s q := atRank_mono hpos (by omega) hle'
  have hlt : nearestRank s q < 2 ^ 64 := hall _ (atRank_mem hpos' hle')
  rw [quantile_histogramOf hcard hall hs hp (hle.trans hq),
    quantile_histogramOf hcard hall hs (hp.trans hle) hq]
  exact min_le_min_right _ (histUpper_histIndex_mono hrank hlt)

end Tally

section Calls

/-- Calls on histograms that all start empty. -/
inductive HistogramCall where
  | record (h : Nat) (us : UInt64)
  | merge (dst src : Nat)
  deriving DecidableEq

/-- The histograms after a call. -/
def HistogramCall.apply (hists : Nat → Histogram) : HistogramCall → Nat → Histogram
  | .record h us => update hists h ((hists h).record us.toNat)
  | .merge dst src => update hists dst ((hists dst).merge (hists src))

/-- The samples that a call adds to a histogram's. -/
def HistogramCall.note (samples : Nat → Multiset Nat) : HistogramCall → Nat → Multiset Nat
  | .record h us => update samples h (us.toNat ::ₘ samples h)
  | .merge dst src => update samples dst (samples dst + samples src)

def histogramsAfter (calls : List HistogramCall) : Nat → Histogram :=
  calls.foldl HistogramCall.apply fun _ => {}

def samplesAfter (calls : List HistogramCall) : Nat → Multiset Nat :=
  calls.foldl HistogramCall.note fun _ => 0

variable {samples : Nat → Multiset Nat}

theorem histogramOf_apply (call : HistogramCall) :
    call.apply (fun h => histogramOf (samples h)) = fun h => histogramOf (call.note samples h) := by
  funext h
  cases call with
  | record target us =>
    rw [HistogramCall.apply, HistogramCall.note, update_apply, update_apply]
    split_ifs
    · exact histogramOf_record
    · rfl
  | merge dst src =>
    rw [HistogramCall.apply, HistogramCall.note, update_apply, update_apply]
    split_ifs
    · exact histogramOf_merge
    · rfl

theorem foldl_apply (calls : List HistogramCall) (samples : Nat → Multiset Nat) :
    calls.foldl HistogramCall.apply (fun h => histogramOf (samples h)) =
      fun h => histogramOf (calls.foldl HistogramCall.note samples h) := by
  induction calls generalizing samples with
  | nil => rfl
  | cons call rest ih => rw [foldl_cons, histogramOf_apply, ih, foldl_cons]

/-- After any calls every histogram is that of its samples. -/
theorem histogramsAfter_eq_histogramOf (calls : List HistogramCall) (h : Nat) :
    histogramsAfter calls h = histogramOf (samplesAfter calls h) :=
  congrFun (foldl_apply calls fun _ => 0) h

theorem note_lt (call : HistogramCall) (hall : ∀ h, ∀ us ∈ samples h, us < 2 ^ 64) (h : Nat) :
    ∀ us ∈ call.note samples h, us < 2 ^ 64 := by
  intro us hus
  cases call with
  | record target new =>
    rw [HistogramCall.note, update_apply] at hus
    split_ifs at hus
    · obtain rfl | hold := Multiset.mem_cons.mp hus
      · exact new.toNat_lt
      · exact hall _ us hold
    · exact hall _ us hus
  | merge dst src =>
    rw [HistogramCall.note, update_apply] at hus
    split_ifs at hus
    · obtain hold | hold := Multiset.mem_add.mp hus
      · exact hall _ us hold
      · exact hall _ us hold
    · exact hall _ us hus

theorem samplesAfter_lt (calls : List HistogramCall) (h : Nat) :
    ∀ us ∈ samplesAfter calls h, us < 2 ^ 64 := by
  suffices hrun : ∀ samples : Nat → Multiset Nat, (∀ h, ∀ us ∈ samples h, us < 2 ^ 64) →
      ∀ us ∈ calls.foldl HistogramCall.note samples h, us < 2 ^ 64 from
    hrun _ fun _ us hus => absurd hus (Multiset.notMem_zero us)
  induction calls with
  | nil => exact fun samples hall => hall h
  | cons call rest ih => exact fun samples hall => ih _ (note_lt call hall)

/-- Quantiles stay within a sixteenth above the exact ones, below the largest sample, and in order;
histograms are those of recording all samples of the calls, in any order, into an empty one; and
the bucket ends are adjoint to the bucket numbers. -/
theorem histogram_accuracy (calls : List HistogramCall) (h : Nat)
    (hfew : (samplesAfter calls h).card < 2 ^ 64) :
    (∀ p, 1 ≤ p → p ≤ 1000 → samplesAfter calls h ≠ 0 →
      nearestRank (samplesAfter calls h) p ≤ (histogramsAfter calls h).quantile p ∧
      (histogramsAfter calls h).quantile p ≤
        nearestRank (samplesAfter calls h) p + nearestRank (samplesAfter calls h) p / 16 ∧
      (nearestRank (samplesAfter calls h) p < 32 →
        (histogramsAfter calls h).quantile p = nearestRank (samplesAfter calls h) p)) ∧
    (∀ p, 1 ≤ p → p ≤ 1000 → (histogramsAfter calls h).quantile p ≤ (samplesAfter calls h).sup) ∧
    (∀ p q, 1 ≤ p → p ≤ q → q ≤ 1000 →
      (histogramsAfter calls h).quantile p ≤ (histogramsAfter calls h).quantile q) ∧
    (∀ l : List Nat, (l : Multiset Nat) = samplesAfter calls h →
      histogramsAfter calls h = l.foldl Histogram.record {}) ∧
    ∀ (v : UInt64) (i : Nat), i < histBuckets →
      (histIndex v.toNat ≤ i ↔ v.toNat ≤ histUpper i) := by
  rw [histogramsAfter_eq_histogramOf]
  have hall := samplesAfter_lt calls h
  generalize samplesAfter calls h = s at hfew hall
  have hcap : ∀ p, 1 ≤ p → p ≤ 1000 → (histogramOf s).quantile p ≤ s.sup := by
    intro p hp hp'
    rcases eq_or_ne s 0 with rfl | hs
    · exact (quantile_histogramOf_zero p).le
    · rw [quantile_histogramOf hfew hall hs hp hp']
      exact Nat.min_le_right _ _
  refine ⟨fun p hp hp' hs => nearestRank_le_quantile hfew hall hs hp hp', hcap,
    fun p q hp hle hq => ?_, fun l hl => ?_, fun v i => histIndex_le_iff_le_histUpper v.toNat i⟩
  · rcases eq_or_ne s 0 with rfl | hs
    · rw [quantile_histogramOf_zero, quantile_histogramOf_zero]
    · exact quantile_mono hfew hall hs hp hle hq
  · rw [← hl, ← histogramOf_zero, foldl_record, zero_add]

/-- A sample is merged into a histogram with two of its own. -/
theorem histogram_accuracy_merged :
    let calls : List HistogramCall := [.record 0 40, .record 1 1000, .merge 0 1, .record 0 33]
    (samplesAfter calls 0).card < 2 ^ 64 ∧ (histogramsAfter calls 0).quantile 500 = 41 ∧
      nearestRank (samplesAfter calls 0) 500 ≤ 41 := by
  intro calls
  have hfew : (samplesAfter calls 0).card < 2 ^ 64 := by decide
  have hquantile : (histogramsAfter calls 0).quantile 500 = 41 := by decide +kernel
  have hlow := ((histogram_accuracy calls 0 hfew).1 500 (by decide) (by decide) (by decide)).1
  exact ⟨hfew, hquantile, hquantile ▸ hlow⟩

end Calls

end SnowTG.Traffic
