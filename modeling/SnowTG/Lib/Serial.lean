import Mathlib

/-!
# Serial-number arithmetic

Counters of `w` bits that wrap around are compared by the sign of their
difference.  A wrapped counter stands for a natural-number position relative to
a base; comparisons of wrapped counters agree with comparisons of positions as
long as the two positions are less than half the number space apart.
-/

namespace SnowTG.Lib.Serial

variable {w : Nat} {a b lo : Nat} {q : BitVec w}

/-- `a` precedes `b`: the signed difference is negative. -/
def lt (a b : BitVec w) : Bool := decide ((a - b).toInt < 0)

/-- `a` does not follow `b`: the signed difference is not positive. -/
def leq (a b : BitVec w) : Bool := decide ((a - b).toInt ≤ 0)

/-- `a` follows `b`: the signed difference is positive. -/
def gt (a b : BitVec w) : Bool := decide (0 < (a - b).toInt)

/-- The wrapped counter that stands for position `n` counted from `base`. -/
def pos (base : BitVec w) (n : Nat) : BitVec w := base + BitVec.ofNat w n

section

variable (base : BitVec w)
include base

@[simp] theorem pos_zero : pos base 0 = base := by
  simp [pos]

theorem pos_add (n m : Nat) : pos base n + BitVec.ofNat w m = pos base (n + m) := by
  simp [pos, BitVec.ofNat_add, BitVec.add_assoc]

theorem pos_succ (n : Nat) : pos base n + 1 = pos base (n + 1) :=
  pos_add base n 1

theorem pos_sub_pos (a b : Nat) : pos base a - pos base b = BitVec.ofNat w a - BitVec.ofNat w b :=
  add_sub_add_left_eq_sub _ _ _

section

variable (hab : 2 * a < 2 * b + 2 ^ w) (hba : 2 * b ≤ 2 * a + 2 ^ w)
include hab hba

/-- The signed difference of two positions closer than half the number space. -/
theorem toInt_pos_sub_pos :
    (pos base a - pos base b).toInt = (a : Int) - b := by
  rw [pos_sub_pos, BitVec.toInt_sub, BitVec.toInt_ofNat', BitVec.toInt_ofNat',
    Int.bmod_sub_bmod, Int.sub_bmod_bmod]
  generalize 2 ^ w = m at *
  exact Int.bmod_eq_of_le (by omega) (by omega)

theorem lt_pos_iff :
    lt (pos base a) (pos base b) = true ↔ a < b := by
  rw [lt, decide_eq_true_iff, toInt_pos_sub_pos base hab hba]
  omega

theorem leq_pos_iff :
    leq (pos base a) (pos base b) = true ↔ a ≤ b := by
  rw [leq, decide_eq_true_iff, toInt_pos_sub_pos base hab hba]
  omega

theorem gt_pos_iff :
    gt (pos base a) (pos base b) = true ↔ b < a := by
  rw [gt, decide_eq_true_iff, toInt_pos_sub_pos base hab hba]
  omega

end

/-- The unsigned difference of two positions in order is their distance. -/
theorem toNat_pos_sub_pos (hba : b ≤ a) (hlt : a < b + 2 ^ w) :
    (pos base a - pos base b).toNat = a - b := by
  obtain ⟨d, rfl⟩ := Nat.exists_eq_add_of_le hba
  rw [pos_sub_pos, BitVec.ofNat_add, add_sub_cancel_left, BitVec.toNat_ofNat,
    Nat.mod_eq_of_lt (by omega)]
  omega

theorem pos_sub_pos_of_le (hba : b ≤ a) : pos base a - pos base b = BitVec.ofNat w (a - b) := by
  obtain ⟨d, rfl⟩ := Nat.exists_eq_add_of_le hba
  rw [pos_sub_pos, BitVec.ofNat_add, add_sub_cancel_left, Nat.add_sub_cancel_left]

end

/-- Every counter is a position less than the whole number space behind a given one. -/
theorem exists_eq_pos_add (base q : BitVec w) (n : Nat) : ∃ x < 2 ^ w, q = pos base (n + x) := by
  refine ⟨(q - pos base n).toNat, BitVec.isLt _, ?_⟩
  rw [← pos_add, BitVec.ofNat_toNat, BitVec.setWidth_eq, add_sub_cancel]

theorem lt_iff_toNat (a b : BitVec w) : lt a b = true ↔ 2 ^ w ≤ 2 * (a - b).toNat := by
  rw [lt, decide_eq_true_iff, BitVec.toInt_eq_toNat_cond]
  have := (a - b).isLt
  split_ifs with h <;> omega

/-- Unsigned distances measured from a common reference. -/
theorem toNat_sub_eq (a b c : BitVec w) :
    (a - b).toNat = ((a - c).toNat + (2 ^ w - (b - c).toNat)) % 2 ^ w := by
  have h : a - b = (a - c) - (b - c) := (sub_sub_sub_cancel_right a b c).symm
  rw [h, BitVec.toNat_sub, add_comm]

/-- Two positions less than the whole number space apart with the same counter are equal. -/
theorem pos_inj (base : BitVec w) (hab : a < b + 2 ^ w) (hba : b < a + 2 ^ w) :
    pos base a = pos base b ↔ a = b := by
  constructor
  · intro h
    rcases Nat.le_total b a with hle | hle
    · have hsub := toNat_pos_sub_pos base hle hab
      rw [h, BitVec.sub_self, BitVec.toNat_zero] at hsub
      omega
    · have hsub := toNat_pos_sub_pos base hle hba
      rw [h, BitVec.sub_self, BitVec.toNat_zero] at hsub
      omega
  · rintro rfl
    rfl

/-- Comparison of positions at arbitrary distances from a common reference. -/
theorem lt_pos_add_iff (base : BitVec w) (n : Nat) {x y : Nat} (hx : x < 2 ^ w) (hy : y < 2 ^ w) :
    lt (pos base (n + x)) (pos base (n + y)) = true ↔ 2 ^ w ≤ 2 * ((x + (2 ^ w - y)) % 2 ^ w) := by
  have hdist : ∀ z < 2 ^ w, (pos base (n + z) - pos base n).toNat = z := by
    intro z hz
    rw [toNat_pos_sub_pos base (Nat.le_add_right n z) (by omega), Nat.add_sub_cancel_left]
  rw [lt_iff_toNat, toNat_sub_eq _ _ (pos base n), hdist x hx, hdist y hy]

/-- Positions in the half of the number space from `lo` on, where comparison is exact. -/
def Near (w lo a : Nat) : Prop := lo ≤ a ∧ 2 * a < 2 * lo + 2 ^ w

theorem Near.between {c : Nat} (ha : lo ≤ a) (hab : a ≤ b) (hbc : b ≤ c) (hc : Near w lo c) :
    Near w lo b :=
  ⟨ha.trans hab, (Nat.mul_le_mul_left 2 hbc).trans_lt hc.2⟩

section Comparisons

variable (base : BitVec w) {lo a b : Nat} (ha : Near w lo a) (hb : Near w lo b)

include ha hb

theorem Near.lt_iff : lt (pos base a) (pos base b) = true ↔ a < b := by
  unfold Near at ha hb
  exact lt_pos_iff _ (by omega) (by omega)

theorem Near.leq_iff : leq (pos base a) (pos base b) = true ↔ a ≤ b := by
  unfold Near at ha hb
  exact leq_pos_iff _ (by omega) (by omega)

theorem Near.gt_iff : gt (pos base a) (pos base b) = true ↔ b < a := by
  unfold Near at ha hb
  exact gt_pos_iff _ (by omega) (by omega)

theorem Near.toNat_sub (hle : b ≤ a) : (pos base a - pos base b).toNat = a - b := by
  unfold Near at ha hb
  exact toNat_pos_sub_pos _ hle (by omega)

end Comparisons

/-- A counter not before `lo` is a position in the half of the number space from `lo` on. -/
theorem exists_pos_of_not_lt (base : BitVec w) (hlow : lt q (pos base lo) = false) :
    ∃ a, Near w lo a ∧ q = pos base a := by
  obtain ⟨x, hx, rfl⟩ := exists_eq_pos_add base q lo
  have hpos : 0 < 2 ^ w := Nat.two_pow_pos w
  have hhalf : 2 * x < 2 ^ w := by
    have hiff := lt_pos_add_iff base lo hx hpos
    rw [add_zero, hlow, Nat.sub_zero, Nat.add_mod_right, Nat.mod_eq_of_lt hx] at hiff
    exact Nat.lt_of_not_le fun hle => Bool.false_ne_true (hiff.mpr hle)
  exact ⟨lo + x, ⟨Nat.le_add_right lo x, by omega⟩, rfl⟩

/-- A counter not before `lo` and not behind `hi` is a position between them. -/
theorem exists_pos_between (base : BitVec w) {hi : Nat} (hnear : Near w lo hi)
    (hlow : lt q (pos base lo) = false) (hhigh : gt q (pos base hi) = false) :
    ∃ a, lo ≤ a ∧ a ≤ hi ∧ q = pos base a := by
  obtain ⟨a, ha, rfl⟩ := exists_pos_of_not_lt base hlow
  have hle : ¬hi < a := by
    rw [← Near.gt_iff base ha hnear, hhigh]
    exact Bool.false_ne_true
  exact ⟨a, ha.1, Nat.le_of_not_lt hle, rfl⟩

end SnowTG.Lib.Serial
