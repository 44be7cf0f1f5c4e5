import Mathlib

/-!
# Dealing items round robin

Items `0, 1, …, total - 1` are dealt to `hands` hands in turn: hand `i` gets the
items `i, i + hands, i + 2 * hands, …`.  `share` counts them, and the items of all
hands together are the items dealt.
-/

namespace SnowTG.Lib

open List

/-- How many of `total` items hand `i` gets. -/
def share (hands i total : Nat) : Nat := (total - i) ⌈/⌉ hands

/-- The items of hand `i`, the first one being `start`. -/
def dealt (start hands i total : Nat) : List Nat :=
  (List.range (share hands i total)).map fun k => start + (k * hands + i)

section

variable {hands i total : Nat} {k start : Nat}

theorem share_le_iff (h : 0 < hands) : share hands i total ≤ k ↔ total ≤ k * hands + i := by
  unfold share
  rw [ceilDiv_le_iff_le_mul h, mul_comm]
  omega

/-- Hand `i` has a `k`-th item iff that item is among those dealt. -/
theorem lt_share_iff (h : 0 < hands) : k < share hands i total ↔ k * hands + i < total := by
  simpa only [not_le] using (share_le_iff h (k := k)).not

@[simp] theorem share_zero : share hands i 0 = 0 := by
  simp [share]

theorem share_mono (h : 0 < hands) {total' : Nat} (hle : total ≤ total') :
    share hands i total ≤ share hands i total' := by
  rw [share_le_iff h]
  exact hle.trans ((share_le_iff h).mp le_rfl)

theorem share_le_total (h : 0 < hands) : share hands i total ≤ total := by
  rw [share_le_iff h]
  calc
    total ≤ total * hands := Nat.le_mul_of_pos_right _ h
    _ ≤ total * hands + i := Nat.le_add_right _ _

theorem mem_dealt_iff (h : 0 < hands) {n : Nat} :
    n ∈ dealt start hands i total ↔ ∃ k, k * hands + i < total ∧ start + (k * hands + i) = n := by
  simp [dealt, lt_share_iff h]

@[simp] theorem length_dealt : (dealt start hands i total).length = share hands i total := by
  simp [dealt]

theorem dealt_nodup (h : 0 < hands) (start : Nat) : (dealt start hands i total).Nodup := by
  apply List.Nodup.map _ nodup_range
  intro k l hkl
  exact Nat.eq_of_mul_eq_mul_right h (by simpa using hkl)

end

variable {hands : Nat}

/-- The items of all hands are the items dealt, each once. -/
theorem flatMap_dealt_perm (h : 0 < hands) (start total : Nat) :
    ((List.range hands).flatMap fun i => dealt start hands i total).Perm
      ((List.range total).map (start + ·)) := by
  rw [perm_ext_iff_of_nodup]
  · intro n
    simp only [mem_flatMap, mem_range, mem_dealt_iff h, mem_map]
    constructor
    · rintro ⟨i, -, k, hlt, rfl⟩
      exact ⟨k * hands + i, hlt, rfl⟩
    · rintro ⟨m, hm, rfl⟩
      have hm_eq : m / hands * hands + m % hands = m := Nat.div_add_mod' m hands
      exact ⟨m % hands, Nat.mod_lt _ h, m / hands, by omega, by omega⟩
  · rw [nodup_flatMap]
    refine ⟨fun i _ => dealt_nodup h start, ?_⟩
    refine List.Pairwise.imp_of_mem ?_ (nodup_range (n := hands))
    intro i j hi hj hne n hni hnj
    obtain ⟨k, -, rfl⟩ := (mem_dealt_iff h).mp hni
    obtain ⟨l, -, heq⟩ := (mem_dealt_iff h).mp hnj
    have hmod : (l * hands + j) % hands = (k * hands + i) % hands := by
      rw [Nat.add_left_cancel heq]
    rw [Nat.mul_add_mod', Nat.mul_add_mod', Nat.mod_eq_of_lt (mem_range.mp hi),
      Nat.mod_eq_of_lt (mem_range.mp hj)] at hmod
    exact hne hmod.symm
  · exact nodup_range.map (add_right_injective start)

/-- The shares of all hands add up to the number of items. -/
theorem sum_share (h : 0 < hands) (total : Nat) :
    ((List.range hands).map fun i => share hands i total).sum = total := by
  have hlength := (flatMap_dealt_perm h 0 total).length_eq
  simpa [length_flatMap] using hlength

end SnowTG.Lib
