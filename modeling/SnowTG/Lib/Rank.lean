import Mathlib

/-!
# Order statistics

The element of a multiset at a rank is the least one that so many elements do not
exceed.
-/

namespace SnowTG.Lib

open List

variable {α : Type*} [LinearOrder α]

/-- In a sorted list the element at a position is bounded iff more elements than the position
counts are. -/
theorem getElem_le_iff_lt_countP {l : List α} (h : l.Pairwise (· ≤ ·)) {k : Nat}
    (hk : k < l.length) (a : α) : l[k] ≤ a ↔ k < l.countP (· ≤ a) := by
  induction l generalizing k with
  | nil => exact absurd hk (Nat.not_lt_zero k)
  | cons x rest ih =>
    obtain ⟨hx, hrest⟩ := pairwise_cons.mp h
    by_cases hxa : x ≤ a
    · rw [countP_cons_of_pos (by simpa using hxa)]
      cases k with
      | zero => simpa using hxa
      | succ k =>
        rw [getElem_cons_succ, ih hrest, Nat.add_lt_add_iff_right]
    · have hnone : rest.countP (· ≤ a) = 0 := by
        apply countP_eq_zero.mpr
        intro y hy
        simpa using (lt_of_not_ge hxa).trans_le (hx y hy)
      rw [countP_cons_of_neg (by simpa using hxa), hnone]
      have hle : x ≤ (x :: rest)[k] := by
        cases k with
        | zero => exact le_rfl
        | succ k => exact hx _ (getElem_mem _)
      exact iff_of_false (fun hka => hxa (hle.trans hka)) (Nat.not_lt_zero k)

variable [Inhabited α] {s : Multiset α} {r : Nat}

/-- The element at rank `r`, counted from one. -/
def atRank (s : Multiset α) (r : Nat) : α := ((s.sort (· ≤ ·))[r - 1]?).getD default

theorem atRank_eq_getElem (hr : 0 < r) (hs : r ≤ s.card) :
    ∃ hk : r - 1 < (s.sort (· ≤ ·)).length, atRank s r = (s.sort (· ≤ ·))[r - 1] := by
  have hk : r - 1 < (s.sort (· ≤ ·)).length := by
    rw [Multiset.length_sort]
    omega
  exact ⟨hk, by rw [atRank, List.getElem?_eq_getElem hk, Option.getD_some]⟩

theorem atRank_mem (hr : 0 < r) (hs : r ≤ s.card) : atRank s r ∈ s := by
  obtain ⟨hk, heq⟩ := atRank_eq_getElem hr hs
  rw [heq]
  exact (Multiset.mem_sort _).mp (getElem_mem _)

theorem atRank_le_iff (hr : 0 < r) (hs : r ≤ s.card) (a : α) :
    atRank s r ≤ a ↔ r ≤ s.countP (· ≤ a) := by
  have hcount : (s.sort (· ≤ ·)).countP (· ≤ a) = s.countP (· ≤ a) := by
    rw [← Multiset.coe_countP, Multiset.sort_eq]
  obtain ⟨hk, heq⟩ := atRank_eq_getElem hr hs
  rw [heq, getElem_le_iff_lt_countP (Multiset.pairwise_sort _ _), hcount]
  omega

/-- A higher rank has no smaller element. -/
theorem atRank_mono {r' : Nat} (hr : 0 < r) (hle : r ≤ r') (hs : r' ≤ s.card) :
    atRank s r ≤ atRank s r' := by
  apply (atRank_le_iff hr (hle.trans hs) _).mpr
  exact hle.trans ((atRank_le_iff (hr.trans_le hle) hs _).mp le_rfl)

end SnowTG.Lib
